import Cfgms.Audit.Checksum

/-! # Verification of audit chains

`VerifyChain` walks over the entries in the order of their numbers and compares neighbours.
Without the hash key, a list passes exactly if it is, up to order and to fractions of a second,
a contiguous segment of one chain. It need not start at the first entry.
-/

namespace Cfgms.Audit

open Text List Function Option

variable {D : Type*}

structure ChainBreak where
  entryID : String
  sequenceNumber : ℕ
  reason : String
  deriving DecidableEq

namespace ChecksumConfig

variable (C : ChecksumConfig D)

def report (violation : Prop) [Decidable violation] (e : AuditEntry D) (reason : String) :
    List ChainBreak :=
  if violation then [⟨e.id, e.sequenceNumber, reason⟩] else []

variable {e : AuditEntry D}

theorem report_eq_nil_iff {violation : Prop} [Decidable violation]
    {reason : String} : report violation e reason = [] ↔ ¬ violation := by
  rw [report, ite_eq_right_iff]
  simp

def checkNumber (e : AuditEntry D) : List ChainBreak :=
  report (e.sequenceNumber = 0) e
    "sequence number missing: entry has no assigned SequenceNumber and cannot be chain-verified"

/-- The comparisons with the entry before, which the first entry is spared. -/
def checkLink (prev e : AuditEntry D) : List ChainBreak :=
  report (e.sequenceNumber ≠ prev.sequenceNumber + 1) e
    ("sequence gap: expected " ++ decimal (prev.sequenceNumber + 1) ++ ", got " ++
      decimal e.sequenceNumber) ++
  report (e.previousChecksum ≠ prev.checksum) e
    ("previous_checksum mismatch: expected " ++ C.quote prev.checksum ++ ", got " ++
      C.quote e.previousChecksum)

def checkSum (e : AuditEntry D) : List ChainBreak :=
  report (e.checksum ≠ C.generateChecksum e) e
    "checksum mismatch: entry fields have been tampered with"

def verifyFrom : Option (AuditEntry D) → List (AuditEntry D) → List ChainBreak
  | _, [] => []
  | prev, e :: es =>
    checkNumber e ++ prev.elim [] (C.checkLink · e) ++ C.checkSum e ++ verifyFrom (some e) es

def verifyChain (es : List (AuditEntry D)) : List ChainBreak :=
  C.verifyFrom none (C.sortBySequence es)

variable {prev : Option (AuditEntry D)} {es : List (AuditEntry D)}

theorem verifyFrom_cons_eq_nil_iff : C.verifyFrom prev (e :: es) = [] ↔
      e.sequenceNumber ≠ 0 ∧ (∀ p ∈ prev, e.sequenceNumber = p.sequenceNumber + 1 ∧
        e.previousChecksum = p.checksum) ∧ e.checksum = C.generateChecksum e ∧
      C.verifyFrom (some e) es = [] := by
  rw [verifyFrom, append_eq_nil_iff, append_eq_nil_iff, append_eq_nil_iff,
    checkNumber, checkSum, report_eq_nil_iff, report_eq_nil_iff, not_not, and_assoc, and_assoc]
  apply and_congr_right
  intro _
  apply and_congr_left
  intro _
  cases prev with
  | none => simp
  | some p =>
    simp [checkLink, report_eq_nil_iff]

theorem chained_checksum (e : AuditEntry D) (t : String) (head : ChainHead) :
    (e.chained t head C.generateChecksum).checksum =
      C.generateChecksum (e.chained t head C.generateChecksum) := rfl

/-- The chain that appends of `es` to one tenant leave behind. -/
def chainOf (t : String) (es : List (AuditEntry D)) : List (AuditEntry D) :=
  es.foldl (fun log e => log ++ [e.chained t (chainHead log) C.generateChecksum]) []

@[simp] theorem chainOf_nil (t : String) : C.chainOf t [] = [] := rfl

@[simp] theorem chainOf_concat (t : String) (es : List (AuditEntry D)) (e : AuditEntry D) :
    C.chainOf t (es ++ [e]) =
      C.chainOf t es ++ [e.chained t (chainHead (C.chainOf t es)) C.generateChecksum] := by
  simp [chainOf]

variable {C}

theorem lastEntry_chainOf (t : String) (es : List (AuditEntry D)) :
    lastEntry (C.chainOf t es) = (C.chainOf t es).getLast? ∧
      (chainHead (C.chainOf t es)).sequenceNumber = (C.chainOf t es).length := by
  induction es using List.reverseRecOn with
  | nil => exact ⟨rfl, rfl⟩
  | append_singleton es e ih =>
    obtain ⟨-, hlen⟩ := ih
    constructor
    · rw [chainOf_concat, lastEntry_concat, getLast?_concat]
      -- the new number is above the one of the old head
      cases hlast : lastEntry (C.chainOf t es) with
      | none => rfl
      | some l =>
        have hhead : chainHead (C.chainOf t es) = l.head := by rw [chainHead, hlast]; rfl
        simp [later, hhead, AuditEntry.head]
    · rw [chainOf_concat, sequenceNumber_chainHead_concat, AuditEntry.chained_sequenceNumber,
        hlen, length_append, length_singleton]
      omega

variable {t : String} {pre post : List (AuditEntry D)} {b : AuditEntry D}

theorem chainOf_split (h : C.chainOf t es = pre ++ b :: post) :
    b.tenantID = t ∧ b.sequenceNumber = pre.length + 1 ∧ b.checksum = C.generateChecksum b ∧
      ∀ p ∈ pre.getLast?, b.previousChecksum = p.checksum := by
  induction es using List.reverseRecOn generalizing post with
  | nil => simp at h
  | append_singleton es e ih =>
    rw [chainOf_concat] at h
    rcases eq_nil_or_concat post with rfl | ⟨post, x, rfl⟩
    · obtain ⟨rfl, hb⟩ := append_inj' h rfl
      obtain rfl := singleton_inj.mp hb
      obtain ⟨hlast, hlen⟩ := lastEntry_chainOf (C := C) t es
      refine ⟨rfl, by rw [AuditEntry.chained_sequenceNumber, hlen], C.chained_checksum _ _ _, ?_⟩
      intro p hp
      have hhead : chainHead (C.chainOf t es) = p.head := by
        rw [chainHead, hlast, mem_def.mp hp]
        rfl
      rw [hhead]
      rfl
    · rw [concat_eq_append, ← cons_append, ← append_assoc] at h
      exact ih (append_inj' h rfl).1

theorem chainOf_pairwise_lt (t : String) (es : List (AuditEntry D)) :
    (C.chainOf t es).Pairwise fun a b => a.sequenceNumber < b.sequenceNumber := by
  induction es using List.reverseRecOn with
  | nil => exact .nil
  | append_singleton es e ih =>
    rw [chainOf_concat, pairwise_append]
    refine ⟨ih, pairwise_singleton _ _, ?_⟩
    intro a ha b hb
    obtain rfl := mem_singleton.mp hb
    exact Nat.lt_succ_of_le (le_chainHead ha)

variable (C) (recorded : String → List (AuditEntry D))

/-- Up to order and fractions of a second, the list is a contiguous part of one chain. -/
def Segment (es : List (AuditEntry D)) : Prop :=
  ∃ t seg, seg <:+: C.chainOf t (recorded t) ∧ (es.map C.hashView).Perm (seg.map C.hashView)

/-- Up to order, the list is the chain of the tenant, or lacks only its end. -/
def Untouched (t : String) (es : List (AuditEntry D)) : Prop :=
  ∃ init, init <+: C.chainOf t (recorded t) ∧
    (es.map C.canonical).Perm (init.map C.canonical)

/-- A checksum that fits an entry was computed by the manager, for an entry of some chain. -/
def Unforged (es : List (AuditEntry D)) : Prop :=
  ∀ e ∈ es, e.checksum = C.generateChecksum e →
    ∃ t, ∃ b ∈ C.chainOf t (recorded t), C.message e = C.message b

variable {C} {recorded}

theorem verifyFrom_segment {seg : List (AuditEntry D)} (h : C.chainOf t es = pre ++ (seg ++ post))
    (hprev : ∀ p ∈ prev, p ∈ pre.getLast?) : C.verifyFrom prev seg = [] := by
  induction seg generalizing pre prev with
  | nil => rfl
  | cons b seg ih =>
    obtain ⟨-, hnumber, hsum, hlink⟩ := chainOf_split h
    rw [verifyFrom_cons_eq_nil_iff]
    refine ⟨by omega, ?_, hsum, ?_⟩
    · intro p hp
      obtain ⟨init, rfl⟩ := getLast?_eq_some_iff.mp (hprev p hp)
      rw [append_assoc] at h
      obtain ⟨-, hbefore, -⟩ := chainOf_split h
      rw [length_append, length_singleton] at hnumber
      exact ⟨by rw [hnumber, hbefore], hlink p (hprev p hp)⟩
    · have hnext : C.chainOf t es = (pre ++ [b]) ++ (seg ++ post) := by
        rw [h, append_assoc]
        rfl
      apply ih hnext
      intro p hp
      rw [getLast?_concat]
      exact hp

/-- `VerifyChain` sees no more of an entry than its view. -/
theorem verifyFrom_congr {S T : List (AuditEntry D)} {prev' : Option (AuditEntry D)}
    (h : S.map C.hashView = T.map C.hashView)
    (hprev : prev.map C.hashView = prev'.map C.hashView) :
    C.verifyFrom prev S = C.verifyFrom prev' T := by
  induction S generalizing T prev prev' with
  | nil =>
    obtain rfl := map_eq_nil_iff.mp h.symm
    rfl
  | cons e S ih =>
    cases T with
    | nil => cases h
    | cons b T =>
      obtain ⟨hview, hrest⟩ := List.cons.inj h
      obtain ⟨hid, -, hnumber, hlink, hsum⟩ := hashView_congr hview
      have htail : C.verifyFrom (some e) S = C.verifyFrom (some b) T :=
        ih hrest (congrArg some hview)
      rw [verifyFrom, verifyFrom, htail]
      congr 1
      congr 1
      · congr 1
        · simp [checkNumber, report, hnumber, hid]
        · cases prev with
          | none =>
            obtain rfl := map_eq_none_iff.mp hprev.symm
            rfl
          | some p =>
            obtain ⟨p', rfl, hp⟩ := map_eq_some_iff.mp hprev.symm
            obtain ⟨-, -, hnumber', -, hsum'⟩ := hashView_congr hp
            simp [checkLink, report, hnumber, hid, hlink, hnumber', hsum']
      · have hcomputed : C.generateChecksum e = C.generateChecksum b := by
          rw [generateChecksum, generateChecksum, message, message, C.hashedFields_congr hview]
        simp [checkSum, report, hnumber, hid, hsum, hcomputed]

theorem Ideal.exists_chained (hC : C.Ideal) (hes : C.Unforged recorded es) (he : e ∈ es)
    (hsum : e.checksum = C.generateChecksum e) :
    ∃ t pre b post, C.chainOf t (recorded t) = pre ++ b :: post ∧ C.hashView e = C.hashView b := by
  obtain ⟨t, b, hb, hmessage⟩ := hes e he hsum
  obtain ⟨pre, post, hsplit⟩ := append_of_mem hb
  obtain ⟨-, -, hbsum, -⟩ := chainOf_split hsplit
  have hmac : C.generateChecksum e = C.generateChecksum b := congrArg C.mac hmessage
  exact ⟨t, pre, b, post, hsplit, hC.generateChecksum_inj hmac (by rw [hsum, hbsum, hmac])⟩

/-- After an entry of a chain only the entries that follow it there pass. -/
theorem Ideal.verifyFrom_prefix (hC : C.Ideal) {S : List (AuditEntry D)} (hS : C.Unforged recorded S)
    (hc : C.chainOf t (recorded t) = pre ++ b :: post) (he : C.hashView e = C.hashView b)
    (h : C.verifyFrom (some e) S = []) : S.map C.hashView <+: post.map C.hashView := by
  induction S generalizing pre post e b with
  | nil => exact nil_prefix
  | cons f S ih =>
    obtain ⟨-, hlinked, hsum, hrest⟩ := C.verifyFrom_cons_eq_nil_iff.mp h
    obtain ⟨hnumber, hlink⟩ := hlinked e rfl
    obtain ⟨u, init, d, post', hd, hf⟩ := hC.exists_chained hS mem_cons_self hsum
    obtain ⟨hbtenant, hbnumber, hbsum, -⟩ := chainOf_split hc
    obtain ⟨-, hdnumber, -, hdlink⟩ := chainOf_split hd
    obtain ⟨-, -, hfnumber, hflink, -⟩ := hashView_congr hf
    obtain ⟨-, -, henumber, -, hesum⟩ := hashView_congr he
    have hlength : init.length = pre.length + 1 := by omega
    -- the predecessor of `d` in its own chain has the checksum of `b`, so it is `b`
    obtain rfl | ⟨init, p, rfl⟩ := eq_nil_or_concat init
    · cases hlength
    rw [concat_eq_append] at hd hdlink hlength
    have hp : C.chainOf u (recorded u) = init ++ p :: (d :: post') := by
      rw [hd, append_assoc]
      rfl
    obtain ⟨hptenant, -, hpsum, -⟩ := chainOf_split hp
    have hsame : p.checksum = b.checksum := by
      calc
        p.checksum = d.previousChecksum := (hdlink p getLast?_concat).symm
        _ = f.previousChecksum := hflink.symm
        _ = e.checksum := hlink
        _ = b.checksum := hesum
    have hview : C.hashView p = C.hashView b :=
      hC.generateChecksum_inj (by rw [← hpsum, ← hbsum, hsame]) hsame
    obtain rfl : u = t := by rw [← hptenant, ← hbtenant, (hashView_congr hview).2.1]
    have hinit : init.length = pre.length := by simpa using hlength
    obtain ⟨rfl, htail⟩ := append_inj (hp.symm.trans hc) hinit
    obtain ⟨rfl, rfl⟩ := List.cons.inj htail
    rw [map_cons, map_cons, hf, cons_prefix_cons]
    exact ⟨rfl, ih (fun x hx => hS x (mem_cons_of_mem _ hx)) hd hf hrest⟩

theorem Segment.verifyChain_eq_nil (h : C.Segment recorded es) : C.verifyChain es = [] := by
  obtain ⟨t, seg, ⟨pre, post, hsplit⟩, hperm⟩ := h
  rw [append_assoc] at hsplit
  have hlt : seg.Pairwise fun a b => a.sequenceNumber < b.sequenceNumber := by
    have hall := C.chainOf_pairwise_lt t (recorded t)
    rw [← hsplit, pairwise_append, pairwise_append] at hall
    exact hall.2.1.1
  have hsorted := ((C.sort_perm es).map C.hashView).trans hperm
  have hnodup := pairwise_map.mpr (hlt.imp fun h => h.ne)
  -- numbers are distinct in a chain, so there is one way to sort the views
  have hviews : (C.sortBySequence es).map C.hashView = seg.map C.hashView := by
    have hleft : ((C.sortBySequence es).map C.hashView).Pairwise
        fun a b => a.sequenceNumber ≤ b.sequenceNumber := pairwise_map.mpr (C.sort_sorted es)
    have hright : (seg.map C.hashView).Pairwise fun a b => a.sequenceNumber ≤ b.sequenceNumber :=
      pairwise_map.mpr (hlt.imp fun h => h.le)
    apply hsorted.eq_of_pairwise ?_ hleft hright
    intro a b ha hb hab hba
    obtain ⟨x, hx, rfl⟩ := mem_map.mp (hsorted.subset ha)
    obtain ⟨y, hy, rfl⟩ := mem_map.mp hb
    rw [inj_on_of_nodup_map hnodup hx hy (le_antisymm hab hba)]
  have hsame : C.verifyFrom none (C.sortBySequence es) = C.verifyFrom none seg :=
    verifyFrom_congr hviews rfl
  rw [verifyChain, hsame]
  exact verifyFrom_segment hsplit.symm (by simp)

theorem Ideal.verifyChain_eq_nil_iff (hC : C.Ideal)
    (hes : C.Unforged recorded es) : C.verifyChain es = [] ↔ C.Segment recorded es := by
  constructor
  · intro h
    have hS : C.Unforged recorded (C.sortBySequence es) :=
      fun e he => hes e ((C.sort_perm es).subset he)
    have hperm := ((C.sort_perm es).map C.hashView).symm
    rw [verifyChain] at h
    cases hsort : C.sortBySequence es with
    | nil =>
      rw [hsort] at hperm
      exact ⟨"", [], nil_infix, hperm⟩
    | cons e S =>
      rw [hsort] at h hS hperm
      obtain ⟨-, -, hsum, hrest⟩ := C.verifyFrom_cons_eq_nil_iff.mp h
      obtain ⟨t, pre, b, post, hc, hview⟩ := hC.exists_chained hS mem_cons_self hsum
      have hprefix := hC.verifyFrom_prefix
        (fun x hx => hS x (mem_cons_of_mem _ hx)) hc hview hrest
      obtain ⟨rest, hrest', hmap⟩ := prefix_map_iff.mp hprefix
      obtain ⟨tail, rfl⟩ := hrest'
      refine ⟨t, b :: rest, ⟨pre, tail, ?_⟩, ?_⟩
      · rw [hc]
        simp
      · rw [map_cons, ← hmap, ← hview]
        exact hperm
  · exact Segment.verifyChain_eq_nil

/-- Tampering without the key is reported unless what is left looks like a segment of a chain;
an untouched chain is accepted in any order. -/
theorem tampering_reported_iff (hC : C.Ideal) (recorded : String → List (AuditEntry D))
    (t : String) (es : List (AuditEntry D)) (hes : C.Unforged recorded es) :
    ((¬ C.Untouched recorded t es → C.verifyChain es ≠ []) ↔
      (C.Segment recorded es → C.Untouched recorded t es)) ∧
    ∀ es' : List (AuditEntry D), es'.Perm (C.chainOf t (recorded t)) → C.verifyChain es' = [] := by
  constructor
  · rw [ne_eq, hC.verifyChain_eq_nil_iff hes, not_imp_not]
  · intro es' hperm
    exact Segment.verifyChain_eq_nil ⟨t, _, infix_rfl, hperm.map C.hashView⟩

def plainDetails (d : Option Unit) : String := d.elim "null" fun _ => "details"

theorem plainDetails_injective : Injective plainDetails := by
  rintro (_ | u) (_ | v) h
  · rfl
  · exact absurd h (by simp [plainDetails])
  · exact absurd h (by simp [plainDetails])
  · rfl

def plainChanges : Option (AuditChanges Unit) → String
  | none => latin (frames [])
  | some c => latin (frames ((plainDetails c.before :: plainDetails c.after :: c.fields).map bytes))

theorem plainChanges_injective : Injective plainChanges := by
  rintro (_ | ⟨b, a, fs⟩) (_ | ⟨b', a', fs'⟩) h
  · rfl
  · cases frames_injective (latin_injective h)
  · cases frames_injective (latin_injective h)
  have hfields :=
    map_injective_iff.mpr bytes_injective (frames_injective (latin_injective h))
  obtain ⟨hbefore, hrest⟩ := List.cons.inj hfields
  obtain ⟨hafter, rfl⟩ := List.cons.inj hrest
  obtain rfl := plainDetails_injective hbefore
  obtain rfl := plainDetails_injective hafter
  rfl

def mergeBySequence (es : List (AuditEntry Unit)) : List (AuditEntry Unit) :=
  es.mergeSort fun a b => a.sequenceNumber ≤ b.sequenceNumber

theorem mergeBySequence_pairwise (es : List (AuditEntry Unit)) :
    (mergeBySequence es).Pairwise fun a b => a.sequenceNumber ≤ b.sequenceNumber := by
  have hsorted : (mergeBySequence es).Pairwise
      fun a b => decide (a.sequenceNumber ≤ b.sequenceNumber) = true := by
    apply pairwise_mergeSort
    · intro a b c hab hbc
      exact decide_eq_true ((of_decide_eq_true hab).trans (of_decide_eq_true hbc))
    · intro a b
      simpa using Nat.le_total a.sequenceNumber b.sequenceNumber
  exact hsorted.imp of_decide_eq_true

def plainChecksums : ChecksumConfig Unit where
  len _ := 1
  marshalDetails := plainDetails
  marshalChanges := plainChanges
  mac := latin
  quote s := s
  sortBySequence := mergeBySequence
  sort_perm es := mergeSort_perm es _
  sort_sorted := mergeBySequence_pairwise

theorem plainChecksums_ideal : plainChecksums.Ideal where
  mac_injective := latin_injective
  marshalDetails_inj _ _ h := plainDetails_injective h
  marshalChanges_inj _ _ h := plainChanges_injective h

def signIn : AuditEntry Unit := { id := "e1", tenantID := "acme", action := "login" }

def signOut : AuditEntry Unit := { id := "e2", tenantID := "acme", action := "logout" }

/-- A sign-in and a sign-out at one tenant, nothing elsewhere. -/
def session (t : String) : List (AuditEntry Unit) := if t = "acme" then [signIn, signOut] else []

def signedIn : AuditEntry Unit := signIn.chained "acme" ⟨0, ""⟩ plainChecksums.generateChecksum

def signedOut : AuditEntry Unit :=
  signOut.chained "acme" signedIn.head plainChecksums.generateChecksum

theorem chainOf_session : plainChecksums.chainOf "acme" (session "acme") = [signedIn, signedOut] :=
  rfl

theorem checksum_ne_of_action {e : AuditEntry Unit} (haction : e.action ≠ "logout")
    (hsum : e.checksum = signedOut.checksum) : e.checksum ≠ plainChecksums.generateChecksum e := by
  intro hfits
  have hmac :=
    hfits.symm.trans (hsum.trans (plainChecksums.chained_checksum signOut "acme" signedIn.head))
  have hview := plainChecksums_ideal.generateChecksum_inj hmac hsum
  exact haction (congrArg AuditEntry.action hview)

theorem unforged_of_mem_session {e : AuditEntry Unit} (h : e ∈ [signedIn, signedOut]) :
    ∃ t, ∃ b ∈ plainChecksums.chainOf t (session t),
      plainChecksums.message e = plainChecksums.message b :=
  ⟨"acme", e, chainOf_session ▸ h, rfl⟩

theorem tampering_reported_iff_alteredAction : plainChecksums.Ideal ∧
    plainChecksums.Unforged session [signedIn, { signedOut with action := "login" }] ∧
    ((¬ plainChecksums.Untouched session "acme" [signedIn, { signedOut with action := "login" }] →
        plainChecksums.verifyChain [signedIn, { signedOut with action := "login" }] ≠ []) ↔
      (plainChecksums.Segment session [signedIn, { signedOut with action := "login" }] →
        plainChecksums.Untouched session "acme" [signedIn, { signedOut with action := "login" }])) ∧
    ∀ es' : List (AuditEntry Unit), es'.Perm (plainChecksums.chainOf "acme" (session "acme")) →
      plainChecksums.verifyChain es' = [] := by
  have hunforged :
      plainChecksums.Unforged session [signedIn, { signedOut with action := "login" }] := by
    intro e he hsum
    rcases mem_pair.mp he with rfl | rfl
    · exact unforged_of_mem_session mem_cons_self
    · have haction : "login" ≠ "logout" := by decide
      exact absurd hsum (checksum_ne_of_action haction rfl)
  exact ⟨plainChecksums_ideal, hunforged,
    tampering_reported_iff plainChecksums_ideal session "acme" _ hunforged⟩

/-- The first entry of a chain can be deleted without a trace. -/
theorem deleted_first_entry_passes :
    plainChecksums.Ideal ∧ plainChecksums.Unforged session [signedOut] ∧
    ¬ plainChecksums.Untouched session "acme" [signedOut] ∧
    plainChecksums.verifyChain [signedOut] = [] := by
  refine ⟨plainChecksums_ideal, ?_, ?_, ?_⟩
  · intro e he _
    exact unforged_of_mem_session (mem_cons_of_mem _ he)
  · rintro ⟨init, hinit, hperm⟩
    rw [chainOf_session] at hinit
    have hlength : init.length = 1 := by simpa using hperm.length_eq.symm
    obtain ⟨a, rfl⟩ := length_eq_one_iff.mp hlength
    obtain rfl : a = signedIn := (cons_prefix_cons.mp hinit).1
    have hsame := singleton_inj.mp (perm_singleton.mp hperm)
    have hid : "e2" = "e1" := congrArg AuditEntry.id hsame
    exact absurd hid (by decide)
  · have hinfix : [signedOut] <:+: plainChecksums.chainOf "acme" (session "acme") := by
      exact (suffix_cons _ _).isInfix
    have hsegment : plainChecksums.Segment session [signedOut] := ⟨"acme", _, hinfix, .refl _⟩
    exact hsegment.verifyChain_eq_nil

end ChecksumConfig

end Cfgms.Audit
