import Cfgms.Go.Time
import Cfgms.Lease.Fencing

/-! # The flat-file and SQLite lease stores

Both keep one entry per lease name. The flat-file store compares instants; the SQLite store
compares the expiry as RFC 3339 text. They answer alike exactly while no expiry is compared with
an instant that it clashes with as text.
-/

namespace Cfgms.Lease

open Go Function

/-- A call with the reading of the process clock, in nanoseconds, that it is made at. -/
inductive ClockCall where
  | acquireOrRenew (now ttl : Int64) (name holderID : String)
  | release (name holderID : String) (token : UInt64)
  | getLease (now : Int64) (name : String)

def observe : Reply → Option (Bool × String × ℕ)
  | .ok (some s) => some (s.acquired, s.holderID, s.token)
  | _ => none

structure LeaseEntry where
  holderID : String
  token : UInt64
  expiresAt : ℤ

abbrev LeaseEntries := String → Option LeaseEntry

namespace FlatFile

def acquireOrRenew (now ttl : ℤ) (entries : LeaseEntries) (name holderID : String) :
    LeaseEntries × Except String LeaseState :=
  if name = "" then (entries, .error "flatfile: lease name cannot be empty")
  else if holderID = "" then (entries, .error "flatfile: holder id cannot be empty")
  else
    let save (newToken : UInt64) : LeaseEntries × Except String LeaseState :=
      (update entries name (some ⟨holderID, newToken, now + ttl⟩),
        .ok ⟨name, holderID, newToken.toNat, now + ttl, decide (now < now + ttl), true⟩)
    match entries name with
    | none => save 1
    | some existing =>
      if ¬ existing.expiresAt < now ∧ existing.holderID ≠ holderID then
        (entries, .ok ⟨name, existing.holderID, existing.token.toNat, existing.expiresAt, true,
          false⟩)
      else if existing.expiresAt < now ∨ existing.holderID ≠ holderID then
        save (existing.token + 1)
      else save existing.token

def release (entries : LeaseEntries) (name holderID : String) (token : UInt64) : LeaseEntries :=
  match entries name with
  | none => entries
  | some existing =>
    if existing.holderID ≠ holderID ∨ existing.token ≠ token then entries
    else update entries name (some { existing with expiresAt := 0 })

def getLease (now : ℤ) (entries : LeaseEntries) (name : String) : Except String LeaseState :=
  match entries name with
  | none => .error "lease not found"
  | some e => .ok ⟨name, e.holderID, e.token.toNat, e.expiresAt, decide (now < e.expiresAt), false⟩

def store : Transducer LeaseEntries ClockCall Reply where
  step entries
    | .acquireOrRenew now ttl name holderID =>
      let (entries', reply) := acquireOrRenew now.toInt ttl.toInt entries name holderID
      (entries', reply.map some)
    | .release name holderID token => (release entries name holderID token, .ok none)
    | .getLease now name => (entries, (getLease now.toInt entries name).map some)

end FlatFile

namespace Sqlite

/-- A text that `formatTime` wrote, with the instant that `parseTime` reads back. -/
structure TimeText where
  instant : ℤ
  text : List Char
  text_eq : text = formatRFC3339Nano instant

def formatTime (t : ℤ) : TimeText := ⟨t, formatRFC3339Nano t, rfl⟩

def parseTime (s : TimeText) : ℤ := s.instant

structure Row where
  holderID : String
  token : ℕ
  expiresAt : TimeText
  token_le : token ≤ maxToken

abbrev Table := String → Option Row

def scanLeaseState (now : ℤ) (name : String) (r : Row) (acquired : Bool) : LeaseState where
  name := name
  holderID := r.holderID
  token := r.token
  expiresAt := parseTime r.expiresAt
  valid := decide (now < parseTime r.expiresAt)
  acquired := acquired

def getLease (now : ℤ) (t : Table) (name : String) : Except String LeaseState :=
  match t name with
  | none => .error "lease not found"
  | some r => .ok (scanLeaseState now name r false)

/-- The clock is read for the comparison, for the new expiry and for the answer. -/
def acquireOrRenew (now nowExpiry nowScan ttl : ℤ) (t : Table) (name holderID : String) :
    Table × Except String LeaseState :=
  if name = "" then (t, .error "sqlite: lease name cannot be empty")
  else if holderID = "" then (t, .error "sqlite: holder id cannot be empty")
  else
    let nowStr := formatTime now
    let expiresAtStr := formatTime (nowExpiry + ttl)
    match t name with
    | none =>
      let row : Row := ⟨holderID, 1, expiresAtStr, one_le_maxToken⟩
      (update t name (some row), .ok (scanLeaseState nowScan name row true))
    | some r =>
      if r.expiresAt.text < nowStr.text ∨ r.holderID = holderID then
        let token :=
          if r.holderID = holderID ∧ nowStr.text ≤ r.expiresAt.text then r.token else r.token + 1
        if h : token ≤ maxToken then
          let row : Row := ⟨holderID, token, expiresAtStr, h⟩
          (update t name (some row), .ok (scanLeaseState nowScan name row true))
        else
          -- the sum is no longer an integer to SQLite and does not scan as one
          (t, .error ("sqlite: failed to acquire or renew lease " ++ name.quote ++
            ": converting token to a int64"))
      else (t, getLease nowScan t name)

def release (t : Table) (name holderID : String) (token : UInt64) : Table :=
  match t name with
  | none => t
  | some r =>
    if r.holderID = holderID ∧ r.token = token.toNat then
      update t name (some { r with expiresAt := formatTime 0 })
    else t

def store : Transducer Table ClockCall Reply where
  step t
    | .acquireOrRenew now ttl name holderID =>
      let (t', reply) :=
        acquireOrRenew now.toInt now.toInt now.toInt ttl.toInt t name holderID
      (t', reply.map some)
    | .release name holderID token => (release t name holderID token, .ok none)
    | .getLease now name => (t, (getLease now.toInt t name).map some)

end Sqlite

/-- The expiry that the call compares its clock reading with is not one that clashes with
it, and a token that is raised has room in SQLite's integers. -/
def Comparable (entries : LeaseEntries) : ClockCall → Prop
  | .acquireOrRenew now _ name holderID => name ≠ "" → holderID ≠ "" →
      ∀ e, entries name = some e → ¬ Clash e.expiresAt now.toInt ∧
        (e.expiresAt < now.toInt → e.token.toNat ≠ maxToken)
  | _ => True

structure Matches (e : LeaseEntry) (r : Sqlite.Row) : Prop where
  holderID : e.holderID = r.holderID
  token : e.token.toNat = r.token
  expiresAt : e.expiresAt = r.expiresAt.instant
  years : InYears e.expiresAt

def Related (entries : LeaseEntries) (t : Sqlite.Table) : Prop :=
  ∀ name, Option.Rel Matches (entries name) (t name)

theorem inYears_add (now ttl : Int64) : InYears (now.toInt + ttl.toInt) := by
  have h₁ := now.le_toInt
  have h₂ := now.toInt_lt
  have h₃ := ttl.le_toInt
  have h₄ := ttl.toInt_lt
  unfold InYears unixToInternal maxSeconds
  omega

theorem inYears_now (now : Int64) : InYears now.toInt := by
  simpa using inYears_add now 0

variable {entries : LeaseEntries} {t : Sqlite.Table}
variable {name : String} {e : LeaseEntry}

section

variable (h : Related entries t)
include h

theorem Related.row
    (he : entries name = some e) : ∃ r, t name = some r ∧ Matches e r := by
  have hrel := h name
  rw [he] at hrel
  generalize t name = row at hrel
  obtain ⟨hm⟩ := hrel
  exact ⟨_, rfl, hm⟩

theorem Related.no_row (he : entries name = none) : t name = none := by
  have hrel := h name
  rw [he] at hrel
  generalize t name = row at hrel
  cases hrel
  rfl

variable {r : Sqlite.Row}

theorem Related.update (hm : Matches e r) (name : String) :
    Related (update entries name (some e)) (update t name (some r)) := by
  intro other
  by_cases ho : other = name
  · subst ho
    simpa using Option.Rel.some hm
  · simpa [ho] using h other

theorem Related.release (name holderID : String) (token : UInt64) :
    Related (FlatFile.release entries name holderID token)
      (Sqlite.release t name holderID token) := by
  unfold FlatFile.release Sqlite.release
  cases he : entries name with
  | none =>
    rw [h.no_row he]
    exact h
  | some e =>
    obtain ⟨r, ht, hm⟩ := h.row he
    have hmatch : (e.holderID ≠ holderID ∨ e.token ≠ token) ↔
        ¬ (r.holderID = holderID ∧ r.token = token.toNat) := by
      rw [not_and_or, hm.holderID, ← hm.token, UInt64.toNat_inj]
    simp only [ht, hmatch, ite_not]
    split
    · apply h.update
      exact ⟨hm.holderID, hm.token, rfl, inYears_now 0⟩
    · exact h

theorem Related.getLease (now : ℤ) (name : String) :
    observe ((Sqlite.getLease now t name).map some) =
      observe ((FlatFile.getLease now entries name).map some) := by
  unfold FlatFile.getLease Sqlite.getLease
  cases he : entries name with
  | none => rw [h.no_row he]
  | some e =>
    obtain ⟨r, ht, hm⟩ := h.row he
    simp [ht, Except.map, observe, Sqlite.scanLeaseState, hm.holderID, hm.token]

end

theorem Matches.text_lt_iff (h : Matches e r) (now : Int64) :
    r.expiresAt.text < (Sqlite.formatTime now.toInt).text ↔
      if Clash e.expiresAt now.toInt then ¬ e.expiresAt < now.toInt
      else e.expiresAt < now.toInt := by
  rw [r.expiresAt.text_eq, ← h.expiresAt, Sqlite.formatTime,
    formatRFC3339Nano_lt_iff h.years (inYears_now now)]
  by_cases hc : Clash e.expiresAt now.toInt
  · have hne := hc.1
    simp only [hc, if_true]
    omega
  · simp [hc]

variable {now ttl : ℤ} {holderID : String}

theorem FlatFile.acquireOrRenew_some (hn : name ≠ "") (hh : holderID ≠ "")
    (he : entries name = some e) :
    FlatFile.acquireOrRenew now ttl entries name holderID =
      if e.expiresAt < now ∨ e.holderID = holderID then
        let token := if e.expiresAt < now then e.token + 1 else e.token
        (update entries name (some ⟨holderID, token, now + ttl⟩),
          .ok ⟨name, holderID, token.toNat, now + ttl, decide (now < now + ttl), true⟩)
      else (entries, .ok ⟨name, e.holderID, e.token.toNat, e.expiresAt, true, false⟩) := by
  unfold FlatFile.acquireOrRenew
  rw [if_neg hn, if_neg hh, he]
  by_cases hexp : e.expiresAt < now <;> by_cases hsame : e.holderID = holderID <;>
    simp [hexp, hsame]

theorem Sqlite.acquireOrRenew_some (hn : name ≠ "") (hh : holderID ≠ "") (hr : t name = some r)
    {expired : Prop} [Decidable expired]
    (hexp : r.expiresAt.text < (Sqlite.formatTime now).text ↔ expired) :
    Sqlite.acquireOrRenew now now now ttl t name holderID =
      if expired ∨ r.holderID = holderID then
        let token := if expired then r.token + 1 else r.token
        if h : token ≤ maxToken then
          let row : Sqlite.Row := ⟨holderID, token, Sqlite.formatTime (now + ttl), h⟩
          (update t name (some row), .ok (Sqlite.scanLeaseState now name row true))
        else (t, .error ("sqlite: failed to acquire or renew lease " ++ name.quote ++
            ": converting token to a int64"))
      else (t, .ok (Sqlite.scanLeaseState now name r false)) := by
  have hle : (Sqlite.formatTime now).text ≤ r.expiresAt.text ↔ ¬ expired := by
    rw [← hexp, not_lt]
  unfold Sqlite.acquireOrRenew
  rw [if_neg hn, if_neg hh, hr]
  by_cases hx : expired <;> by_cases hsame : r.holderID = holderID <;>
    simp [hexp, hle, hx, hsame, Sqlite.getLease, hr]

/-- The stores stay related through a call and answer it alike. -/
def Agree (entries : LeaseEntries) (t : Sqlite.Table) (c : ClockCall) : Prop :=
  Related (FlatFile.store.step entries c).1 (Sqlite.store.step t c).1 ∧
    observe (Sqlite.store.step t c).2 = observe (FlatFile.store.step entries c).2

section Acquire

variable {now ttl : Int64} {name holderID : String}

variable (h : Related entries t)
include h

variable (hn : name ≠ "")
include hn

variable (hh : holderID ≠ "")
include hh

theorem Related.acquire_none (he : entries name = none) :
    Agree entries t (.acquireOrRenew now ttl name holderID) := by
  simp only [Agree, FlatFile.store, Sqlite.store, FlatFile.acquireOrRenew, Sqlite.acquireOrRenew,
    hn, hh, if_false, he, h.no_row he]
  exact ⟨h.update ⟨rfl, rfl, rfl, inYears_add now ttl⟩ name, rfl⟩

theorem Related.acquire_some
    {e : LeaseEntry} (he : entries name = some e) (hclash : ¬ Clash e.expiresAt now.toInt)
    (hroom : e.expiresAt < now.toInt → e.token.toNat ≠ maxToken) :
    Agree entries t (.acquireOrRenew now ttl name holderID) := by
  obtain ⟨r, ht, hm⟩ := h.row he
  have hle := r.token_le
  have hlt := hm.text_lt_iff now
  rw [if_neg hclash] at hlt
  simp only [Agree, FlatFile.store, Sqlite.store]
  rw [FlatFile.acquireOrRenew_some hn hh he, Sqlite.acquireOrRenew_some hn hh ht hlt,
    ← hm.holderID]
  by_cases hc : e.expiresAt < now.toInt ∨ e.holderID = holderID
  · rw [if_pos hc, if_pos hc]
    -- the token that both write, raised only when the expiry has passed
    have htok : (if e.expiresAt < now.toInt then e.token + 1 else e.token).toNat =
        if e.expiresAt < now.toInt then r.token + 1 else r.token := by
      split
      · have hne := hroom ‹_›
        rw [UInt64.toNat_add, hm.token]
        unfold maxToken at hle
        exact Nat.mod_eq_of_lt (by simp; omega)
      · exact hm.token
    have hfit : (if e.expiresAt < now.toInt then r.token + 1 else r.token) ≤ maxToken := by
      split
      · have hne := hroom ‹_›
        rw [hm.token] at hne
        omega
      · exact hle
    simp only [hfit, dif_pos]
    refine ⟨h.update ⟨rfl, htok, rfl, inYears_add now ttl⟩ name, ?_⟩
    simp [Except.map, observe, Sqlite.scanLeaseState, htok]
  · rw [if_neg hc, if_neg hc]
    refine ⟨h, ?_⟩
    simp [Except.map, observe, Sqlite.scanLeaseState, hm.holderID, hm.token]

/-- Where an expiry clashes with the clock, or a token has no room, the answers differ. -/
theorem Related.acquire_differ {e : LeaseEntry} (he : entries name = some e)
    (hbad : ¬ (¬ Clash e.expiresAt now.toInt ∧
      (e.expiresAt < now.toInt → e.token.toNat ≠ maxToken))) :
    observe (Sqlite.store.step t (.acquireOrRenew now ttl name holderID)).2 ≠
      observe (FlatFile.store.step entries (.acquireOrRenew now ttl name holderID)).2 := by
  obtain ⟨r, ht, hm⟩ := h.row he
  simp only [FlatFile.store, Sqlite.store]
  have hle := r.token_le
  have hlt := hm.text_lt_iff now
  by_cases hclash : Clash e.expiresAt now.toInt
  · -- one store sees the lease expired, the other does not
    rw [if_pos hclash] at hlt
    rw [FlatFile.acquireOrRenew_some hn hh he, Sqlite.acquireOrRenew_some hn hh ht hlt,
      ← hm.holderID]
    by_cases hx : e.expiresAt < now.toInt <;> by_cases hsame : e.holderID = holderID
    · have htok : (e.token + 1).toNat ≠ r.token := by
        rw [UInt64.toNat_add, hm.token]
        simp
        omega
      simpa [hx, hsame, hle, Except.map, observe, Sqlite.scanLeaseState] using htok.symm
    · simp [hx, hsame, Except.map, observe, Sqlite.scanLeaseState]
    all_goals
      by_cases hroom : r.token + 1 ≤ maxToken <;>
        simp [hx, hsame, hroom, Except.map, observe, Sqlite.scanLeaseState, hm.token]
  · have hfull : e.expiresAt < now.toInt ∧ e.token.toNat = maxToken := by
      by_contra hne
      exact hbad ⟨hclash, fun hx ht => hne ⟨hx, ht⟩⟩
    rw [if_neg hclash] at hlt
    rw [FlatFile.acquireOrRenew_some hn hh he, Sqlite.acquireOrRenew_some hn hh ht hlt,
      ← hm.token, hfull.2]
    simp [hfull.1, Except.map, observe]

end Acquire

theorem Related.step {c : ClockCall} (h : Related entries t) (hc : Comparable entries c) :
    Agree entries t c := by
  cases c with
  | release name holderID token => exact ⟨h.release name holderID token, rfl⟩
  | getLease now name => exact ⟨h, h.getLease now.toInt name⟩
  | acquireOrRenew now ttl name holderID =>
    by_cases hn : name = ""
    · simp only [Agree, FlatFile.store, Sqlite.store, FlatFile.acquireOrRenew,
        Sqlite.acquireOrRenew, hn, if_true]
      exact ⟨h, rfl⟩
    by_cases hh : holderID = ""
    · simp only [Agree, FlatFile.store, Sqlite.store, FlatFile.acquireOrRenew,
        Sqlite.acquireOrRenew, hn, hh, if_true, if_false]
      exact ⟨h, rfl⟩
    cases he : entries name with
    | none => exact h.acquire_none hn hh he
    | some e =>
      obtain ⟨hclash, hroom⟩ := hc hn hh e he
      exact h.acquire_some hn hh he hclash hroom

theorem Related.differ {c : ClockCall} (h : Related entries t) (hc : ¬ Comparable entries c) :
    observe (Sqlite.store.step t c).2 ≠ observe (FlatFile.store.step entries c).2 := by
  cases c with
  | release | getLease => exact absurd trivial hc
  | acquireOrRenew now ttl name holderID =>
    simp only [Comparable, not_forall] at hc
    obtain ⟨hn, hh, e, he, hbad⟩ := hc
    exact h.acquire_differ hn hh he hbad

/-- The SQLite store answers like the flat-file store exactly on the histories whose calls
all compare cleanly. -/
theorem sqlite_agrees_iff (calls : List ClockCall) :
    (Sqlite.store.outputs (fun _ => none) calls).map observe =
        (FlatFile.store.outputs (fun _ => none) calls).map observe ↔
      FlatFile.store.Along Comparable (fun _ => none) calls :=
  FlatFile.store.outputs_agree_iff Sqlite.store observe (fun _ _ _ h hc => Related.step h hc)
    (fun _ _ _ h hc => Related.differ h hc) (fun _ => Option.Rel.none) calls

/-- A lease for one second is renewed half a second into the second in which it expires. -/
def halfSecondLate : List ClockCall :=
  [.acquireOrRenew 1000000000 1000000000 "job" "node-a",
    .acquireOrRenew 2500000000 1000000000 "job" "node-b"]

theorem sqlite_differs_halfSecondLate :
    (Sqlite.store.outputs (fun _ => none) halfSecondLate).map observe ≠
      (FlatFile.store.outputs (fun _ => none) halfSecondLate).map observe := by
  decide

end Cfgms.Lease
