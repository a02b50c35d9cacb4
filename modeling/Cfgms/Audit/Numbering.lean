import Cfgms.Audit.Sink
import Cfgms.Audit.Stores

/-! # Sequence numbers over the lifetime of a tenant

A store is an authority on numbers if every number it gives to a tenant exceeds all that it
gave before. SQLite and PostgreSQL are; the flat-file store is one as long as no archive or purge
removes the file with the highest number, and no line in it is too long to be read again.
-/

namespace Cfgms.Audit

open List Function

variable {σ D : Type*}

inductive StoreCall (D : Type*) where
  | append (now : ℤ) (tenantID : String) (entry : AuditEntry D)
  | archive (beforeDate : ℤ)
  | purge (beforeDate : ℤ)
  | restart

inductive LifeAction (D : Type*) where
  | call (c : StoreCall D)
  | ship (n : ℕ) (p : PutPoint) (o : PutOutcome)

/-- A store with all the entries that it ever numbered and the blob store they are shipped to. -/
structure Lifetime (σ D : Type*) where
  store : σ
  assigned : List (AuditEntry D)
  worm : BlobStore D

namespace Lifetime

def start (s : σ) : Lifetime σ D := ⟨s, [], .empty⟩

structure NeverReused (l : Lifetime σ D) : Prop where
  increasing : l.assigned.Pairwise fun a b =>
    a.tenantID = b.tenantID → a.sequenceNumber < b.sequenceNumber
  shipped : ∀ e ∈ l.assigned, ∀ b,
    l.worm.blobs (wormKey e.tenantID e.sequenceNumber) = some b → b = e

end Lifetime

namespace AuditStore

variable (S : AuditStore σ D)

def call (s : σ) : StoreCall D → σ × Option (AuditEntry D)
  | .append now tenantID entry =>
      let r := S.appendChainedEntry s now tenantID entry
      (r.1, r.2.toOption)
  | .archive beforeDate => (S.archiveAuditEntries s beforeDate, none)
  | .purge beforeDate => (S.purgeAuditEntries s beforeDate, none)
  | .restart => (S.restart s, none)

/-- An append answers with the numbered entry, a step of its shipment with the blob that was in its
place. The steps of the shipments come in any order. -/
def lifetime : Transducer (Lifetime σ D) (LifeAction D) (Option (AuditEntry D)) where
  step l
    | .call c =>
        let r := S.call l.store c
        ({ l with store := r.1, assigned := l.assigned ++ r.2.toList }, r.2)
    | .ship n p o =>
        match l.assigned[n]? with
        | none => (l, none)
        | some e =>
            let key := wormKey e.tenantID e.sequenceNumber
            (((l.worm.put key e p o).elim l fun (w, _) => { l with worm := w }), l.worm.blobs key)

/-- `I s m` bounds by `m` the numbers given to each tenant so far. -/
def Authority (C : σ → StoreCall D → Prop) (I : σ → (String → ℕ) → Prop) : Prop :=
  ∀ s m c, I s m → C s c → (S.call s c).2.elim (I (S.call s c).1 m) fun a =>
    m a.tenantID < a.sequenceNumber ∧
      I (S.call s c).1 (update m a.tenantID a.sequenceNumber)

/-- The calls to the store meet the condition; shipping is free. -/
def OnCalls (C : σ → StoreCall D → Prop) (l : Lifetime σ D) : LifeAction D → Prop
  | .call c => C l.store c
  | .ship _ _ _ => True

theorem onCalls_true (l : Lifetime σ D) (a : LifeAction D) : OnCalls (fun _ _ => True) l a := by
  cases a <;> trivial

structure Ledger (I : σ → (String → ℕ) → Prop) (l : Lifetime σ D) (m : String → ℕ) : Prop where
  inv : I l.store m
  bound : ∀ e ∈ l.assigned, e.sequenceNumber ≤ m e.tenantID
  increasing : l.assigned.Pairwise fun a b =>
    a.tenantID = b.tenantID → a.sequenceNumber < b.sequenceNumber
  blobs : ∀ k b, l.worm.blobs k = some b → b ∈ l.assigned ∧ k = wormKey b.tenantID b.sequenceNumber

variable {S} {C : σ → StoreCall D → Prop} {I : σ → (String → ℕ) → Prop} {l : Lifetime σ D}
  {m : String → ℕ}

theorem Ledger.call (hS : S.Authority C I) (h : Ledger I l m) {c : StoreCall D}
    (hc : C l.store c) : ∃ m', Ledger I (S.lifetime.step l (.call c)).1 m' := by
  have hnext := hS l.store m c h.inv hc
  simp only [lifetime]
  cases ho : (S.call l.store c).2 with
  | none =>
    rw [ho] at hnext
    exact ⟨m, hnext, by simpa using h.bound, by simpa using h.increasing, by simpa using h.blobs⟩
  | some a =>
    rw [ho] at hnext
    obtain ⟨hlt, hinv⟩ := hnext
    refine ⟨update m a.tenantID a.sequenceNumber, hinv, ?_, ?_, ?_⟩
    · intro e he
      rcases mem_append.mp he with he | he
      · have hle := h.bound e he
        by_cases ht : e.tenantID = a.tenantID
        · rw [ht] at hle ⊢
          simpa using hle.trans hlt.le
        · simpa [ht] using hle
      · obtain rfl : e = a := by simpa using he
        simp
    · rw [Option.toList_some, pairwise_append]
      refine ⟨h.increasing, pairwise_singleton _ _, ?_⟩
      intro e he b hb ht
      obtain rfl := mem_singleton.mp hb
      exact (h.bound e he).trans_lt (ht ▸ hlt)
    · intro k b hk
      exact (h.blobs k b hk).imp_left (mem_append_left _)

theorem Ledger.ship (h : Ledger I l m) (n : ℕ) (p : PutPoint) (o : PutOutcome) :
    Ledger I (S.lifetime.step l (.ship n p o)).1 m := by
  simp only [lifetime]
  cases hn : l.assigned[n]? with
  | none => exact h
  | some e =>
    dsimp only
    cases hput : l.worm.put (wormKey e.tenantID e.sequenceNumber) e p o with
    | none => exact h
    | some r =>
      refine ⟨h.inv, h.bound, h.increasing, fun k b hk => ?_⟩
      change r.1.blobs k = some b at hk
      obtain hw | ⟨hkey, hw⟩ := BlobStore.put_blobs hput k
      · exact h.blobs k b (hw ▸ hk)
      · obtain rfl : e = b := Option.some.inj (hw.symm.trans hk)
        exact ⟨mem_of_getElem? hn, hkey⟩

theorem Ledger.neverReused (h : Ledger I l m) : l.NeverReused where
  increasing := h.increasing
  shipped e he b hb := by
    obtain ⟨hmem, hk⟩ := h.blobs _ b hb
    obtain ⟨ht, hn⟩ := wormKey_inj hk
    by_contra hne
    have hdistinct := h.increasing.imp fun hab ht => (hab ht).ne
    have : Std.Symm fun a b : AuditEntry D =>
        a.tenantID = b.tenantID → a.sequenceNumber ≠ b.sequenceNumber :=
      ⟨fun _ _ hab ht hn => hab ht.symm hn.symm⟩
    exact hdistinct.forall hmem he hne ht.symm hn.symm

theorem Authority.neverReused (hS : S.Authority C I) {s : σ} (hs : I s fun _ => 0)
    (as : List (LifeAction D)) (h : S.lifetime.Along (OnCalls C) (.start s) as) :
    (S.lifetime.final (.start s) as).NeverReused := by
  have hstart : Ledger I (.start s : Lifetime σ D) fun _ => 0 :=
    { inv := hs
      bound := fun _ he => absurd he not_mem_nil
      increasing := List.Pairwise.nil
      blobs := fun _ _ hk => by cases hk }
  have hstep : ∀ (l : Lifetime σ D) a, (∃ m, Ledger I l m) → OnCalls C l a →
      ∃ m, Ledger I (S.lifetime.step l a).1 m := by
    rintro l (c | ⟨n, p, o⟩) ⟨m, hl⟩ hc
    · exact hl.call hS hc
    · exact ⟨m, hl.ship n p o⟩
  obtain ⟨m, hm⟩ := Transducer.along_invariant hstep ⟨_, hstart⟩ h
  exact hm.neverReused

end AuditStore

namespace SQLiteConfig

variable {Q : SQLiteConfig D}

theorem append_cases (Q : SQLiteConfig D) (rows : List (AuditEntry D)) (now : ℤ) (t : String)
    (e : AuditEntry D) :
    (∃ err, Q.appendChainedEntry rows now t e = (rows, .error err)) ∨
      ∃ a, Q.appendChainedEntry rows now t e = (rows ++ [a], .ok a) ∧ a.tenantID = t ∧
        a.sequenceNumber = (chainHead (rows.filter fun r => r.tenantID = t)).sequenceNumber + 1 := by
  unfold appendChainedEntry
  split
  · exact .inl ⟨_, rfl⟩
  dsimp only
  split
  · exact .inl ⟨_, rfl⟩
  split
  · exact .inl ⟨_, rfl⟩
  · exact .inr ⟨_, rfl, by simp, by simp⟩

/-- The highest number of each tenant's rows bounds what the tenant was given. -/
def Bounds (rows : List (AuditEntry D)) (m : String → ℕ) : Prop :=
  ∀ t, m t ≤ (chainHead (rows.filter fun r => r.tenantID = t)).sequenceNumber

theorem authority : Q.store.Authority (fun _ _ => True) Bounds := by
  intro rows m c hI _
  cases c with
  | append now t e =>
    simp only [AuditStore.call, store]
    rcases append_cases Q rows now t e with ⟨err, h⟩ | ⟨a, h, rfl, hseq⟩
    · simpa [h, Except.toOption] using hI
    simp only [h, Except.toOption, Option.elim_some]
    refine ⟨hseq ▸ Nat.lt_succ_of_le (hI _), fun t => ?_⟩
    by_cases ht : t = a.tenantID
    · subst ht
      have ha : a ∈ (rows ++ [a]).filter fun r => r.tenantID = a.tenantID := by simp
      simpa using le_chainHead ha
    · simpa [ht, Ne.symm ht] using hI t
  | archive | purge | restart => exact hI

end SQLiteConfig

namespace DatabaseConfig

variable {P : DatabaseConfig D}

theorem append_cases (P : DatabaseConfig D) (s : DatabaseStore D) (now : ℤ) (t : String)
    (e : AuditEntry D) :
    (∃ err, P.appendChainedEntry s now t e = (s, .error err)) ∨
      ∃ a, P.appendChainedEntry s now t e =
          (⟨s.rows ++ [a], update s.chainHeads t (some a.head)⟩, .ok a) ∧
        a.tenantID = t ∧ a.sequenceNumber = (head s t).sequenceNumber + 1 := by
  unfold appendChainedEntry
  split
  · exact .inl ⟨_, rfl⟩
  dsimp only
  split
  · exact .inl ⟨_, rfl⟩
  split
  · exact .inl ⟨_, rfl⟩
  · exact .inr ⟨_, rfl, rfl, rfl⟩

/-- The head row of each tenant bounds what the tenant was given; without one it was given nothing. -/
def Bounds (s : DatabaseStore D) (m : String → ℕ) : Prop :=
  ∀ t, m t ≤ (s.chainHeads t).elim 0 ChainHead.sequenceNumber

theorem Bounds.le_head {s : DatabaseStore D} {m : String → ℕ} (h : Bounds s m) (t : String) :
    m t ≤ (head s t).sequenceNumber := by
  have ht := h t
  unfold head
  cases hh : s.chainHeads t with
  | none => simp_all
  | some b => simpa [hh] using ht

theorem authority : P.store.Authority (fun _ _ => True) Bounds := by
  intro s m c hI _
  cases c with
  | append now t e =>
    simp only [AuditStore.call, store]
    rcases append_cases P s now t e with ⟨err, h⟩ | ⟨a, h, rfl, hseq⟩
    · simpa [h, Except.toOption] using hI
    simp only [h, Except.toOption, Option.elim_some]
    refine ⟨hseq ▸ Nat.lt_succ_of_le (hI.le_head _), fun t => ?_⟩
    by_cases ht : t = a.tenantID
    · simp [ht, AuditEntry.head]
    · simpa [ht] using hI t
  | archive | purge | restart => exact hI

end DatabaseConfig

namespace FlatFileConfig

variable {F : FlatFileConfig D}

def written (files : List (DailyFile D)) : List (AuditEntry D) := files.flatMap DailyFile.lines

/-- The highest number in the files of a directory. -/
def top (files : List (DailyFile D)) : ℕ := (chainHead (written files)).sequenceNumber

/-- The highest number that can be read back from them. -/
def readTop (F : FlatFileConfig D) (files : List (DailyFile D)) : ℕ :=
  (chainHead (F.readable files)).sequenceNumber

theorem mem_written_appendLine {files : List (DailyFile D)} {e b : AuditEntry D} :
    b ∈ written (appendLine files e) ↔ b ∈ written files ∨ b = e := by
  simp only [appendLine, written]
  split
  · next hany =>
    obtain ⟨g, hg, hday⟩ := any_eq_true.mp hany
    have hday : g.day = e.timestamp / nanosPerDay := by simpa using hday
    simp only [mem_flatMap, mem_map]
    constructor
    · rintro ⟨-, ⟨f, hf, rfl⟩, hb⟩
      split at hb
      · rcases mem_append.mp hb with hb | hb
        · exact .inl ⟨f, hf, hb⟩
        · exact .inr (mem_singleton.mp hb)
      · exact .inl ⟨f, hf, hb⟩
    · rintro (⟨f, hf, hb⟩ | rfl)
      · refine ⟨_, ⟨f, hf, rfl⟩, ?_⟩
        split
        · exact mem_append_left _ hb
        · exact hb
      · exact ⟨_, ⟨g, hg, rfl⟩, by simp [hday]⟩
  · simp

theorem append_cases (F : FlatFileConfig D) (s : FlatFileStore D) (now : ℤ) (t : String)
    (e : AuditEntry D) :
    (∃ err, F.appendChainedEntry s now t e = (s, .error err)) ∨
      (∃ err, F.appendChainedEntry s now t e =
        ({ s with chainHeads := update s.chainHeads t none }, .error err)) ∨
      ∃ dir a, F.auditDir t = some dir ∧ F.appendChainedEntry s now t e =
          ({ files := update s.files dir (appendLine (s.files dir) a)
             chainHeads := update s.chainHeads t (some a.head) }, .ok a) ∧
        a.tenantID = t ∧ a.sequenceNumber = (F.head s t dir).sequenceNumber + 1 := by
  unfold appendChainedEntry
  split
  · exact .inl ⟨_, rfl⟩
  dsimp only
  split
  · exact .inl ⟨_, rfl⟩
  split
  · exact .inl ⟨_, rfl⟩
  next dir hdir =>
  split
  · exact .inr (.inl ⟨_, rfl⟩)
  · exact .inr (.inr ⟨dir, _, hdir, rfl, rfl, rfl⟩)

/-- The files and the cached head of each tenant bound what the tenant was given. -/
structure Bounds (F : FlatFileConfig D) (s : FlatFileStore D) (m : String → ℕ) : Prop where
  files : ∀ t dir, F.auditDir t = some dir → m t ≤ top (s.files dir)
  cached : ∀ t dir h, F.auditDir t = some dir → s.chainHeads t = some h → m t ≤ h.sequenceNumber

/-- An append without a cached head can read the highest number back, and an archive or purge
leaves the file with the highest number of each tenant. -/
def HeadKept (F : FlatFileConfig D) (s : FlatFileStore D) : StoreCall D → Prop
  | .append _ t _ => s.chainHeads t = none →
      ∀ dir, F.auditDir t = some dir → F.readTop (s.files dir) = top (s.files dir)
  | .archive beforeDate | .purge beforeDate =>
      ∀ t dir, F.auditDir t = some dir →
        top (remaining (s.files dir) beforeDate) = top (s.files dir)
  | .restart => True

variable {s : FlatFileStore D} {m : String → ℕ} {t dir : String}

section

variable (h : F.Bounds s m)
include h

theorem Bounds.le_head (hdir : F.auditDir t = some dir)
    (hread : s.chainHeads t = none → F.readTop (s.files dir) = top (s.files dir)) :
    m t ≤ (F.head s t dir).sequenceNumber := by
  unfold head
  cases hh : s.chainHeads t with
  | none =>
    have hle := h.files t dir hdir
    rw [← hread hh] at hle
    exact hle
  | some b => exact h.cached t dir b hdir hh

theorem Bounds.forget (t : String) :
    F.Bounds { s with chainHeads := update s.chainHeads t none } m where
  files := h.files
  cached t' dir b hdir hb := by
    by_cases ht : t' = t
    · simp [ht] at hb
    · exact h.cached t' dir b hdir (by simpa [ht] using hb)

theorem Bounds.append {a : AuditEntry D} (hdir : F.auditDir a.tenantID = some dir) :
    F.Bounds { files := update s.files dir (appendLine (s.files dir) a)
               chainHeads := update s.chainHeads a.tenantID (some a.head) }
      (update m a.tenantID a.sequenceNumber) where
  files t dir' hdir' := by
    have hgrow : top (s.files dir') ≤
        top (update s.files dir (appendLine (s.files dir) a) dir') := by
      by_cases hd : dir' = dir
      · subst hd
        rw [update_self]
        exact chainHead_le_iff.mpr fun b hb =>
          le_chainHead (mem_written_appendLine.mpr (.inl hb))
      · simp [hd]
    by_cases ht : t = a.tenantID
    · subst ht
      cases hdir.symm.trans hdir'
      have hle : a.sequenceNumber ≤ top (appendLine (s.files dir) a) :=
        le_chainHead (mem_written_appendLine.mpr (.inr rfl))
      simpa using hle
    · simpa [ht] using (h.files t dir' hdir').trans hgrow
  cached t dir' b hdir' hb := by
    by_cases ht : t = a.tenantID
    · obtain rfl : a.head = b := by simpa [ht] using hb
      simp [ht, AuditEntry.head]
    · simpa [ht] using h.cached t dir' b hdir' (by simpa [ht] using hb)

theorem Bounds.removeFiles {beforeDate : ℤ} (htop : ∀ t dir, F.auditDir t = some dir →
      top (remaining (s.files dir) beforeDate) = top (s.files dir)) :
    F.Bounds (removeFiles s beforeDate) m where
  files t dir hdir := (h.files t dir hdir).trans_eq (htop t dir hdir).symm
  cached _ _ _ _ hb := by cases hb

end

theorem authority : F.store.Authority F.HeadKept F.Bounds := by
  intro s m c hI hC
  cases c with
  | append now t e =>
    simp only [AuditStore.call, store]
    rcases append_cases F s now t e with ⟨err, h⟩ | ⟨err, h⟩ | ⟨dir, a, hdir, h, rfl, hseq⟩
    · simpa [h, Except.toOption] using hI
    · simpa [h, Except.toOption] using hI.forget t
    simp only [h, Except.toOption, Option.elim_some]
    have hle := hI.le_head hdir fun hh => hC hh dir hdir
    exact ⟨hseq ▸ Nat.lt_succ_of_le hle, hI.append hdir⟩
  | archive | purge => exact hI.removeFiles hC
  | restart => exact ⟨hI.files, fun _ _ _ _ hb => by cases hb⟩

theorem append_removeFiles {s' : FlatFileStore D} {beforeDate now : ℤ} {e a : AuditEntry D}
    (h : F.appendChainedEntry (removeFiles s beforeDate) now t e = (s', .ok a)) :
    ∃ dir, F.auditDir t = some dir ∧
      a.sequenceNumber = F.readTop (remaining (s.files dir) beforeDate) + 1 := by
  rcases append_cases F (removeFiles s beforeDate) now t e with
    ⟨err, h'⟩ | ⟨err, h'⟩ | ⟨dir, b, hdir, h', -, hseq⟩
  · cases h.symm.trans h'
  · cases h.symm.trans h'
  · obtain ⟨-, hab⟩ := Prod.mk.inj (h.symm.trans h')
    cases hab
    exact ⟨dir, hdir, hseq⟩

end FlatFileConfig

namespace FlatFileConfig

def oneTenant : FlatFileConfig Unit where
  maxRetentionDays := 90
  computeChecksum _ := ""
  auditDir t := if t = "acme" then some "acme" else none
  jsonLength _ := some 400

def changeOn (id : String) (day : ℤ) : AuditEntry Unit :=
  { id, tenantID := "acme", timestamp := day * nanosPerDay, userID := "u1", action := "update",
    resourceType := "config", resourceID := "c1" }

def recordOn (id : String) (day : ℤ) : LifeAction Unit :=
  .call (.append (day * nanosPerDay) "acme" (changeOn id day))

/-- The shipment of an entry that meets no fault. -/
def shipped (n : ℕ) : List (LifeAction Unit) :=
  [.ship n .create .answered, .ship n .upload .answered]

def keepNewest : List (LifeAction Unit) :=
  [recordOn "e1" 20000, recordOn "e2" 20001] ++ shipped 0 ++
    [.call (.purge (20001 * nanosPerDay)), .call .restart, recordOn "e3" 20001] ++ shipped 2

theorem keepNewest_headKept :
    oneTenant.store.lifetime.Along (AuditStore.OnCalls oneTenant.HeadKept) (.start .empty)
      keepNewest := by
  have hdir : ∀ {t dir : String}, oneTenant.auditDir t = some dir → dir = "acme" := by
    intro t dir h
    simp only [oneTenant] at h
    split at h
    · exact (Option.some.inj h).symm
    · cases h
  refine ⟨?_, ?_, trivial, trivial, ?_, trivial, ?_, trivial, trivial, trivial⟩
  all_goals
    intro _ dir h
    obtain rfl := hdir h
    decide +kernel

end FlatFileConfig

/-- The first entry makes a line that does not fit into the buffer of the scanner. -/
def FlatFileConfig.longFirst : FlatFileConfig Unit :=
  { FlatFileConfig.oneTenant with
    jsonLength := fun e => some (if e.id = "e1" then maxLine else 400) }

end Cfgms.Audit
