import Cfgms.Lease.Manager

/-! # Fencing tokens

Calls reach the lease store in some order, each with its own reading of the store's
clock. Along every such history a fresh grant carries a larger token than anything
answered before, so the terms of two holders are ordered like their grants.
-/

namespace Cfgms.Lease

open Function

inductive Call where
  | acquireOrRenew (now ttl : ℤ) (name holderID : String)
  | release (name holderID : String) (token : ℕ)
  | getLease (now : ℤ) (name : String)

abbrev Reply := Except String (Option LeaseState)

def leaseStore : Transducer LeaseTable Call Reply where
  step t
    | .acquireOrRenew now ttl name holderID =>
      let (t', reply) := acquireOrRenew now ttl t name holderID
      (t', reply.map some)
    | .release name holderID token => (release t name holderID token, .ok none)
    | .getLease now name => (t, (getLease now t name).map some)

def emptyTable : LeaseTable := fun _ => none

def Returned (replies : List Reply) (s : LeaseState) : Prop := .ok (some s) ∈ replies

/-- The holder has the lease and it has not expired at the store. -/
def CurrentHolder (t : LeaseTable) (name holderID : String) (now : ℤ) : Prop :=
  ∃ r, t name = some r ∧ r.Renews holderID now

/-- Rows have names and holders, and no answer is ahead of the row it came from. -/
structure Ledger (t : LeaseTable) (replies : List Reply) : Prop where
  named : ∀ name r, t name = some r → name ≠ "" ∧ r.holderID ≠ ""
  behind : ∀ s, Returned replies s → ∃ r, t s.name = some r ∧ s.token ≤ r.token ∧
    (s.acquired = true → s.token = r.token → s.holderID = r.holderID)

variable {replies : List Reply} {reply : Reply}

theorem returned_concat {s : LeaseState} :
    Returned (replies ++ [reply]) s ↔ Returned replies s ∨ .ok (some s) = reply := by
  simp [Returned]

theorem Ledger.update {t : LeaseTable} (h : Ledger t replies)
    {name : String} {row : LeaseRow} (hn : name ≠ "") (hh : row.holderID ≠ "")
    (hle : ∀ r, t name = some r → r.token < row.token ∨
      r.token = row.token ∧ r.holderID = row.holderID) :
    Ledger (update t name (some row)) replies := by
  refine ⟨fun other r hr => ?_, fun s hs => ?_⟩
  · by_cases ho : other = name
    · subst ho
      obtain rfl : row = r := by simpa using hr
      exact ⟨hn, hh⟩
    · exact h.named other r (by simpa [ho] using hr)
  · obtain ⟨r, hr, htok, hhold⟩ := h.behind s hs
    by_cases ho : s.name = name
    · refine ⟨row, by simp [ho], ?_⟩
      rcases hle r (ho ▸ hr) with hlt | ⟨heq, hsame⟩
      · exact ⟨by omega, fun _ he => absurd he (by omega)⟩
      · exact ⟨by omega, fun ha he => (hhold ha (by omega)).trans hsame⟩
    · exact ⟨r, by simpa [ho] using hr, htok, hhold⟩

variable {r : LeaseRow}

theorem Ledger.answer {t : LeaseTable} (h : Ledger t replies)
    {name : String} (hr : t name = some r) (now : ℤ) (acquired : Bool) :
    Ledger t (replies ++ [.ok (some (r.toState name now acquired))]) := by
  refine ⟨h.named, fun s hs => ?_⟩
  rcases returned_concat.mp hs with hs | hs
  · exact h.behind s hs
  · obtain rfl : s = r.toState name now acquired := by simpa using hs
    exact ⟨r, hr, le_rfl, fun _ _ => rfl⟩

theorem Ledger.silent {t : LeaseTable} (h : Ledger t replies) (hreply : ∀ s, .ok (some s) ≠ reply) :
    Ledger t (replies ++ [reply]) := by
  refine ⟨h.named, fun s hs => ?_⟩
  rcases returned_concat.mp hs with hs | hs
  · exact h.behind s hs
  · exact absurd hs (hreply s)

theorem Ledger.getLease {t : LeaseTable} (h : Ledger t replies)
    (now : ℤ) (name : String) :
    Ledger t (replies ++ [(Lease.getLease now t name).map some]) := by
  unfold Lease.getLease
  cases hr : t name with
  | none => exact h.silent (by simp [Except.map])
  | some r => exact h.answer hr now false

theorem Ledger.release {t : LeaseTable} (h : Ledger t replies)
    (name holderID : String) (token : ℕ) :
    Ledger (Lease.release t name holderID token) (replies ++ [.ok none]) := by
  rcases release_eq t name holderID token with he | ⟨r, hr, -, -, he⟩
  · rw [he]
    exact h.silent (by simp)
  rw [he]
  have hw := h.named name r hr
  let row : LeaseRow := { r with expiresAt := 0 }
  have hrow : Ledger (Function.update t name (some row)) replies := by
    refine h.update hw.1 hw.2 fun r' hr' => .inr ?_
    cases hr.symm.trans hr'
    exact ⟨rfl, rfl⟩
  exact hrow.silent (by simp)

theorem acquireOrRenew_named {now ttl : ℤ} {t : LeaseTable} {name holderID : String}
    {s : LeaseState} (h : (acquireOrRenew now ttl t name holderID).2 = .ok s) :
    name ≠ "" ∧ holderID ≠ "" := by
  constructor
  · rintro rfl
    simp [acquireOrRenew] at h
  · rintro rfl
    unfold acquireOrRenew at h
    split at h <;> simp at h

theorem Ledger.acquireOrRenew {t : LeaseTable} (h : Ledger t replies)
    (now ttl : ℤ) (name holderID : String) :
    Ledger (Lease.acquireOrRenew now ttl t name holderID).1
      (replies ++ [(Lease.acquireOrRenew now ttl t name holderID).2.map some]) := by
  have hout := acquireOrRenew_outcome now ttl t name holderID
  have hnamed := fun s => @acquireOrRenew_named now ttl t name holderID s
  generalize Lease.acquireOrRenew now ttl t name holderID = p at hout hnamed
  obtain ⟨t', reply⟩ := p
  -- a grant moves the row forward or, when it renews, leaves holder and token alone
  cases hout with
  | refused e => exact h.silent (by simp [Except.map])
  | created row ht hh htok hexp =>
    have hw := hnamed _ rfl
    refine Ledger.answer (h.update hw.1 (hh ▸ hw.2) fun r hr => ?_) (by simp) now true
    rw [ht] at hr
    cases hr
  | renewed r row ht hr hh htok hexp =>
    have hw := hnamed _ rfl
    refine Ledger.answer (h.update hw.1 (hh ▸ hw.2) fun r' hr' => .inr ?_) (by simp) now true
    cases ht.symm.trans hr'
    exact ⟨htok.symm, hr.1.trans hh.symm⟩
  | claimed r row ht hlt hh htok hexp =>
    have hw := hnamed _ rfl
    refine Ledger.answer (h.update hw.1 (hh ▸ hw.2) fun r' hr' => .inl ?_) (by simp) now true
    cases ht.symm.trans hr'
    omega
  | contended r ht hne hle => exact h.answer ht now false

theorem ledger_history (calls : List Call) :
    Ledger (leaseStore.final emptyTable calls) (leaseStore.outputs emptyTable calls) := by
  refine leaseStore.history_invariant (fun t replies c h => ?_)
    ⟨by simp [emptyTable], by simp [Returned]⟩ calls
  cases c with
  | acquireOrRenew now ttl name holderID => exact h.acquireOrRenew now ttl name holderID
  | release name holderID token => exact h.release name holderID token
  | getLease now name => exact h.getLease now name

/-- The stored tokens fence, seen from a table and the answers given so far. -/
structure Fenced (t : LeaseTable) (replies : List Reply) : Prop where
  stored_mono : ∀ c name r, t name = some r →
    ∃ r', (leaseStore.step t c).1 name = some r' ∧ r.token ≤ r'.token
  /-- A grant to anyone but the current holder exceeds every token answered before. -/
  fresh_gt : ∀ now ttl name holderID s, (acquireOrRenew now ttl t name holderID).2 = .ok s →
    s.acquired = true → ¬ CurrentHolder t name holderID now →
    ∀ s₀, Returned replies s₀ → s₀.name = name → s₀.token < s.token
  /-- The current holder is granted the lease again, with the stored token. -/
  renew_same : ∀ now ttl name holderID r, t name = some r → r.Renews holderID now →
    ∃ s, (acquireOrRenew now ttl t name holderID).2 = .ok s ∧ s.acquired = true ∧
      s.holderID = holderID ∧ s.token = r.token
  /-- A later grant to a different holder has the larger token. -/
  holders_lt : ∀ now ttl name holderID s, (acquireOrRenew now ttl t name holderID).2 = .ok s →
    s.acquired = true → ∀ s₀, Returned replies s₀ → s₀.name = name → s₀.acquired = true →
    s₀.holderID ≠ s.holderID → s₀.token < s.token
  /-- So has the later holder's term, at any two instants of the two managers. -/
  terms_lt : ∀ now ttl holderID s,
    (acquireOrRenew now ttl t clusterLeadershipLeaseName holderID).2 = .ok s →
    s.acquired = true → ∀ s₀, Returned replies s₀ → s₀.name = clusterLeadershipLeaseName →
    s₀.acquired = true → s₀.holderID ≠ s.holderID →
    ∀ (m₀ m : Manager) (start₀ start now₀ now₁ : ℤ) (token : ℕ),
      (m.recordLocalAuthority clusterLeadershipLeaseName s.holderID s.token
        start).hasLocalAuthority now₁ clusterLeadershipLeaseName s.holderID = some token →
      getTerm (some (m₀.recordLocalAuthority clusterLeadershipLeaseName s₀.holderID s₀.token
        start₀)) s₀.holderID now₀ <
      getTerm (some (m.recordLocalAuthority clusterLeadershipLeaseName s.holderID s.token
        start)) s.holderID now₁

section

variable {t : LeaseTable} {replies : List Reply} {now ttl : ℤ} {name holderID : String}
  {s s₀ : LeaseState}

theorem step_token_le (c : Call) (hr : t name = some r) :
    ∃ r', (leaseStore.step t c).1 name = some r' ∧ r.token ≤ r'.token := by
  have hsame : ∃ r', t name = some r' ∧ r.token ≤ r'.token := ⟨r, hr, le_rfl⟩
  have hupdate (other : String) (row : LeaseRow)
      (hrow : ∀ r₁, t other = some r₁ → r₁.token ≤ row.token) :
      ∃ r', update t other (some row) name = some r' ∧ r.token ≤ r'.token := by
    by_cases ho : name = other
    · subst ho
      exact ⟨row, update_self .., hrow r hr⟩
    · rwa [update_of_ne ho]
  cases c with
  | getLease now other => exact hsame
  | release other holderID token =>
    change ∃ r', release t other holderID token name = some r' ∧ r.token ≤ r'.token
    rcases release_eq t other holderID token with he | ⟨r₁, hr₁, -, -, he⟩
    · rwa [he]
    · rw [he]
      exact hupdate other _ (by simp [hr₁])
  | acquireOrRenew now ttl other holderID =>
    change ∃ r', (acquireOrRenew now ttl t other holderID).1 name = some r' ∧ r.token ≤ r'.token
    have hout := acquireOrRenew_outcome now ttl t other holderID
    generalize acquireOrRenew now ttl t other holderID = p at hout ⊢
    obtain ⟨t', reply⟩ := p
    cases hout with
    | refused e | contended r₁ ht => exact hsame
    | created row ht => exact hupdate other row (by simp [ht])
    | renewed r₁ row ht _ _ htok | claimed r₁ row ht _ _ htok =>
      exact hupdate other row (by simp [ht, htok])

theorem grant_cases (h : (acquireOrRenew now ttl t name holderID).2 = .ok s)
    (ha : s.acquired = true) :
    s.name = name ∧ s.holderID = holderID ∧ s.token ≤ maxToken ∧
      ((∃ r, t name = some r ∧ r.Renews holderID now ∧ s.token = r.token) ∨
        ¬ CurrentHolder t name holderID now ∧ ∀ r, t name = some r → r.token < s.token) := by
  have hout := acquireOrRenew_outcome now ttl t name holderID
  rw [h] at hout
  generalize (acquireOrRenew now ttl t name holderID).1 = t' at hout
  cases hout with
  | created row ht hh htok hexp =>
    refine ⟨rfl, hh, row.token_le, .inr ⟨?_, by simp [ht]⟩⟩
    rintro ⟨r, hr, -⟩
    rw [ht] at hr
    cases hr
  | renewed r row ht hr hh htok hexp =>
    exact ⟨rfl, hh, row.token_le, .inl ⟨r, ht, hr, htok⟩⟩
  | claimed r row ht hlt hh htok hexp =>
    refine ⟨rfl, hh, row.token_le, .inr ⟨?_, fun r' hr' => ?_⟩⟩
    · rintro ⟨r', hr', hren⟩
      cases ht.symm.trans hr'
      exact absurd hren.2 (by omega)
    · cases ht.symm.trans hr'
      change r.token < row.token
      omega
  | contended r ht hne hle => exact absurd ha (by simp [LeaseRow.toState])

theorem Ledger.fresh_gt (h : Ledger t replies)
    (hs : (Lease.acquireOrRenew now ttl t name holderID).2 = .ok s) (ha : s.acquired = true)
    (hnot : ¬ CurrentHolder t name holderID now) (hret : Returned replies s₀)
    (hn : s₀.name = name) : s₀.token < s.token := by
  obtain ⟨-, -, -, ⟨r, hr, hren, -⟩ | ⟨-, hlt⟩⟩ := grant_cases hs ha
  · exact absurd ⟨r, hr, hren⟩ hnot
  · obtain ⟨r, hr, hle, -⟩ := h.behind s₀ hret
    exact hle.trans_lt (hlt r (hn ▸ hr))

theorem Ledger.holders_lt (h : Ledger t replies)
    (hs : (Lease.acquireOrRenew now ttl t name holderID).2 = .ok s) (ha : s.acquired = true)
    (hret : Returned replies s₀) (hn : s₀.name = name) (ha₀ : s₀.acquired = true)
    (hne : s₀.holderID ≠ s.holderID) : s₀.token < s.token := by
  obtain ⟨-, hhold, -, ⟨r, hr, hren, htok⟩ | ⟨hnot, -⟩⟩ := grant_cases hs ha
  · -- the row is the later holder's, so the earlier grant is strictly behind it
    obtain ⟨r', hr', hle, hsame⟩ := h.behind s₀ hret
    cases hr.symm.trans (hn ▸ hr')
    rw [htok]
    refine lt_of_le_of_ne hle fun he => hne ?_
    rw [hsame ha₀ he, hren.1, hhold]
  · exact h.fresh_gt hs ha hnot hret hn

end

/-- Along every history of calls, from an empty table on, tokens fence. -/
theorem leaseStore_fenced (calls : List Call) :
    Fenced (leaseStore.final emptyTable calls) (leaseStore.outputs emptyTable calls) where
  stored_mono c _ _ hr := step_token_le c hr
  fresh_gt _ _ _ _ _ hs ha hnot _ hret hn := (ledger_history calls).fresh_gt hs ha hnot hret hn
  renew_same now ttl name holderID r hr hren := by
    have hw := (ledger_history calls).named name r hr
    have hc : r.Claimable holderID now := .inr hren.1
    refine ⟨⟨name, holderID, r.token, now + ttl, decide (now < now + ttl), true⟩, ?_, rfl, rfl, rfl⟩
    simp [acquireOrRenew, hw.1, hren.1 ▸ hw.2, hr, hc, hren, r.token_le, LeaseRow.toState]
  holders_lt _ _ _ _ _ hs ha _ hret hn ha₀ hne :=
    (ledger_history calls).holders_lt hs ha hret hn ha₀ hne
  terms_lt _ _ _ s hs ha s₀ hret hn ha₀ hne m₀ m start₀ start now₀ now₁ token hauth := by
    have hlt := (ledger_history calls).holders_lt hs ha hret hn ha₀ hne
    have hmax := (grant_cases hs ha).2.2.1
    obtain ⟨c, hc, -, -, rfl⟩ := Manager.hasLocalAuthority_eq_some.mp hauth
    obtain rfl : c = ⟨s.holderID, s.token, start⟩ := by
      simpa using hc.symm
    rw [getTerm_of_hasLocalAuthority hauth hmax]
    have hle := getTerm_le (m₀.recordLocalAuthority clusterLeadershipLeaseName s₀.holderID
      s₀.token start₀) s₀.holderID now₀ (Manager.recordLocalAuthority_cached_self ..)
    exact hle.trans_lt (Nat.add_lt_add_left hlt _)

end Cfgms.Lease
