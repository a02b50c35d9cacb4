import Cfgms.Lease.Manager

/-! # Managers sharing a store

Every node runs one manager under its own holder identity. A call is issued, takes
effect at the store and returns in separate steps, and a node may have any number of
calls in flight. Node and store clocks differ by fixed offsets from one real time.
-/

namespace Cfgms.Lease

open Function

variable {ι : Type*}

structure Cluster (ι : Type*) where
  holderID : ι → String
  config : ι → ManagerConfig
  clockOffset : ι → ℤ
  storeOffset : ℤ
  holderID_injective : Injective holderID
  renewalInterval_pos : ∀ i, 0 < (config i).renewalInterval.toInt
  maxAllowedRenewalLatency_pos : ∀ i, 0 < (config i).maxAllowedRenewalLatency.toInt

/-- The two operations that end in a call of `AcquireOrRenew`. -/
inductive AcquireOp where
  | tryAcquire
  | renew (token : ℕ)

/-- A call of `AcquireOrRenew` in flight, with the store's answer once it took effect. -/
structure AcquireCall (ι : Type*) where
  node : ι
  name : String
  op : AcquireOp
  callStart : ℤ
  reply : Option (Except String LeaseState)

structure ReleaseCall (ι : Type*) where
  node : ι
  name : String
  token : ℕ
  applied : Bool

structure ClusterState (ι : Type*) where
  now : ℤ
  table : LeaseTable
  managers : ι → Manager
  acquires : ℕ → Option (AcquireCall ι)
  releases : ℕ → Option (ReleaseCall ι)

/-- Issued calls carry the key under which they are in flight. -/
inductive ClusterAction (ι : Type*) where
  | tick (d : ℕ)
  | tryAcquire (k : ℕ) (i : ι) (name : String) (ttl : Int64)
  | renew (k : ℕ) (i : ι) (name : String) (token : ℕ)
  | release (k : ℕ) (i : ι) (name : String) (token : ℕ)
  | acquireEffect (k : ℕ)
  | acquireReturn (k : ℕ)
  | acquireFail (k : ℕ)
  | releaseEffect (k : ℕ)
  | releaseReturn (k : ℕ)

namespace AcquireCall

def finish (c : AcquireCall ι) (holderID : String) (m : Manager)
    (reply : Except String LeaseState) : Manager :=
  match c.op with
  | .tryAcquire => (m.tryAcquireReply c.name holderID c.callStart reply).1
  | .renew token => (m.renewReply c.name holderID token c.callStart reply).1

/-- The answer is one that the manager records as authority. -/
def Grants (c : AcquireCall ι) (s : LeaseState) : Prop :=
  s.acquired = true ∧ ∀ token, c.op = .renew token → s.token = token

theorem finish_config (c : AcquireCall ι) (holderID : String) (m : Manager)
    (reply : Except String LeaseState) :
    (c.finish holderID m reply).toManagerConfig = m.toManagerConfig := by
  unfold finish
  cases c.op with
  | tryAcquire =>
    unfold Manager.tryAcquireReply
    cases reply with
    | error e => rfl
    | ok s => by_cases hs : s.acquired = false <;> simp [hs]
  | renew token =>
    unfold Manager.renewReply
    cases reply with
    | error e => rfl
    | ok s =>
      by_cases hs : s.acquired = false <;> by_cases ht : s.token = token <;> simp [hs, ht]

/-- What is cached after a return was cached before or is the grant just returned. -/
theorem cached_of_finish {c : AcquireCall ι} {holderID other : String} {m : Manager}
    {reply : Except String LeaseState} {a : CachedAuthority}
    (h : (c.finish holderID m reply).cached other = some a) :
    m.cached other = some a ∨ ∃ s, reply = .ok s ∧ c.Grants s ∧ other = c.name ∧
      a.holderID = holderID ∧ a.acquiredOrRenewedAt = c.callStart := by
  have record : ∀ token, (m.recordLocalAuthority c.name holderID token c.callStart).cached other =
      some a → m.cached other = some a ∨
        other = c.name ∧ a.holderID = holderID ∧ a.acquiredOrRenewedAt = c.callStart := by
    intro token ha
    by_cases ho : other = c.name
    · subst ho
      cases (Manager.recordLocalAuthority_cached_self ..).symm.trans ha
      exact .inr ⟨rfl, rfl, rfl⟩
    · exact .inl ((Function.update_of_ne ho ..).symm.trans ha)
  cases reply with
  | error e =>
    left
    unfold finish at h
    split at h <;> exact h
  | ok s =>
    unfold finish at h
    split at h
    · rename_i hop
      simp only [Manager.tryAcquireReply] at h
      split at h
      · exact .inl (Manager.cached_of_invalidateLocalAuthority h)
      · next hs =>
        exact (record _ h).imp_right fun hr => ⟨s, rfl, ⟨by simpa using hs, by simp [hop]⟩, hr⟩
    · rename_i token hop
      simp only [Manager.renewReply] at h
      split_ifs at h with hs ht
      · exact .inl (Manager.cached_of_invalidateLocalAuthority h)
      · exact .inl (Manager.cached_of_invalidateLocalAuthority h)
      refine (record _ h).imp_right fun hr => ⟨s, rfl, ⟨by simpa using hs, ?_⟩, hr⟩
      rw [hop]
      rintro _ ⟨⟩
      exact not_not.mp ht

end AcquireCall

namespace Cluster

variable (K : Cluster ι)

def clock (s : ClusterState ι) (i : ι) : ℤ := s.now + K.clockOffset i

def storeClock (s : ClusterState ι) : ℤ := s.now + K.storeOffset

def issue (s : ClusterState ι) (k : ℕ) (i : ι) (name : String) (op : AcquireOp) :
    Option (ClusterState ι) :=
  match s.acquires k with
  | some _ => none
  | none => some { s with
      acquires := update s.acquires k (some ⟨i, name, op, K.clock s i, none⟩) }

variable [DecidableEq ι]

def step (s : ClusterState ι) : ClusterAction ι → Option (ClusterState ι)
  | .tick d => some { s with now := s.now + d }
  | .tryAcquire k i name ttl =>
    match (s.managers i).checkTTL ttl with
    | .error _ => some s
    | .ok () => K.issue s k i name .tryAcquire
  | .renew k i name token => K.issue s k i name (.renew token)
  | .release k i name token =>
    match s.releases k with
    | some _ => none
    | none => some { s with
        managers := update s.managers i
          ((s.managers i).invalidateLocalAuthority name (K.holderID i))
        releases := update s.releases k (some ⟨i, name, token, false⟩) }
  | .acquireEffect k =>
    match s.acquires k with
    | some ⟨i, name, op, callStart, none⟩ =>
      let (table, reply) := acquireOrRenew (K.storeClock s)
        (s.managers i).leaseTTL.toInt s.table name (K.holderID i)
      some { s with
        table := table
        acquires := update s.acquires k (some ⟨i, name, op, callStart, some reply⟩) }
    | _ => none
  | .acquireReturn k =>
    match s.acquires k with
    | some ⟨i, name, op, callStart, some reply⟩ => some { s with
        managers := update s.managers i
          (AcquireCall.finish ⟨i, name, op, callStart, some reply⟩ (K.holderID i)
            (s.managers i) reply)
        acquires := update s.acquires k none }
    | _ => none
  | .acquireFail k =>
    -- an error comes back, whether or not the call had its effect
    match s.acquires k with
    | some _ => some { s with acquires := update s.acquires k none }
    | none => none
  | .releaseEffect k =>
    match s.releases k with
    | some ⟨i, name, token, false⟩ => some { s with
        table := release s.table name (K.holderID i) token
        releases := update s.releases k (some ⟨i, name, token, true⟩) }
    | _ => none
  | .releaseReturn k =>
    match s.releases k with
    | some _ => some { s with releases := update s.releases k none }
    | none => none

def machine : Machine (ClusterState ι) (ClusterAction ι) := ⟨K.step⟩

/-- All managers have just been built; the table may hold rows from before. -/
def Initial (s : ClusterState ι) : Prop :=
  (∀ i, s.managers i = newManager (K.config i)) ∧ (∀ k, s.acquires k = none) ∧
    ∀ k, s.releases k = none

/-- The answer of `HasLocalAuthority` on a node at this instant. -/
def hasLocalAuthority (s : ClusterState ι) (i : ι) (name holderID : String) : Option ℕ :=
  (s.managers i).hasLocalAuthority (K.clock s i) name holderID

end Cluster

end Cfgms.Lease
