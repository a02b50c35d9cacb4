import Cfgms.Go.Duration
import Cfgms.Lease.Store

/-! # The lease manager

A manager caches each granted lease with the reading of its own clock from before the
store call. The cache is trusted for the safety margin, which is derived from the lease
TTL in 64-bit arithmetic.
-/

namespace Cfgms.Lease

open Go Function

def durationString (d : Int64) : String := String.ofList (durationText d.toInt)

def safetyMargin (leaseTTL renewalInterval maxAllowedRenewalLatency : Int64) :
    Except String Int64 :=
  let margin := leaseTTL - renewalInterval - maxAllowedRenewalLatency
  if margin ≤ 0 then
    .error ("lease: derived safety margin must be strictly positive: leaseTTL(" ++
      durationString leaseTTL ++ ") - renewalInterval(" ++ durationString renewalInterval ++
      ") - maxAllowedRenewalLatency(" ++ durationString maxAllowedRenewalLatency ++ ") = " ++
      durationString margin)
  else .ok margin

/-- The parameters of a manager whose construction succeeded. -/
structure ManagerConfig where
  leaseTTL : Int64
  renewalInterval : Int64
  maxAllowedRenewalLatency : Int64
  margin : Int64
  margin_eq : safetyMargin leaseTTL renewalInterval maxAllowedRenewalLatency = .ok margin

structure CachedAuthority where
  holderID : String
  token : ℕ
  acquiredOrRenewedAt : ℤ
  deriving DecidableEq

structure Manager extends ManagerConfig where
  cached : String → Option CachedAuthority

def newManager (c : ManagerConfig) : Manager := { c with cached := fun _ => none }

/-- The Go subtraction did not wrap, so the margin is what its name says. -/
def ManagerConfig.Exact (c : ManagerConfig) : Prop :=
  c.margin.toInt =
    c.leaseTTL.toInt - c.renewalInterval.toInt - c.maxAllowedRenewalLatency.toInt

namespace Manager

def invalidateLocalAuthority (m : Manager) (name holderID : String) : Manager :=
  match m.cached name with
  | none => m
  | some c =>
    if c.holderID = holderID then { m with cached := update m.cached name none } else m

def recordLocalAuthority (m : Manager) (name holderID : String) (token : ℕ) (callStart : ℤ) :
    Manager :=
  { m with cached := update m.cached name (some ⟨holderID, token, callStart⟩) }

/-- The cached token, when the window opened at the call start is still open. -/
def hasLocalAuthority (m : Manager) (now : ℤ) (name holderID : String) : Option ℕ :=
  match m.cached name with
  | none => none
  | some c =>
    if c.holderID ≠ holderID then none
    else if m.margin.toInt ≤ now - c.acquiredOrRenewedAt then none
    else some c.token

/-- The check of `TryAcquire` before it reaches the store. -/
def checkTTL (m : Manager) (ttl : Int64) : Except String Unit :=
  if ttl ≠ m.leaseTTL then
    .error ("lease: ttl " ++ durationString ttl ++
      " does not match this Manager's configured lease TTL " ++ durationString m.leaseTTL ++
      "; the derived safety margin is not valid for any other TTL")
  else .ok ()

/-- The rest of `TryAcquire` once the store has answered. -/
def tryAcquireReply (m : Manager) (name holderID : String) (callStart : ℤ) :
    Except String LeaseState → Manager × Except String (ℕ × Bool)
  | .error e => (m, .error e)
  | .ok state =>
    if state.acquired = false then
      (m.invalidateLocalAuthority name holderID, .ok (state.token, false))
    else (m.recordLocalAuthority name holderID state.token callStart, .ok (state.token, true))

/-- The rest of `Renew` once the store has answered. -/
def renewReply (m : Manager) (name holderID : String) (token : ℕ) (callStart : ℤ) :
    Except String LeaseState → Manager × Except String ℕ
  | .error e => (m, .error e)
  | .ok state =>
    if state.acquired = false then
      (m.invalidateLocalAuthority name holderID,
        .error ("lease: " ++ name.quote ++ " is held by a different holder (" ++
          state.holderID ++ "); " ++ holderID ++ " is fenced out"))
    else if state.token ≠ token then
      (m.invalidateLocalAuthority name holderID,
        .error ("lease: " ++ name.quote ++ " was re-acquired with a new token (" ++
          toString state.token ++ ") before this renewal; holder " ++ holderID ++
          "'s token " ++ toString token ++ " is fenced out"))
    else (m.recordLocalAuthority name holderID token callStart, .ok token)

variable {m : Manager} {name holderID : String}

theorem hasLocalAuthority_eq_some {now : ℤ} {token : ℕ} :
    m.hasLocalAuthority now name holderID = some token ↔
      ∃ c, m.cached name = some c ∧ c.holderID = holderID ∧
        now - c.acquiredOrRenewedAt < m.margin.toInt ∧ c.token = token := by
  unfold hasLocalAuthority
  cases hc : m.cached name with
  | none => simp
  | some c =>
    by_cases hh : c.holderID = holderID
    · by_cases hm : m.margin.toInt ≤ now - c.acquiredOrRenewedAt
      · simp [hh, hm]
      · simp [hh, hm]
        omega
    · simp [hh]

@[simp] theorem invalidateLocalAuthority_config (m : Manager) (name holderID : String) :
    (m.invalidateLocalAuthority name holderID).toManagerConfig = m.toManagerConfig := by
  unfold invalidateLocalAuthority
  split
  · rfl
  · split <;> rfl

@[simp] theorem recordLocalAuthority_config (m : Manager) (name holderID : String) (token : ℕ)
    (callStart : ℤ) :
    (m.recordLocalAuthority name holderID token callStart).toManagerConfig = m.toManagerConfig :=
  rfl

@[simp] theorem recordLocalAuthority_cached_self (m : Manager) (name holderID : String)
    (token : ℕ) (callStart : ℤ) :
    (m.recordLocalAuthority name holderID token callStart).cached name =
      some ⟨holderID, token, callStart⟩ :=
  update_self ..

theorem cached_of_invalidateLocalAuthority {other : String} {c : CachedAuthority}
    (h : (m.invalidateLocalAuthority name holderID).cached other = some c) :
    m.cached other = some c := by
  unfold invalidateLocalAuthority at h
  split at h
  · exact h
  split at h
  · by_cases ho : other = name
    · simp [ho] at h
    · simpa [ho] using h
  · exact h

end Manager

def clusterLeadershipLeaseName : String := "controller-cluster-leadership"

def leaseTermFloor : ℕ := 2 ^ 32

/-- The term of the high-availability manager, in 64-bit arithmetic. -/
def getTerm (leaseManager : Option Manager) (nodeID : String) (now : ℤ) : ℕ :=
  match leaseManager with
  | none => 0
  | some m =>
    match m.hasLocalAuthority now clusterLeadershipLeaseName nodeID with
    | some token => (leaseTermFloor + token) % 2 ^ 64
    | none => 0

theorem getTerm_le (m : Manager) (nodeID : String) (now : ℤ) {c : CachedAuthority}
    (hc : m.cached clusterLeadershipLeaseName = some c) :
    getTerm (some m) nodeID now ≤ leaseTermFloor + c.token := by
  cases ha : m.hasLocalAuthority now clusterLeadershipLeaseName nodeID with
  | none => simp [getTerm, ha]
  | some token =>
    obtain ⟨c', hc', -, -, rfl⟩ := Manager.hasLocalAuthority_eq_some.mp ha
    cases hc.symm.trans hc'
    simpa [getTerm, ha] using Nat.mod_le _ _

theorem getTerm_of_hasLocalAuthority {m : Manager} {nodeID : String} {now : ℤ} {token : ℕ}
    (h : m.hasLocalAuthority now clusterLeadershipLeaseName nodeID = some token)
    (ht : token ≤ maxToken) : getTerm (some m) nodeID now = leaseTermFloor + token := by
  have hmod : (leaseTermFloor + token) % 2 ^ 64 = leaseTermFloor + token :=
    Nat.mod_eq_of_lt (by unfold leaseTermFloor maxToken at *; omega)
  simp only [getTerm, h, hmod]

end Cfgms.Lease
