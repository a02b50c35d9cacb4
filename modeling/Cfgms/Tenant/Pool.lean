import Cfgms.Machine.Runs
import Cfgms.Tenant.Manager

/-! # Concurrent calls

Any number of calls are in flight at once, and one of them makes its next store call at a
time. Suspending and restoring exclude each other by a mutex; creating and updating take no
lock. A call that has returned is no longer in flight.
-/

namespace Cfgms.Tenant

/-- A call in flight and how far it has come. -/
inductive Call where
  | create (c : CreateCall)
  | update (u : UpdateCall)
  | suspendRootCheck (tenantID : String)
  | suspendTargetCheck (tenantID : String)
  | suspendLock (tenantID : String)
  | suspendWalk (w : SuspendWalk)
  | restoreLock (tenantID : String)
  | restoreWalk (w : RestoreWalk)

inductive Request where
  | create (inputs : CreateInputs) (req : TenantRequest)
  | update (tenantID : String) (req : TenantRequest)
  | suspend (tenantID : String)
  | restore (tenantID : String)

structure Pool where
  store : Store
  suspendMu : Option ℕ
  calls : ℕ → Option Call

inductive PoolAction where
  | start (i : ℕ) (request : Request)
  | step (i : ℕ)

def Progress.call {ω ρ : Type*} (call : ω → Call) : Progress ω ρ → Option Call
  | .running w => some (call w)
  | .returned _ => none

theorem Progress.call_eq_some {ω ρ : Type*} {call : ω → Call} {progress : Progress ω ρ}
    {c : Call} : progress.call call = some c ↔ ∃ w, progress = .running w ∧ call w = c := by
  cases progress <;> simp [Progress.call]

def Call.Orderly (s : Store) : Call → Prop
  | .update u => ∀ row, u.point = .write row →
      ∀ r, s.tenants.find row.id = some r → r.standing = row.standing
  | .create c => ∀ attempt label, c.point = .insert attempt label →
      c.ParentOpen s ∧ Joins s.tenants c.row.id c.row.parentID
  | _ => True

namespace Pool

variable (validator : MountPointValidator)

def setCall (p : Pool) (i : ℕ) (c : Option Call) : Pool :=
  { p with calls := Function.update p.calls i c }

def startCall : Request → Option Call
  | .create inputs req => (CreateCall.start validator inputs req).call .create
  | .update tenantID req => some (.update (.start validator tenantID req))
  | .suspend tenantID => some (.suspendRootCheck tenantID)
  | .restore tenantID => some (.restoreLock tenantID)

/-- The mutex is released when the walk that holds it returns. -/
def walked (p : Pool) (i : ℕ) (tenants : TenantTable) (c : Option Call) : Pool where
  store := { p.store with tenants := tenants }
  suspendMu := if c.isNone then none else p.suspendMu
  calls := Function.update p.calls i c

def stepCall (p : Pool) (i : ℕ) : Call → Option Pool
  | .create c =>
    let (s, progress) := CreateCall.step p.store c
    some ({ p with store := s }.setCall i (progress.call .create))
  | .update u =>
    let (s, progress) := UpdateCall.step p.store u
    some ({ p with store := s }.setCall i (progress.call .update))
  | .suspendRootCheck tenantID =>
    if rootTenantID p.store.tenants = "" then
      some (p.setCall i (some (.suspendTargetCheck tenantID)))
    else if tenantID = rootTenantID p.store.tenants then some (p.setCall i none)
    else some (p.setCall i (some (.suspendLock tenantID)))
  | .suspendTargetCheck tenantID =>
    match p.store.tenants.getTenant tenantID with
    | .error .tenantDoesNotExist => some (p.setCall i (some (.suspendLock tenantID)))
    | .error _ => some (p.setCall i none)
    | .ok td =>
      if td.parentID = "" then some (p.setCall i none)
      else some (p.setCall i (some (.suspendLock tenantID)))
  | .suspendLock tenantID =>
    if p.suspendMu = none then
      some ({ p with suspendMu := some i }.setCall i (some (.suspendWalk (.start tenantID))))
    else none
  | .suspendWalk w =>
    let (tenants, progress) := SuspendWalk.step p.store.tenants w
    some (p.walked i tenants (progress.call .suspendWalk))
  | .restoreLock tenantID =>
    if p.suspendMu = none then
      some ({ p with suspendMu := some i }.setCall i (some (.restoreWalk (.start tenantID))))
    else none
  | .restoreWalk w =>
    let (tenants, progress) := RestoreWalk.step p.store.tenants w
    some (p.walked i tenants (progress.call .restoreWalk))

def machine : Machine Pool PoolAction where
  step p
    | .start i request =>
      match p.calls i with
      | some _ => none
      | none => some (p.setCall i (startCall validator request))
    | .step i => (p.calls i).bind (p.stepCall i)

def Quiescent (p : Pool) : Prop := ∀ i, p.calls i = none

def Restoring (p : Pool) : PoolAction → Prop
  | .start _ _ => False
  | .step i => ∃ w, p.calls i = some (.restoreWalk w)

/-- An update writes back the standing that its row still has, and a tenant is inserted under
a parent that is not suspended and closes no cycle of parents. -/
def Orderly (p : Pool) : PoolAction → Prop
  | .start _ _ => True
  | .step i => ∀ c, p.calls i = some c → c.Orderly p.store

end Pool

end Cfgms.Tenant
