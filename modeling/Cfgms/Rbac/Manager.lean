import Cfgms.Forest.Climb
import Cfgms.Go.Map
import Cfgms.Go.Strings
import Cfgms.Rbac.Store
import Mathlib.Algebra.GroupWithZero.Nat

/-! # The manager of access control

The manager writes each change to the store in memory and to the persistent store. Sensitive
calls need a justification, and assignments and parents pass the checks against escalation.
-/

namespace Cfgms.Rbac

open Ordered Forest

structure Context where
  /-- In nanoseconds since the epoch. -/
  now : ℤ
  justification : String
  /-- The ID that is generated next. -/
  uuid : String
  uuid_ne : uuid ≠ ""
  /-- Where the iteration over the map of assignments starts. -/
  choice : ℕ
  /-- The error of the persistent store, if it fails. -/
  failure : Option String

def Context.unix (ctx : Context) : ℤ := ctx.now / 1000000000

def Context.attempt {α : Type} (ctx : Context) (result : Except String α) : Except String α :=
  match ctx.failure with
  | some err => .error err
  | none => result

def second : ℤ := 1000000000

def validateSensitiveOperation (operation justification : String) : Option String :=
  let trimmed := Go.trimSpace justification.toList
  if trimmed = [] then
    some ("justification required for sensitive operation: operation '" ++ operation ++
      "' requires justification")
  else if (trimmed.map Char.utf8Size).sum < 10 then
    some ("justification too short (minimum 10 characters): operation '" ++ operation ++ "'")
  else if 1000 < (justification.toList.map Char.utf8Size).sum then
    some ("justification too long (maximum 1000 characters): operation '" ++ operation ++ "'")
  else none

theorem uuid_one_ne : "uuid-1" ≠ "" := by decide

def callAt (second : ℤ) : Context :=
  ⟨second * 1000000000, "quarterly access review", "uuid-1", uuid_one_ne, 0, none⟩

namespace Store

variable (p : Store)

def storePermission (permission : Permission) : Except String Store :=
  .ok { p with permissions := p.permissions.store permission }

def removePermission (id : String) : Except String Store :=
  if (p.permissions.get id).isSome then .ok { p with permissions := p.permissions.erase id }
  else .error ("permission " ++ id ++ " not found")

def storeRole (role : Role) : Except String Store :=
  .ok { p with roles := p.roles.store role }

def removeRole (id : String) : Except String Store :=
  if (p.roles.get id).isSome then .ok { p with roles := p.roles.erase id }
  else .error ("role " ++ id ++ " not found")

def storeBulkRoles (roles : List Role) : Except String Store :=
  .ok { p with roles := roles.foldl (fun t r => t.store r) p.roles }

def storeSubject (subject : Subject) : Except String Store :=
  .ok { p with subjects := p.subjects.store subject }

def storeRoleAssignment (a : Assignment) : Except String Store :=
  .ok { p with assignments := p.assignments.store a }

def deleteRoleAssignment (subjectID roleID tenantID : String) : Except String Store :=
  .ok { p with assignments := p.assignments.filter fun a => ¬ a.Gives subjectID roleID tenantID }

variable (st : Store)

def loadPermissions (permissions : List Permission) : Store :=
  { st with permissions := permissions.foldl (fun t q => t.store q) st.permissions }

/-- The roles are copied, and then each is entered with its parent. -/
def loadRoles (now : ℤ) (roles : List Role) : Store :=
  let copied := roles.foldl (fun t r => t.store { r with createdAt := now, updatedAt := now })
    st.roles
  roles.foldl (fun st r =>
    if r.parentRoleID = "" then st
    else st.modifyRole r.parentRoleID (fun q => q.withChild q.updatedAt r.id)
      fun q => q.id_withChild q.updatedAt r.id)
    { st with roles := copied }

/-- The store after a call whose error is only logged. -/
def orKeep (result : Except String Store) : Store := result.toOption.getD st

def loadFromPersistentStorage (now : ℤ) (uuid : String) : Store :=
  let st := (Store.new.loadPermissions p.permissions.rows).loadRoles now p.roles.rows
  let st := p.subjects.rows.foldl (fun st s => st.orKeep (st.createSubject now s)) st
  p.assignments.rows.foldl (fun st a => st.orKeep (st.assignRole now uuid a)) st

end Store

structure Link where
  parentRoleID : String
  tenantID : String
  isSystemRole : Bool

/-- The roles that exist, with what the hierarchy reads of them. -/
abbrev Links := String → Option Link

def Role.link (r : Role) : Link := ⟨r.parentRoleID, r.tenantID, r.isSystemRole⟩

def Link.parent (l : Link) : Option String :=
  if l.parentRoleID = "" then none else some l.parentRoleID

namespace Store

variable (st : Store)

def links : Links := fun id => (st.roles.get id).map Role.link

/-- The chain of roles above a role, with the role itself. -/
def chain (id : String) : List String × Stop String :=
  climb (fun id => (st.links id).map Link.parent) (st.roles.rows.length + 1) [] id

def checkAncestorsForRole (startRoleID targetRoleID : String) : Option String :=
  let (path, stop) := st.chain startRoleID
  if targetRoleID ∈ path then
    some ("circular dependency detected: role " ++ targetRoleID ++
      " is already an ancestor of role " ++ targetRoleID)
  else
    match stop with
    | .missing id => some ("role " ++ id ++ " not found")
    | _ => none

def validateHierarchy (roleID : String) : Option String :=
  match (st.chain roleID).2 with
  | .revisited id => some ("circular dependency detected involving role " ++ id)
  | .missing id => some ("failed to get role " ++ id ++ ": role " ++ id ++ " not found")
  | .root => none

def validateHierarchyOperation (childRoleID parentRoleID : String) : Option String :=
  if childRoleID = parentRoleID then some "role cannot be its own parent"
  else if parentRoleID = "" then none
  else
    match st.getRole parentRoleID with
    | .error err => some ("failed to get role " ++ parentRoleID ++ ": " ++ err)
    | .ok _ =>
      if (st.roles.get childRoleID).isSome then
        (st.checkAncestorsForRole parentRoleID childRoleID).or (st.validateHierarchy childRoleID)
      else none

def calculateRoleChainLength (roleID : String) : ℕ := (st.chain roleID).1.length

end Store

inductive OperationType where
  | roleParentSet
  | roleAssignment
  deriving DecidableEq

structure OperationRecord where
  type : OperationType
  roleID : String
  parentRoleID : String
  subjectID : String
  tenantID : String
  timestamp : ℤ
  success : Bool

structure Manager where
  /-- In memory. -/
  store : Store
  /-- Persistent. -/
  rbacStore : Store
  operationLog : List OperationRecord
  recentOperations : Go.StringMap (List ℤ)

namespace Manager

def fresh (ctx : Context) (p : Store) : Manager :=
  ⟨p.loadFromPersistentStorage ctx.unix ctx.uuid, p, [], .empty⟩

variable (m : Manager) (ctx : Context)

/-- What is said before the error of a store. -/
structure Labels where
  memory : String
  persistent : String

/-- Change the store in memory, and then the persistent store; if that fails, try to undo the
change in memory. -/
def writeThrough (labels : Labels) (change write undo : Store → Except String Store) :
    Manager × Option String :=
  match change m.store with
  | .error err => (m, some (labels.memory ++ err))
  | .ok st =>
    match ctx.attempt (write m.rbacStore) with
    | .error err => ({ m with store := st.orKeep (undo st) }, some (labels.persistent ++ err))
    | .ok p => ({ m with store := st, rbacStore := p }, none)

/-- A call that needs a justification. -/
def sensitive (operation : String) (call : Manager × Option String) : Manager × Option String :=
  match validateSensitiveOperation operation ctx.justification with
  | some err => (m, some err)
  | none => call

def createPermission (p : Permission) : Manager × Option String :=
  m.sensitive ctx "create_permission" <|
    m.writeThrough ctx ⟨"", "failed to persist permission: "⟩ (·.createPermission p)
      (·.storePermission p) (·.deletePermission p.id)

def updatePermission (p : Permission) : Manager × Option String :=
  m.writeThrough ctx ⟨"", "failed to persist permission update: "⟩ (·.updatePermission p)
    (·.storePermission p) .ok

def deletePermission (id : String) : Manager × Option String :=
  m.sensitive ctx "delete_permission" <|
    m.writeThrough ctx ⟨"", "failed to persist permission deletion: "⟩ (·.deletePermission id)
      (·.removePermission id) .ok

/-- The parent of a new role exists and is in its tenant. -/
def checkParent (role : Role) : Option String :=
  if role.parentRoleID = "" then none
  else
    match m.store.getRole role.parentRoleID with
    | .error err => some ("parent role " ++ role.parentRoleID ++ " not found: " ++ err)
    | .ok parent =>
      if parent.tenantID ≠ role.tenantID then
        some ("cross-tenant role inheritance not allowed: parent tenant=" ++ parent.tenantID ++
          ", child tenant=" ++ role.tenantID ++ " (security finding M-TENANT-2)")
      else none

def createRole (role : Role) : Manager × Option String :=
  m.sensitive ctx "create_role" <|
    match m.checkParent role with
    | some err => (m, some err)
    | none =>
      m.writeThrough ctx ⟨"", "failed to persist role: "⟩ (·.createRole ctx.unix role)
        (·.storeRole role) (·.deleteRole role.id)

def updateRole (role : Role) : Manager × Option String :=
  m.sensitive ctx "modify_role" <|
    m.writeThrough ctx ⟨"", "failed to persist role update: "⟩ (·.updateRole ctx.unix role)
      (·.storeRole role) .ok

def deleteRole (id : String) : Manager × Option String :=
  m.sensitive ctx "delete_role" <|
    m.writeThrough ctx ⟨"", "failed to persist role deletion: "⟩ (·.deleteRole id)
      (·.removeRole id) .ok

def createTenantRole (template : Role) (tenantID : String) : Role where
  id := tenantID ++ "." ++ template.id
  name := template.name
  permissionIDs := template.permissionIDs
  tenantID := tenantID
  parentRoleID := ""
  childRoleIDs := []
  inheritanceType := .none
  isSystemRole := false
  createdAt := 0
  updatedAt := 0

def createTenantDefaultRoles (templates : List Role) (tenantID : String) :
    Manager × Option String :=
  let roles := templates.map (createTenantRole · tenantID)
  m.writeThrough ctx ⟨"", "failed to persist tenant default roles for " ++ tenantID ++ ": "⟩
    (fun st => .ok (st.loadRoles ctx.unix roles)) (·.storeBulkRoles roles) .ok

def createSubject (subject : Subject) : Manager × Option String :=
  m.writeThrough ctx ⟨"", "failed to persist subject: "⟩ (·.createSubject ctx.unix subject)
    (·.storeSubject subject) (·.deleteSubject subject.id)

def inMemory (result : Except String Store) : Manager × Option String :=
  match result with
  | .error err => (m, some err)
  | .ok st => ({ m with store := st }, none)

def updateSubject (subject : Subject) : Manager × Option String :=
  m.inMemory (m.store.updateSubject ctx.unix subject)

def deleteSubject (id : String) : Manager × Option String := m.inMemory (m.store.deleteSubject id)

def recordOperation (operation : OperationRecord) : Manager :=
  let log := m.operationLog ++ [operation]
  { m with operationLog := if log.length > 10000 then log.drop 1000 else log }

def refuse (operation : OperationRecord) (err : String) : Manager × Option String :=
  (m.recordOperation operation, some err)

def recordSuccess (operation : OperationRecord) :
    Manager × Option String → Manager × Option String
  | (m, some err) => (m, some err)
  | (m, none) => (m.recordOperation { operation with success := true }, none)

def recentAssignments (subjectID : String) (window : ℤ) : List OperationRecord :=
  m.operationLog.filter fun op => op.type = .roleAssignment ∧ op.subjectID = subjectID ∧
    ctx.now - window < op.timestamp ∧ op.success

/-- The ASCII letters that `strings.ToLower` leaves or makes; a letter that stays outside
ASCII is left as it is. -/
def toLower (c : Char) : Char :=
  if c = '\u0130' then 'i' else if c = '\u212a' then 'k' else c.toLower

def highPrivKeywords : List String := ["admin", "super", "root", "system", "manager", "owner"]

def isHighPrivilegeRole (roleID : String) : Bool :=
  match m.store.getRole roleID with
  | .error _ => false
  | .ok role => highPrivKeywords.any fun keyword =>
      Go.contains (role.name.toList.map toLower) keyword.toList ||
        Go.contains (role.id.toList.map toLower) keyword.toList

def checkRapidEscalationProtection (subjectID roleID : String) : Option String :=
  let recent := (m.recentAssignments ctx subjectID (120 * second)).length
  if recent > 3 then
    some ("rapid role assignment detected for subject " ++ subjectID ++ " (" ++ toString recent ++
      " assignments)")
  else if m.isHighPrivilegeRole roleID ∧
      ((m.recentAssignments ctx subjectID (300 * second)).filter
        fun op => m.isHighPrivilegeRole op.roleID).length > 1 then
    some ("rapid high-privilege role assignment detected for subject " ++ subjectID)
  else none

def getRecentSubjectTenants (subjectID : String) : List String :=
  ((m.operationLog.filter fun op => op.subjectID = subjectID ∧
    ctx.now - 600 * second < op.timestamp ∧ op.tenantID ≠ "").map (·.tenantID)).dedup

def checkCrossTenantEscalationProtection (subjectID tenantID : String) : Option String :=
  let tenants := m.getRecentSubjectTenants ctx subjectID
  if tenants.length > 1 then
    some ("cross-tenant activity detected for subject " ++ subjectID ++ " across tenants: [" ++
      " ".intercalate tenants ++ "]")
  else
    match m.store.getSubject subjectID with
    | .error err => some ("failed to validate subject tenant: " ++ err)
    | .ok subject =>
      if subject.tenantID ≠ tenantID then
        some ("cross-tenant escalation attempt: subject " ++ subjectID ++ " (tenant " ++
          subject.tenantID ++ ") accessing tenant " ++ tenantID)
      else none

def validateAndAssignRole (a : Assignment) : Manager × Option String :=
  let operation : OperationRecord :=
    ⟨.roleAssignment, a.roleID, "", a.subjectID, a.tenantID, ctx.now, false⟩
  match m.checkRapidEscalationProtection ctx a.subjectID a.roleID with
  | some err => m.refuse operation ("rapid escalation protection: " ++ err)
  | none =>
    match m.checkCrossTenantEscalationProtection ctx a.subjectID a.tenantID with
    | some err => m.refuse operation ("cross-tenant escalation protection: " ++ err)
    | none =>
      recordSuccess operation <| m.writeThrough ctx
        ⟨"failed to store role assignment in memory: ", "failed to persist role assignment: "⟩
        (·.assignRole ctx.unix ctx.uuid a)
        (·.storeRoleAssignment (Store.record ctx.unix ctx.uuid a))
        (·.revokeRole ctx.unix ctx.choice a.subjectID a.roleID a.tenantID)

def assignRole (a : Assignment) : Manager × Option String :=
  m.sensitive ctx "assign_role" (m.validateAndAssignRole ctx a)

def revokeRole (subjectID roleID tenantID : String) : Manager × Option String :=
  m.sensitive ctx "revoke_role" <|
    m.writeThrough ctx ⟨"", "failed to persist role revocation: "⟩
      (·.revokeRole ctx.unix ctx.choice subjectID roleID tenantID)
      (·.deleteRoleAssignment subjectID roleID tenantID) .ok

def createRoleWithParent (role : Role) (parentRoleID : String) (inheritance : InheritanceType) :
    Manager × Option String :=
  let invalid := if parentRoleID = "" then none
    else m.store.validateHierarchyOperation role.id parentRoleID
  match invalid with
  | some err => (m, some ("invalid hierarchy operation: " ++ err))
  | none =>
    let result := m.createRole ctx
      { role with parentRoleID := parentRoleID, inheritanceType := inheritance }
    match result.2 with
    | some err => (result.1, some err)
    | none =>
      if parentRoleID = "" then (result.1, none)
      else result.1.inMemory
        (result.1.store.setRoleParent ctx.unix role.id parentRoleID inheritance)

def recentTimes (key : String) (window : ℤ) : List ℤ :=
  ((m.recentOperations.get key).getD []).filter fun t => ctx.now - window < t

def checkConcurrentModificationProtection (subjectID roleID : String) : Option String :=
  let key := subjectID ++ ":" ++ roleID
  let recent := (m.recentTimes ctx key (2 * second)).length
  if recent > 3 then
    some ("too many concurrent operations detected for " ++ key ++ " (count: " ++
      toString recent ++ ")")
  else none

def checkTimingBasedProtection (subjectID : String) : Option String :=
  let valid := m.recentTimes ctx subjectID (10 * second)
  if valid.length ≥ 5 then
    some ("operation rate limit exceeded for subject " ++ subjectID ++ " (operations: " ++
      toString valid.length ++ " in 10s)")
  else none

/-- Note the time of an operation that passed the rate limit. -/
def noteOperation (subjectID : String) : Manager :=
  let times := m.recentTimes ctx subjectID (10 * second) ++ [ctx.now]
  { m with recentOperations := m.recentOperations.set (subjectID, times) }

def countRecentChainModifications (roleID : String) : ℕ :=
  (m.operationLog.filter fun op => op.type = .roleParentSet ∧
    (op.roleID = roleID ∨ op.parentRoleID = roleID) ∧
    ctx.now - 300 * second < op.timestamp).length

def enhancedCircularDependencyCheck (roleID parentRoleID : String) : Option String :=
  match m.store.validateHierarchyOperation roleID parentRoleID with
  | some err => some err
  | none =>
    let chainLength := m.store.calculateRoleChainLength parentRoleID
    let modifications := m.countRecentChainModifications ctx parentRoleID
    if chainLength > 10 then
      some ("role hierarchy chain too long (" ++ toString chainLength ++
        " levels) - potential circular dependency or complexity attack")
    else if modifications > 5 then
      some ("too many recent modifications to role chain involving " ++ parentRoleID ++ " (" ++
        toString modifications ++ " modifications)")
    else none

def validateAndSetRoleParent (roleID parentRoleID : String) (inheritance : InheritanceType)
    (subjectID : String) : Manager × Option String :=
  let operation : OperationRecord :=
    ⟨.roleParentSet, roleID, parentRoleID, subjectID, "", ctx.now, false⟩
  match m.checkConcurrentModificationProtection ctx subjectID roleID with
  | some err => m.refuse operation ("concurrent modification protection: " ++ err)
  | none =>
    match m.checkTimingBasedProtection ctx subjectID with
    | some err => m.refuse operation ("timing-based protection: " ++ err)
    | none =>
      let m := m.noteOperation ctx subjectID
      match m.enhancedCircularDependencyCheck ctx roleID parentRoleID with
      | some err => m.refuse operation ("circular inheritance prevention: " ++ err)
      | none =>
        match m.store.validateHierarchyOperation roleID parentRoleID with
        | some err => m.refuse operation ("hierarchy validation failed: " ++ err)
        | none =>
          match m.store.setRoleParent ctx.unix roleID parentRoleID inheritance with
          | .error err => m.refuse operation err
          | .ok st =>
            ({ m with store := st }.recordOperation { operation with success := true }, none)

def setRoleParent (roleID parentRoleID : String) (inheritance : InheritanceType) :
    Manager × Option String :=
  m.validateAndSetRoleParent ctx roleID parentRoleID inheritance "system"

def removeRoleParent (roleID : String) : Manager × Option String :=
  m.inMemory (m.store.removeRoleParent ctx.unix roleID)

end Manager

inductive Call where
  | createPermission (p : Permission)
  | updatePermission (p : Permission)
  | deletePermission (id : String)
  | createRole (role : Role)
  | updateRole (role : Role)
  | deleteRole (id : String)
  | createTenantDefaultRoles (templates : List Role) (tenantID : String)
  | createSubject (subject : Subject)
  | updateSubject (subject : Subject)
  | deleteSubject (id : String)
  | assignRole (a : Assignment)
  | revokeRole (subjectID roleID tenantID : String)
  | createRoleWithParent (role : Role) (parentRoleID : String) (inheritance : InheritanceType)
  | setRoleParent (roleID parentRoleID : String) (inheritance : InheritanceType)
  | removeRoleParent (roleID : String)

def Call.run (m : Manager) (ctx : Context) : Call → Manager × Option String
  | .createPermission p => m.createPermission ctx p
  | .updatePermission p => m.updatePermission ctx p
  | .deletePermission id => m.deletePermission ctx id
  | .createRole role => m.createRole ctx role
  | .updateRole role => m.updateRole ctx role
  | .deleteRole id => m.deleteRole ctx id
  | .createTenantDefaultRoles templates tenantID =>
    m.createTenantDefaultRoles ctx templates tenantID
  | .createSubject subject => m.createSubject ctx subject
  | .updateSubject subject => m.updateSubject ctx subject
  | .deleteSubject id => m.deleteSubject id
  | .assignRole a => m.assignRole ctx a
  | .revokeRole s r t => m.revokeRole ctx s r t
  | .createRoleWithParent role parent inheritance =>
    m.createRoleWithParent ctx role parent inheritance
  | .setRoleParent role parent inheritance => m.setRoleParent ctx role parent inheritance
  | .removeRoleParent role => m.removeRoleParent ctx role

namespace Manager

variable {m : Manager} {ctx : Context} {labels : Labels}
  {change write undo : Store → Except String Store}

theorem writeThrough_rule {P : Manager × Option String → Prop} (hm : ∀ err, P (m, some err))
    (hfail : ∀ st err, change m.store = .ok st →
      P ({ m with store := st.orKeep (undo st) }, some err))
    (hok : ∀ st p, change m.store = .ok st → write m.rbacStore = .ok p →
      P ({ m with store := st, rbacStore := p }, none)) :
    P (m.writeThrough ctx labels change write undo) := by
  unfold writeThrough
  cases hchange : change m.store with
  | error err => exact hm _
  | ok st =>
    cases hattempt : ctx.attempt (write m.rbacStore) with
    | error err => exact hfail st _ hchange
    | ok p =>
      unfold Context.attempt at hattempt
      split at hattempt
      · cases hattempt
      · exact hok st p hchange hattempt

theorem writeThrough_eq_none (h : (m.writeThrough ctx labels change write undo).2 = none) :
    ∃ st p, change m.store = .ok st ∧ write m.rbacStore = .ok p ∧
      (m.writeThrough ctx labels change write undo).1 = { m with store := st, rbacStore := p } := by
  revert h
  apply writeThrough_rule (P := fun result => result.2 = none → ∃ st p, change m.store = .ok st ∧
    write m.rbacStore = .ok p ∧ result.1 = { m with store := st, rbacStore := p })
  · exact fun _ h => absurd h (Option.some_ne_none _)
  · exact fun _ _ _ h => absurd h (Option.some_ne_none _)
  · exact fun st p hst hp _ => ⟨st, p, hst, hp, rfl⟩

variable {operation : String} {call : Manager × Option String}

theorem sensitive_rule {P : Manager → Prop}
    (hm : P m) (hcall : P call.1) : P (m.sensitive ctx operation call).1 := by
  unfold sensitive
  split
  · exact hm
  · exact hcall

theorem sensitive_eq_none (h : (m.sensitive ctx operation call).2 = none) :
    m.sensitive ctx operation call = call := by
  unfold sensitive at h ⊢
  split at h
  · cases h
  · rfl

theorem tenantOf_of_check {subjectID tenantID : String}
    (h : m.checkCrossTenantEscalationProtection ctx subjectID tenantID = none) :
    m.store.tenantOf subjectID = some tenantID := by
  unfold checkCrossTenantEscalationProtection at h
  dsimp only at h
  split at h
  · cases h
  unfold Store.getSubject at h
  cases hget : m.store.subjects.get subjectID with
  | none => simp [hget] at h
  | some subject =>
    simp only [hget, ne_eq, ite_not] at h
    split at h
    · next htenant => simp [Store.tenantOf, hget, htenant]
    · cases h

theorem assignRole_rule {P : Store → Store → Option String → Prop} {a : Assignment}
    (hm : ∀ err, P m.store m.rbacStore (some err))
    (hfail : ∀ st err, m.store.tenantOf a.subjectID = some a.tenantID →
      m.store.assignRole ctx.unix ctx.uuid a = .ok st →
      P (st.orKeep (st.revokeRole ctx.unix ctx.choice a.subjectID a.roleID a.tenantID))
        m.rbacStore (some err))
    (hok : ∀ st, m.store.tenantOf a.subjectID = some a.tenantID →
      m.store.assignRole ctx.unix ctx.uuid a = .ok st →
      P st { m.rbacStore with
        assignments := m.rbacStore.assignments.store (Store.record ctx.unix ctx.uuid a) } none) :
    P (m.assignRole ctx a).1.store (m.assignRole ctx a).1.rbacStore (m.assignRole ctx a).2 := by
  unfold assignRole sensitive
  split
  · exact hm _
  unfold validateAndAssignRole
  split
  · exact hm _
  split
  · exact hm _
  next hcheck =>
  have htenant := tenantOf_of_check hcheck
  apply writeThrough_rule (P := fun result => P (recordSuccess _ result).1.store
    (recordSuccess _ result).1.rbacStore (recordSuccess _ result).2)
  · exact hm
  · exact fun st err hst => hfail st err htenant hst
  · intro st p hst hp
    cases hp
    exact hok st htenant hst

variable {P : Store → Store → Prop}

variable (hm : P m.store m.rbacStore)
include hm

theorem revokeRole_rule {s r t : String}
    (hfail : ∀ st, m.store.revokeRole ctx.unix ctx.choice s r t = .ok st → P st m.rbacStore)
    (hok : ∀ st, m.store.revokeRole ctx.unix ctx.choice s r t = .ok st →
      P st { m.rbacStore with
        assignments := m.rbacStore.assignments.filter fun a => ¬ a.Gives s r t }) :
    P (m.revokeRole ctx s r t).1.store (m.revokeRole ctx s r t).1.rbacStore := by
  refine sensitive_rule (P := fun m => P m.store m.rbacStore) hm ?_
  apply writeThrough_rule (P := fun result => P result.1.store result.1.rbacStore)
  · exact fun _ => hm
  · exact fun st _ hst => hfail st hst
  · intro st p hst hp
    cases hp
    exact hok st hst

theorem setRoleParent_rule {roleID parentRoleID : String} {inheritance : InheritanceType}
    (hset : ∀ st, m.store.validateHierarchyOperation roleID parentRoleID = none →
      m.store.setRoleParent ctx.unix roleID parentRoleID inheritance = .ok st →
      P st m.rbacStore) :
    P (m.setRoleParent ctx roleID parentRoleID inheritance).1.store
      (m.setRoleParent ctx roleID parentRoleID inheritance).1.rbacStore := by
  unfold setRoleParent validateAndSetRoleParent
  dsimp only
  split
  · exact hm
  split
  · exact hm
  split
  · exact hm
  split
  · exact hm
  next hvalid =>
  split
  · exact hm
  · next st hst => exact hset st hvalid hst

theorem inMemory_rule {result : Except String Store} (hok : ∀ st, result = .ok st → P st m.rbacStore) :
    P (m.inMemory result).1.store (m.inMemory result).1.rbacStore := by
  unfold inMemory
  split
  · exact hm
  · next st => exact hok st rfl

end Manager

end Cfgms.Rbac
