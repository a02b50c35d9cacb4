import Cfgms.Ordered.Table
import Mathlib.Data.Int.Notation

/-! # Roles, subjects and assignments

The in-memory store of access control. That a subject has a role is on record twice: in the
table of assignments, by tenant and with an expiry, and in the subject's own list of roles.
-/

namespace Cfgms.Rbac

open Ordered List

structure Permission where
  id : String
  name : String
  deriving DecidableEq

inductive InheritanceType where
  | none
  | additive
  | override
  | restrictive
  deriving DecidableEq

structure Role where
  id : String
  name : String
  permissionIDs : List String
  tenantID : String
  /-- Empty for a role without a parent. -/
  parentRoleID : String
  childRoleIDs : List String
  inheritanceType : InheritanceType
  isSystemRole : Bool
  createdAt : ℤ
  updatedAt : ℤ
  deriving DecidableEq

def Role.withChild (r : Role) (now : ℤ) (childID : String) : Role :=
  if childID ∈ r.childRoleIDs then r
  else { r with childRoleIDs := r.childRoleIDs ++ [childID], updatedAt := now }

theorem Role.id_withChild (r : Role) (now : ℤ) (childID : String) :
    (r.withChild now childID).id = r.id := by
  unfold withChild
  split <;> rfl

structure Subject where
  id : String
  tenantID : String
  roleIDs : List String
  isActive : Bool
  createdAt : ℤ
  updatedAt : ℤ
  deriving DecidableEq

structure Assignment where
  id : String
  subjectID : String
  roleID : String
  tenantID : String
  /-- In seconds since the epoch, and zero for an assignment that does not expire. -/
  expiresAt : ℤ
  assignedAt : ℤ
  deriving DecidableEq

def Assignment.Gives (a : Assignment) (subjectID roleID tenantID : String) : Prop :=
  a.subjectID = subjectID ∧ a.roleID = roleID ∧ a.tenantID = tenantID

instance (a : Assignment) (s r t : String) : Decidable (a.Gives s r t) :=
  inferInstanceAs (Decidable (_ ∧ _))

def Assignment.ValidAt (a : Assignment) (now : ℤ) : Prop := a.expiresAt = 0 ∨ now < a.expiresAt

instance (a : Assignment) (now : ℤ) : Decidable (a.ValidAt now) :=
  inferInstanceAs (Decidable (_ ∨ _))

structure Store where
  permissions : Table Permission.id
  roles : Table Role.id
  subjects : Table Subject.id
  assignments : Table Assignment.id

namespace Store

def new : Store := ⟨.empty, .empty, .empty, .empty⟩

variable (st : Store) (now : ℤ)

def createPermission (p : Permission) : Except String Store :=
  if (st.permissions.get p.id).isSome then .error ("permission " ++ p.id ++ " already exists")
  else .ok { st with permissions := st.permissions.store p }

def updatePermission (p : Permission) : Except String Store :=
  if (st.permissions.get p.id).isSome then .ok { st with permissions := st.permissions.store p }
  else .error ("permission " ++ p.id ++ " not found")

def deletePermission (id : String) : Except String Store :=
  if (st.permissions.get id).isSome then .ok { st with permissions := st.permissions.erase id }
  else .error ("permission " ++ id ++ " not found")

def createRole (role : Role) : Except String Store :=
  if (st.roles.get role.id).isSome then .error ("role " ++ role.id ++ " already exists")
  else .ok { st with roles := st.roles.store { role with createdAt := now, updatedAt := now } }

def getRole (id : String) : Except String Role :=
  match st.roles.get id with
  | none => .error ("role " ++ id ++ " not found")
  | some role => .ok role

def updateRole (role : Role) : Except String Store :=
  match st.roles.get role.id with
  | none => .error ("role " ++ role.id ++ " not found")
  | some existing =>
    if role.tenantID ≠ existing.tenantID then
      .error ("role " ++ role.id ++ " tenant cannot be changed")
    else if role.isSystemRole ≠ existing.isSystemRole then
      .error ("role " ++ role.id ++ " system-role status cannot be changed")
    else
      .ok { st with
        roles := st.roles.store { role with
          createdAt := if role.createdAt = 0 then existing.createdAt else role.createdAt
          updatedAt := now } }

def deleteRole (id : String) : Except String Store :=
  match st.roles.get id with
  | none => .error ("role " ++ id ++ " not found")
  | some role =>
    if role.isSystemRole then .error ("cannot delete system role " ++ id)
    else .ok { st with roles := st.roles.erase id }

def getRolePermissions (roleID : String) : Except String (List Permission) :=
  match st.roles.get roleID with
  | none => .error ("role " ++ roleID ++ " not found")
  | some role => .ok (role.permissionIDs.filterMap st.permissions.get)

def createSubject (subject : Subject) : Except String Store :=
  if (st.subjects.get subject.id).isSome then
    .error ("subject " ++ subject.id ++ " already exists")
  else
    .ok { st with
      subjects := st.subjects.store { subject with createdAt := now, updatedAt := now } }

def getSubject (id : String) : Except String Subject :=
  match st.subjects.get id with
  | none => .error ("subject " ++ id ++ " not found")
  | some subject => .ok subject

def tenantOf (subjectID : String) : Option String :=
  (st.subjects.get subjectID).map Subject.tenantID

def Lists (subjectID roleID : String) : Prop :=
  ∃ subject, st.subjects.get subjectID = some subject ∧ roleID ∈ subject.roleIDs

def updateSubject (subject : Subject) : Except String Store :=
  if (st.subjects.get subject.id).isSome then
    .ok { st with subjects := st.subjects.store { subject with updatedAt := now } }
  else .error ("subject " ++ subject.id ++ " not found")

def deleteSubject (id : String) : Except String Store :=
  if (st.subjects.get id).isSome then .ok { st with subjects := st.subjects.erase id }
  else .error ("subject " ++ id ++ " not found")

def getSubjectRoles (subjectID tenantID : String) : Except String (List Role) :=
  match st.subjects.get subjectID with
  | none => .error ("subject " ++ subjectID ++ " not found")
  | some subject =>
    .ok ((subject.roleIDs.filterMap st.roles.get).filter fun role =>
      role.isSystemRole ∨ role.tenantID = tenantID)

/-- The assignment as it is stored, under its own ID or under a new one. -/
def record (uuid : String) (a : Assignment) : Assignment :=
  { a with id := if a.id = "" then uuid else a.id, assignedAt := now }

def assignRole (uuid : String) (a : Assignment) : Except String Store :=
  match st.subjects.get a.subjectID with
  | none => .error ("subject " ++ a.subjectID ++ " not found")
  | some subject =>
    if (st.roles.get a.roleID).isNone then .error ("role " ++ a.roleID ++ " not found")
    else
      .ok { st with
        assignments := st.assignments.store (record now uuid a)
        subjects := st.subjects.store { subject with
          roleIDs := subject.roleIDs ++ [a.roleID]
          updatedAt := now } }

def matching (subjectID roleID tenantID : String) : List Assignment :=
  st.assignments.rows.filter (·.Gives subjectID roleID tenantID)

/-- The subject has the role through one assignment at most, over all tenants. -/
def AssignedOnce (subjectID roleID : String) : Prop :=
  (st.assignments.rows.filter fun a => a.subjectID = subjectID ∧ a.roleID = roleID).length ≤ 1

instance (s r : String) : Decidable (st.AssignedOnce s r) := inferInstanceAs (Decidable (_ ≤ _))

/-- Take the role off the subject's own list. -/
def dropRole (subjectID roleID : String) : Table Subject.id :=
  match st.subjects.get subjectID with
  | none => st.subjects
  | some subject =>
    st.subjects.store { subject with
      roleIDs := subject.roleIDs.filter (· ≠ roleID)
      updatedAt := now }

/-- One matching assignment is removed, the first that the iteration over the map comes to. -/
def revokeRole (choice : ℕ) (subjectID roleID tenantID : String) : Except String Store :=
  let found := st.matching subjectID roleID tenantID
  match found[choice % found.length]? with
  | none => .error "role assignment not found"
  | some a =>
    if a.id = "" then .error "role assignment not found"
    else
      .ok { st with
        assignments := st.assignments.erase a.id
        subjects := st.dropRole now subjectID roleID }

def getSubjectAssignments (subjectID tenantID : String) : List Assignment :=
  st.assignments.rows.filter fun a =>
    a.subjectID = subjectID ∧ a.tenantID = tenantID ∧ a.ValidAt now

def modifyRole (id : String) (f : Role → Role) (hf : ∀ r, (f r).id = r.id) : Store :=
  { st with roles := st.roles.update (fun r => r.id = id) f hf }

def removeChild (parentID childID : String) : Store :=
  st.modifyRole parentID (fun r => { r with
    childRoleIDs := r.childRoleIDs.filter (· ≠ childID)
    updatedAt := now }) fun _ => rfl

def addChild (parentID childID : String) : Store :=
  st.modifyRole parentID (·.withChild now childID) fun r => r.id_withChild now childID

def linkParent (roleID parentID : String) (inheritance : InheritanceType) : Store :=
  st.modifyRole roleID (fun r => { r with
    parentRoleID := parentID
    inheritanceType := inheritance
    updatedAt := now }) fun _ => rfl

def setRoleParent (roleID parentRoleID : String) (inheritance : InheritanceType) :
    Except String Store :=
  match st.roles.get roleID with
  | none => .error ("role " ++ roleID ++ " not found")
  | some role =>
    if parentRoleID ≠ "" ∧ (st.roles.get parentRoleID).isNone then
      .error ("parent role " ++ parentRoleID ++ " not found")
    else
      let st := if role.parentRoleID ≠ "" ∧ role.parentRoleID ≠ parentRoleID then
        st.removeChild now role.parentRoleID roleID else st
      let st := if parentRoleID ≠ "" then st.addChild now parentRoleID roleID else st
      .ok (st.linkParent now roleID parentRoleID inheritance)

def removeRoleParent (roleID : String) : Except String Store :=
  match st.roles.get roleID with
  | none => .error ("role " ++ roleID ++ " not found")
  | some role =>
    if role.parentRoleID = "" then .ok st
    else .ok ((st.removeChild now role.parentRoleID roleID).linkParent now roleID "" .none)

variable {st now} {st' : Store}

theorem createPermission_eq_ok {p : Permission} (h : st.createPermission p = .ok st') :
    st' = { st with permissions := st.permissions.store p } := by
  unfold createPermission at h
  split at h <;> cases h
  rfl

theorem updatePermission_eq_ok {p : Permission} (h : st.updatePermission p = .ok st') :
    st' = { st with permissions := st.permissions.store p } := by
  unfold updatePermission at h
  split at h <;> cases h
  rfl

variable {id : String}

theorem deletePermission_eq_ok (h : st.deletePermission id = .ok st') :
    st' = { st with permissions := st.permissions.erase id } := by
  unfold deletePermission at h
  split at h <;> cases h
  rfl

theorem createRole_eq_ok {role : Role} (h : st.createRole now role = .ok st') :
    st.roles.get role.id = none ∧ st' =
      { st with roles := st.roles.store { role with createdAt := now, updatedAt := now } } := by
  revert h
  fun_cases createRole st now role <;> rintro ⟨⟩
  next hnew => exact ⟨by simpa using hnew, rfl⟩

theorem updateRole_eq_ok {role : Role} (h : st.updateRole now role = .ok st') :
    ∃ existing createdAt, st.roles.get role.id = some existing ∧
      role.tenantID = existing.tenantID ∧ role.isSystemRole = existing.isSystemRole ∧
      st' = { st with
        roles := st.roles.store { role with createdAt := createdAt, updatedAt := now } } := by
  revert h
  fun_cases updateRole st now role <;> rintro ⟨⟩
  next existing hget htenant hsystem =>
  exact ⟨existing, _, hget, not_not.mp htenant, not_not.mp hsystem, rfl⟩

theorem deleteRole_eq_ok (h : st.deleteRole id = .ok st') :
    (∃ role, st.roles.get id = some role ∧ role.isSystemRole = false) ∧
      st' = { st with roles := st.roles.erase id } := by
  revert h
  fun_cases deleteRole st id <;> rintro ⟨⟩
  next role hget hsystem => exact ⟨⟨role, hget, by simpa using hsystem⟩, rfl⟩

theorem createSubject_eq_ok {subject : Subject} (h : st.createSubject now subject = .ok st') :
    st.subjects.get subject.id = none ∧ st' =
      { st with
        subjects := st.subjects.store { subject with createdAt := now, updatedAt := now } } := by
  revert h
  fun_cases createSubject st now subject <;> rintro ⟨⟩
  next hnew => exact ⟨by simpa using hnew, rfl⟩

theorem updateSubject_eq_ok {subject : Subject} (h : st.updateSubject now subject = .ok st') :
    (∃ old, st.subjects.get subject.id = some old) ∧
      st' = { st with subjects := st.subjects.store { subject with updatedAt := now } } := by
  unfold updateSubject at h
  split at h
  · next hold => exact ⟨Option.isSome_iff_exists.mp hold, (Except.ok.inj h).symm⟩
  · cases h

theorem deleteSubject_eq_ok (h : st.deleteSubject id = .ok st') :
    st' = { st with subjects := st.subjects.erase id } := by
  unfold deleteSubject at h
  split at h <;> cases h
  rfl

theorem record_id_ne {uuid : String} (huuid : uuid ≠ "") (a : Assignment) :
    (record now uuid a).id ≠ "" := by
  unfold record
  split
  · exact huuid
  · assumption

theorem assignRole_eq_ok {uuid : String} {a : Assignment} (h : st.assignRole now uuid a = .ok st') :
    ∃ subject role, st.subjects.get a.subjectID = some subject ∧ st.roles.get a.roleID = some role ∧
      st' = { st with
        assignments := st.assignments.store (record now uuid a)
        subjects := st.subjects.store { subject with
          roleIDs := subject.roleIDs ++ [a.roleID]
          updatedAt := now } } := by
  revert h
  fun_cases assignRole st now uuid a <;> rintro ⟨⟩
  next subject hsubject hrole =>
  obtain ⟨role, hrole⟩ := Option.ne_none_iff_exists'.mp (by simpa using hrole)
  exact ⟨subject, role, hsubject, hrole, rfl⟩

theorem revokeRole_eq_ok {choice : ℕ} {s r t : String}
    (h : st.revokeRole now choice s r t = .ok st') :
    ∃ a ∈ st.assignments.rows, a.Gives s r t ∧
      st' = { st with
        assignments := st.assignments.erase a.id
        subjects := st.dropRole now s r } := by
  revert h
  fun_cases revokeRole st now choice s r t <;> rintro ⟨⟩
  next a hfound _ =>
  obtain ⟨hrow, hgives⟩ := mem_filter.mp (mem_of_getElem? hfound)
  exact ⟨a, hrow, of_decide_eq_true hgives, rfl⟩

theorem AssignedOnce.eq {s r : String} (h : st.AssignedOnce s r) {a b : Assignment}
    (ha : a ∈ st.assignments.rows) (hb : b ∈ st.assignments.rows)
    (has : a.subjectID = s ∧ a.roleID = r) (hbs : b.subjectID = s ∧ b.roleID = r) : a = b := by
  unfold AssignedOnce at h
  have hmem : ∀ c ∈ st.assignments.rows, c.subjectID = s ∧ c.roleID = r →
      c ∈ st.assignments.rows.filter fun a => a.subjectID = s ∧ a.roleID = r :=
    fun c hc hcs => mem_filter.mpr ⟨hc, decide_eq_true hcs⟩
  obtain ⟨i, hi, rfl⟩ := getElem_of_mem (hmem a ha has)
  obtain ⟨j, hj, rfl⟩ := getElem_of_mem (hmem b hb hbs)
  obtain rfl : i = j := by omega
  rfl

theorem get_dropRole (s r id : String) :
    (st.dropRole now s r).get id = if s = id then (st.subjects.get s).map fun subject =>
      { subject with roleIDs := subject.roleIDs.filter (· ≠ r), updatedAt := now }
      else st.subjects.get id := by
  unfold dropRole
  cases hget : st.subjects.get s with
  | none =>
    dsimp only
    split
    · next heq => rw [← heq, hget, Option.map_none]
    · rfl
  | some subject =>
    obtain ⟨-, rfl⟩ := Table.get_eq_some_iff.mp hget
    exact Table.get_store id

end Store

/-- A permission matches the one asked for if it is that one, a pattern for its namespace, or
the system administrator's. -/
def permissionMatches (permissionID requested : String) : Bool :=
  if permissionID = "*" then false
  else if permissionID = requested then true
  else if ['.', '*'].isSuffixOf permissionID.toList then
    (permissionID.toList.take (permissionID.toList.length - 2) ++ ['.']).isPrefixOf requested.toList
  else permissionID = "system.admin"

structure AccessRequest where
  subjectID : String
  permissionID : String
  tenantID : String

structure AccessResponse where
  granted : Bool
  reason : String
  appliedRoles : List String
  appliedPermissions : List String
  deriving DecidableEq

def AccessResponse.denied (reason : String) : AccessResponse := ⟨false, reason, [], []⟩

namespace Store

variable (st : Store) (now : ℤ)

/-- The loop over the subject's roles, with the names of the roles that counted so far. -/
def checkRoles (valid : List Assignment) (permissionID : String) :
    List String → List Role → Option AccessResponse
  | _, [] => none
  | applied, role :: roles =>
    if ∃ a ∈ valid, a.roleID = role.id then
      match st.getRolePermissions role.id with
      | .error _ => checkRoles valid permissionID (applied ++ [role.name]) roles
      | .ok permissions =>
        match permissions.find? fun p => permissionMatches p.id permissionID with
        | some p =>
          some ⟨true, "Access granted via role '" ++ role.name ++ "' with permission '" ++
            p.name ++ "'", applied ++ [role.name], [p.name]⟩
        | none => checkRoles valid permissionID (applied ++ [role.name]) roles
    else checkRoles valid permissionID applied roles

def checkPermission (req : AccessRequest) : AccessResponse :=
  match st.getSubject req.subjectID with
  | .error err => .denied ("Subject not found: " ++ err)
  | .ok subject =>
    if subject.isActive then
      let valid := st.getSubjectAssignments now req.subjectID req.tenantID
      match st.getSubjectRoles req.subjectID req.tenantID with
      | .error err => .denied ("Failed to get subject roles: " ++ err)
      | .ok roles =>
        (st.checkRoles valid req.permissionID [] roles).getD
          (.denied ("No role grants permission '" ++ req.permissionID ++ "' for tenant '" ++
            req.tenantID ++ "'"))
    else .denied "Subject is inactive"

/-- What it takes for a role to give a permission in a tenant. -/
def RoleGrants (roleID permissionID tenantID : String) : Prop :=
  ∃ role, st.roles.get roleID = some role ∧ (role.isSystemRole ∨ role.tenantID = tenantID) ∧
    ∃ p ∈ role.permissionIDs.filterMap st.permissions.get, permissionMatches p.id permissionID

instance (roleID permissionID tenantID : String) :
    Decidable (st.RoleGrants roleID permissionID tenantID) :=
  inferInstanceAs (Decidable (∃ role ∈ st.roles.get roleID, _ ∧ ∃ p ∈ _, _ = true))

structure GrantsThrough (req : AccessRequest) (roleID : String) : Prop where
  listed : ∃ subject, st.subjects.get req.subjectID = some subject ∧ subject.isActive ∧
    roleID ∈ subject.roleIDs
  assigned : ∃ a ∈ st.assignments.rows, a.Gives req.subjectID roleID req.tenantID ∧ a.ValidAt now
  role : st.RoleGrants roleID req.permissionID req.tenantID

variable {valid : List Assignment} {permissionID : String} {roles : List Role}
  {applied : List String}

theorem checkRoles_isSome_iff : (st.checkRoles valid permissionID applied roles).isSome ↔
      ∃ role ∈ roles, (∃ a ∈ valid, a.roleID = role.id) ∧
        ∃ stored, st.roles.get role.id = some stored ∧
          ∃ p ∈ stored.permissionIDs.filterMap st.permissions.get,
            permissionMatches p.id permissionID := by
  induction roles generalizing applied with
  | nil => simp [checkRoles]
  | cons role roles ih =>
    simp only [exists_mem_cons_iff, checkRoles]
    split
    · next hvalid =>
      simp only [hvalid, true_and]
      unfold getRolePermissions
      cases hrole : st.roles.get role.id with
      | none => simp [ih]
      | some stored =>
        simp only [Option.some.injEq, exists_eq_left']
        cases hfind : (stored.permissionIDs.filterMap st.permissions.get).find?
            fun p => permissionMatches p.id permissionID with
        | none =>
          rw [ih]
          simp only [find?_eq_none] at hfind
          simp only [iff_or_self]
          rintro ⟨p, hp, hmatch⟩
          exact absurd hmatch (hfind p hp)
        | some p =>
          simp only [Option.isSome_some, true_iff]
          exact .inl ⟨p, mem_of_find?_eq_some hfind, by simpa using find?_some hfind⟩
    · next hvalid => simp [hvalid, ih]

theorem checkRoles_granted {r : AccessResponse}
    (h : st.checkRoles valid permissionID applied roles = some r) : r.granted = true := by
  revert h
  fun_induction checkRoles st valid permissionID applied roles with
  | case1 => nofun
  | case3 =>
    rintro ⟨⟩
    rfl
  | case2 | case4 | case5 => assumption

/-- A permission is granted exactly if it is granted through some role. -/
theorem checkPermission_granted_iff (req : AccessRequest) :
    (st.checkPermission now req).granted = true ↔ ∃ r, st.GrantsThrough now req r := by
  have hgetD : ∀ o : Option AccessResponse, (∀ r, o = some r → r.granted = true) →
      ∀ reason, ((o.getD (.denied reason)).granted = true ↔ o.isSome) := by
    rintro (_ | r) ho reason
    · simp [AccessResponse.denied]
    · simpa using ho r rfl
  unfold checkPermission getSubject getSubjectRoles
  cases hsubject : st.subjects.get req.subjectID with
  | none =>
    simp only [AccessResponse.denied, Bool.false_eq_true, false_iff, not_exists]
    rintro r ⟨⟨subject, hget, -⟩, -, -⟩
    rw [hsubject] at hget
    cases hget
  | some subject =>
    dsimp only
    split
    · next hactive =>
      rw [hgetD _ (fun r => st.checkRoles_granted), checkRoles_isSome_iff]
      constructor
      · rintro ⟨role, hrole, ⟨a, ha, hid⟩, stored, hstored, hperm⟩
        obtain ⟨hlisted, htenant⟩ := mem_filter.mp hrole
        obtain ⟨roleID, hmem, hget⟩ := mem_filterMap.mp hlisted
        obtain ⟨hrow, hkey⟩ := mem_filter.mp ha
        simp only [decide_eq_true_eq] at hkey htenant
        obtain rfl := (Table.get_eq_some_iff.mp hget).2
        cases hget.symm.trans hstored
        exact ⟨role.id, ⟨subject, hsubject, hactive, hmem⟩,
          ⟨a, hrow, ⟨hkey.1, hid, hkey.2.1⟩, hkey.2.2⟩, role, hget, htenant, hperm⟩
      · rintro ⟨roleID, ⟨subject', hget', -, hmem⟩, ⟨a, hrow, hgives, hvalid⟩, role, hget, htenant,
          hperm⟩
        cases hsubject.symm.trans hget'
        obtain rfl := (Table.get_eq_some_iff.mp hget).2
        refine ⟨role, ?_, ⟨a, ?_, hgives.2.1⟩, role, hget, hperm⟩
        · refine mem_filter.mpr ⟨mem_filterMap.mpr ⟨role.id, hmem, hget⟩, ?_⟩
          simpa using htenant
        · refine mem_filter.mpr ⟨hrow, ?_⟩
          simpa using ⟨hgives.1, hgives.2.2, hvalid⟩
    · next hinactive =>
      simp only [AccessResponse.denied, Bool.false_eq_true, false_iff, not_exists]
      rintro r ⟨⟨subject', hget, hactive, -⟩, -, -⟩
      cases hsubject.symm.trans hget
      exact hinactive hactive

end Store

end Cfgms.Rbac
