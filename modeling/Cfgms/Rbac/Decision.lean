import Cfgms.Machine.Runs
import Cfgms.Rbac.Store

/-! # Decisions against the history of assignments

A permission should be granted for an assignment that was made and not revoked. The store records
this twice, and revoking a role, recreating a subject or reusing an ID can set the two records
apart. Where no call does that, decisions are sound and complete.
-/

namespace Cfgms.Rbac

open List Ordered Table Store

/-- The calls that change roles, subjects and assignments. Subjects are created without roles. -/
inductive StoreCall where
  | createRole (role : Role)
  | updateRole (role : Role)
  | deleteRole (id : String)
  | createSubject (subject : Subject)
  | deleteSubject (id : String)
  | assignRole (uuid : String) (a : Assignment)
  | revokeRole (choice : ℕ) (subjectID roleID tenantID : String)

def StoreCall.apply (st : Store) (now : ℤ) : StoreCall → Except String Store
  | .createRole role => st.createRole now role
  | .updateRole role => st.updateRole now role
  | .deleteRole id => st.deleteRole id
  | .createSubject subject => st.createSubject now { subject with roleIDs := [] }
  | .deleteSubject id => st.deleteSubject id
  | .assignRole uuid a => st.assignRole now uuid a
  | .revokeRole choice s r t => st.revokeRole now choice s r t

/-- The assignments that stand after a call: one that is made is added, and revoking a role in
a tenant ends every assignment of it to the subject there. -/
def StoreCall.settle (standing : List Assignment) (now : ℤ) : StoreCall → List Assignment
  | .assignRole uuid a => standing ++ [Store.record now uuid a]
  | .revokeRole _ s r t => standing.filter fun a => ¬ a.Gives s r t
  | _ => standing

structure Tracked where
  store : Store
  standing : List Assignment

def tracked : Machine Tracked (ℤ × StoreCall) where
  step x c := (c.2.apply x.store c.1).toOption.map fun st => ⟨st, c.2.settle x.standing c.1⟩

def Tracked.start (permissions : Table Permission.id) : Tracked :=
  ⟨{ Store.new with permissions := permissions }, []⟩

/-- The subject has a standing assignment of a role that gives the permission. -/
def Tracked.Entitles (x : Tracked) (now : ℤ) (req : AccessRequest) : Prop :=
  (∃ subject, x.store.subjects.get req.subjectID = some subject ∧ subject.isActive) ∧
    ∃ a ∈ x.standing, a.subjectID = req.subjectID ∧ a.tenantID = req.tenantID ∧ a.ValidAt now ∧
      x.store.RoleGrants a.roleID req.permissionID req.tenantID

instance (x : Tracked) (now : ℤ) (req : AccessRequest) : Decidable (x.Entitles now req) :=
  inferInstanceAs (Decidable ((∃ subject ∈ x.store.subjects.get _, _ = true) ∧ ∃ a ∈ _, _))

/-- The call does not set the two records apart: an ID is not used twice, a subject is not
created while assignments name it, and a role is revoked while it is assigned once. -/
def keepsRecords (st : Store) : StoreCall → Bool
  | .assignRole uuid a => (st.assignments.get (Store.record 0 uuid a).id).isNone
  | .createSubject subject => st.assignments.rows.all fun a => a.subjectID ≠ subject.id
  | .revokeRole _ s r _ => st.AssignedOnce s r
  | _ => true

def KeepsRecords (x : Tracked) (c : ℤ × StoreCall) : Prop := keepsRecords x.store c.2

instance (x : Tracked) (c : ℤ × StoreCall) : Decidable (KeepsRecords x c) :=
  inferInstanceAs (Decidable (_ = true))

/-- The table has the standing assignments, and their roles are in the subjects' own lists. -/
structure Agree (x : Tracked) : Prop where
  stands : ∀ a, a ∈ x.store.assignments.rows ↔ a ∈ x.standing
  listed : ∀ a ∈ x.store.assignments.rows, ∀ subject,
    x.store.subjects.get a.subjectID = some subject → a.roleID ∈ subject.roleIDs

variable {x : Tracked}

section

variable (h : Agree x)
include h

theorem Agree.granted_iff (now : ℤ) (req : AccessRequest) :
    (x.store.checkPermission now req).granted = true ↔ x.Entitles now req := by
  rw [checkPermission_granted_iff]
  constructor
  · rintro ⟨r, ⟨subject, hget, hactive, -⟩, ⟨a, ha, ⟨hs, rfl, ht⟩, hvalid⟩, hrole⟩
    exact ⟨⟨subject, hget, hactive⟩, a, (h.stands a).mp ha, hs, ht, hvalid, hrole⟩
  · rintro ⟨⟨subject, hget, hactive⟩, a, ha, hs, ht, hvalid, hrole⟩
    have hrow := (h.stands a).mpr ha
    exact ⟨a.roleID, ⟨subject, hget, hactive, h.listed a hrow subject (hs ▸ hget)⟩,
      ⟨a, hrow, ⟨hs, rfl, ht⟩, hvalid⟩, hrole⟩

theorem Agree.congr {y : Tracked}
    (hassignments : y.store.assignments = x.store.assignments)
    (hsubjects : y.store.subjects = x.store.subjects) (hstanding : y.standing = x.standing) :
    Agree y := by
  constructor
  · rw [hassignments, hstanding]
    exact h.stands
  · rw [hassignments, hsubjects]
    exact h.listed

variable {st : Store} {now : ℤ}

theorem Agree.createSubject {subject : Subject}
    (hnew : ∀ a ∈ x.store.assignments.rows, a.subjectID ≠ subject.id)
    (hok : x.store.createSubject now subject = .ok st) : Agree ⟨st, x.standing⟩ := by
  obtain ⟨-, rfl⟩ := createSubject_eq_ok hok
  refine ⟨h.stands, fun a ha other hget => ?_⟩
  rw [get_store, if_neg (Ne.symm (hnew a ha))] at hget
  exact h.listed a ha other hget

theorem Agree.deleteSubject {id : String}
    (hok : x.store.deleteSubject id = .ok st) : Agree ⟨st, x.standing⟩ := by
  obtain rfl := deleteSubject_eq_ok hok
  refine ⟨h.stands, fun a ha subject hget => h.listed a ha subject ?_⟩
  obtain ⟨hrow, hkey⟩ := get_eq_some_iff.mp hget
  exact get_eq_some_iff.mpr ⟨(mem_erase.mp hrow).1, hkey⟩

theorem Agree.assignRole {uuid : String} {a : Assignment}
    (hnew : x.store.assignments.get (Store.record now uuid a).id = none)
    (hok : x.store.assignRole now uuid a = .ok st) :
    Agree ⟨st, x.standing ++ [Store.record now uuid a]⟩ := by
  obtain ⟨subject, role, hsubject, -, rfl⟩ := assignRole_eq_ok hok
  obtain ⟨-, hid⟩ := get_eq_some_iff.mp hsubject
  have hother : ∀ b ∈ x.store.assignments.rows, b.id ≠ (Store.record now uuid a).id := by
    intro b hb hkey
    rw [← hkey, mem_rows_iff.mp hb] at hnew
    cases hnew
  constructor
  · intro b
    rw [mem_store_iff, mem_append, mem_singleton, ← h.stands b]
    constructor
    · rintro (hb | ⟨hb, -⟩)
      · exact .inr hb
      · exact .inl hb
    · rintro (hb | hb)
      · exact .inr ⟨hb, hother b hb⟩
      · exact .inl hb
  · intro b hb other hget
    rw [get_store] at hget
    split at hget
    · next hkey =>
      cases hget
      rcases mem_store_iff.mp hb with rfl | ⟨hb, -⟩
      · simp [Store.record]
      · have hkept := h.listed b hb subject (hkey ▸ hid.symm ▸ hsubject)
        exact mem_append_left _ hkept
    · next hkey =>
      rcases mem_store_iff.mp hb with rfl | ⟨hb, -⟩
      · exact absurd hid hkey
      · exact h.listed b hb other hget

theorem Agree.revokeRole {choice : ℕ} {s r t : String} (honce : x.store.AssignedOnce s r)
    (hok : x.store.revokeRole now choice s r t = .ok st) :
    Agree ⟨st, x.standing.filter fun a => ¬ a.Gives s r t⟩ := by
  obtain ⟨a, ha, hgives, rfl⟩ := revokeRole_eq_ok hok
  -- the assignment that is removed is the only one of the role to the subject
  have honly : ∀ b ∈ x.store.assignments.rows, b.subjectID = s → b.roleID = r → b = a := by
    intro b hb hbs hbr
    exact honce.eq hb ha ⟨hbs, hbr⟩ ⟨hgives.1, hgives.2.1⟩
  constructor
  · intro b
    rw [mem_erase, List.mem_filter, ← h.stands b]
    refine and_congr_right fun hb => ?_
    simp only [decide_eq_true_eq]
    refine not_congr ⟨fun hkey => ?_, fun hb' => ?_⟩
    · rw [inj_on_of_nodup_map x.store.assignments.nodup hb ha hkey]
      exact hgives
    · rw [honly b hb hb'.1 hb'.2.1]
  · intro b hb subject hget
    obtain ⟨hb, hne⟩ := mem_erase.mp hb
    rw [get_dropRole] at hget
    split at hget
    · next hkey =>
      obtain ⟨old, hold, rfl⟩ := Option.map_eq_some_iff.mp hget
      refine List.mem_filter.mpr ⟨h.listed b hb old (hkey ▸ hold), ?_⟩
      simp only [decide_eq_true_eq]
      intro hrole
      exact hne (congrArg Assignment.id (honly b hb hkey.symm hrole))
    · exact h.listed b hb subject hget

theorem Agree.step {y : Tracked} {c : ℤ × StoreCall} (hkeeps : KeepsRecords x c)
    (hstep : tracked.step x c = some y) : Agree y := by
  obtain ⟨st, hok, rfl⟩ := Option.map_eq_some_iff.mp hstep
  obtain ⟨now, call⟩ := c
  replace hok : call.apply x.store now = .ok st := by
    cases hresult : call.apply x.store now with
    | error err => simp [hresult, Except.toOption] at hok
    | ok st' => simpa [hresult, Except.toOption] using hok
  unfold KeepsRecords keepsRecords at hkeeps
  cases call with
  | createRole role =>
    obtain ⟨-, rfl⟩ := createRole_eq_ok hok
    exact h.congr rfl rfl rfl
  | updateRole role =>
    obtain ⟨-, -, -, -, -, rfl⟩ := updateRole_eq_ok hok
    exact h.congr rfl rfl rfl
  | deleteRole id =>
    obtain ⟨-, rfl⟩ := deleteRole_eq_ok hok
    exact h.congr rfl rfl rfl
  | createSubject subject =>
    refine h.createSubject ?_ hok
    simpa using hkeeps
  | deleteSubject id => exact h.deleteSubject hok
  | assignRole uuid a =>
    refine h.assignRole ?_ hok
    simpa [Store.record] using hkeeps
  | revokeRole choice s r t =>
    refine h.revokeRole ?_ hok
    exact of_decide_eq_true hkeeps

end

theorem granted_iff_standing (permissions : Table Permission.id) (calls : List (ℤ × StoreCall))
    (hkeeps : tracked.Guarded KeepsRecords (Tracked.start permissions) calls) {x : Tracked}
    (hrun : tracked.run (Tracked.start permissions) calls = some x) (now : ℤ)
    (req : AccessRequest) :
    (x.store.checkPermission now req).granted = true ↔ x.Entitles now req := by
  have hstart : Agree (Tracked.start permissions) := by
    constructor
    · exact fun a => Iff.rfl
    · exact fun a ha => absurd ha not_mem_nil
  exact (tracked.run_invariant (fun s a s' hs ha hstep => hs.step ha hstep) calls _ _ hstart hkeeps
    hrun).granted_iff now req

def operator : Role where
  id := "operator"
  name := "Operator"
  permissionIDs := ["steward.run"]
  tenantID := ""
  parentRoleID := ""
  childRoleIDs := []
  inheritanceType := .none
  isSystemRole := true
  createdAt := 0
  updatedAt := 0

def stewardRun : Table Permission.id := Table.empty.store ⟨"steward.run", "Run commands"⟩

def assignTwice : List (ℤ × StoreCall) := [
  (1, .createRole operator),
  (2, .createSubject ⟨"alice", "east", [], true, 0, 0⟩),
  (3, .assignRole "uuid-1" ⟨"", "alice", "operator", "east", 0, 0⟩),
  (4, .assignRole "uuid-2" ⟨"", "alice", "operator", "west", 0, 0⟩)]

def runInWest : AccessRequest := ⟨"alice", "steward.run", "west"⟩

/-- The role is revoked in one tenant, and assigned in another one afterwards. -/
def moved : List (ℤ × StoreCall) := [
  (1, .createRole operator),
  (2, .createSubject ⟨"alice", "east", [], true, 0, 0⟩),
  (3, .assignRole "uuid-1" ⟨"", "alice", "operator", "east", 0, 0⟩),
  (4, .revokeRole 0 "alice" "operator" "east"),
  (5, .assignRole "uuid-2" ⟨"", "alice", "operator", "west", 0, 0⟩)]

theorem granted_iff_standing_moved :
    ∃ x, tracked.run (Tracked.start stewardRun) moved = some x ∧ x.Entitles 6 runInWest ∧
      ¬ x.Entitles 6 { runInWest with tenantID := "east" } := by
  refine exists_some_of_any (P := fun x => (x.store.checkPermission 6 runInWest).granted = true ∧
    ¬ (x.store.checkPermission 6 { runInWest with tenantID := "east" }).granted = true)
    (by decide +kernel) fun x hx => ?_
  rw [granted_iff_standing stewardRun moved (by decide +kernel) hx,
    granted_iff_standing stewardRun moved (by decide +kernel) hx]
  exact id

/-- Revoking the role in one tenant takes away the access that the other assignment gives. -/
theorem revoked_elsewhere_denied :
    ¬ ∀ (permissions : Table Permission.id) (calls : List (ℤ × StoreCall)) (x : Tracked),
      tracked.run (Tracked.start permissions) calls = some x → ∀ now req,
        ((x.store.checkPermission now req).granted = true ↔ x.Entitles now req) := by
  intro h
  have hwrong : ∃ x ∈ tracked.run (Tracked.start stewardRun)
      (assignTwice ++ [(5, .revokeRole 0 "alice" "operator" "east")]),
      (x.store.checkPermission 6 runInWest).granted = false ∧ x.Entitles 6 runInWest := by
    decide +kernel
  obtain ⟨x, hx, hdenied, hentitled⟩ := hwrong
  have hgranted := (h _ _ x hx 6 runInWest).mpr hentitled
  rw [hdenied] at hgranted
  cases hgranted

end Cfgms.Rbac
