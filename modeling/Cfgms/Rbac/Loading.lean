import Cfgms.Rbac.Manager

/-! # What a load brings back

The store that a manager starts with has the permissions, the roles and the subjects of the
persistent store, and of its assignments those whose subject and role exist.
-/

namespace Cfgms.Rbac

open Ordered List Table Option

def Role.grants (r : Role) : List String × String × Bool :=
  (r.permissionIDs, r.tenantID, r.isSystemRole)

/-- What a decision and a check read of a subject, apart from its list of roles. -/
def Subject.core (s : Subject) : String × Bool := (s.tenantID, s.isActive)

namespace Store

variable {st st' : Store} {now : ℤ}

variable {a : Assignment}

theorem get_subjects_assignRole {uuid : String}
    (h : st.assignRole now uuid a = .ok st') (id : String) :
    st'.subjects.get id = if a.subjectID = id then (st.subjects.get id).map fun subject =>
      { subject with roleIDs := subject.roleIDs ++ [a.roleID], updatedAt := now }
      else st.subjects.get id := by
  obtain ⟨subject, role, hsubject, -, rfl⟩ := assignRole_eq_ok h
  obtain ⟨-, hid⟩ := get_eq_some_iff.mp hsubject
  refine (get_store id).trans ?_
  rw [hid]
  split
  · next heq => rw [← heq, hsubject, map_some, hid]
  · rfl

theorem tenantOf_assignRole {uuid : String}
    (h : st.assignRole now uuid a = .ok st') : st'.tenantOf = st.tenantOf := by
  funext id
  unfold tenantOf
  rw [get_subjects_assignRole h]
  split
  · rw [Option.map_map]
    rfl
  · rfl

theorem Lists.of_assignRole {uuid : String} {s r : String}
    (h : st.assignRole now uuid a = .ok st') (hlists : st'.Lists s r) :
    st.Lists s r ∨ a.subjectID = s ∧ a.roleID = r := by
  obtain ⟨subject, hget, hmem⟩ := hlists
  rw [get_subjects_assignRole h] at hget
  split at hget
  · next hkey =>
    obtain ⟨old, hold, rfl⟩ := map_eq_some_iff.mp hget
    rcases mem_append.mp hmem with hmem | hmem
    · exact .inl ⟨old, hold, hmem⟩
    · exact .inr ⟨hkey, (mem_singleton.mp hmem).symm⟩
  · exact .inl ⟨subject, hget, hmem⟩

variable {choice : ℕ}

theorem tenantOf_revokeRole {s r t : String}
    (h : st.revokeRole now choice s r t = .ok st') : st'.tenantOf = st.tenantOf := by
  obtain ⟨a, -, -, rfl⟩ := revokeRole_eq_ok h
  funext id
  unfold tenantOf
  rw [get_dropRole]
  split
  · next heq => rw [heq, Option.map_map]; rfl
  · rfl

theorem Lists.of_revokeRole {s r t s' r' : String}
    (h : st.revokeRole now choice s' r' t = .ok st') (hlists : st'.Lists s r) :
    st.Lists s r ∧ ¬ (s' = s ∧ r' = r) := by
  obtain ⟨a, -, -, rfl⟩ := revokeRole_eq_ok h
  obtain ⟨subject, hget, hmem⟩ := hlists
  rw [get_dropRole] at hget
  split at hget
  · next hkey =>
    obtain ⟨old, hold, rfl⟩ := map_eq_some_iff.mp hget
    obtain ⟨hmem, hne⟩ := mem_filter.mp hmem
    refine ⟨⟨old, hkey ▸ hold, hmem⟩, fun heq => ?_⟩
    exact of_decide_eq_true hne heq.2.symm
  · next hkey => exact ⟨⟨subject, hget, hmem⟩, fun heq => hkey heq.1⟩

theorem exists_revokeRole (now : ℤ) (choice : ℕ) {s r t : String}
    (hnamed : ∀ a ∈ st.assignments.rows, a.id ≠ "")
    (h : ∃ a ∈ st.assignments.rows, a.Gives s r t) :
    ∃ st', st.revokeRole now choice s r t = .ok st' := by
  obtain ⟨a, ha, hgives⟩ := h
  have hfound : a ∈ st.matching s r t := mem_filter.mpr ⟨ha, decide_eq_true hgives⟩
  have hpos : 0 < (st.matching s r t).length := length_pos_of_mem hfound
  have hlt := Nat.mod_lt choice hpos
  unfold revokeRole
  dsimp only
  rw [getElem?_eq_getElem hlt]
  dsimp only
  rw [if_neg]
  · exact ⟨_, rfl⟩
  · exact hnamed _ (mem_filter.mp (getElem_mem hlt)).1

variable {P : Store → Prop}

theorem orKeep_rule {result : Except String Store} (h : P st)
    (hok : ∀ st', result = .ok st' → P st') : P (st.orKeep result) := by
  cases result with
  | error err => exact h
  | ok st' => exact hok st' rfl

theorem foldl_orKeep_rule {α : Type} {f : Store → α → Except String Store}
    (hstep : ∀ st x st', P st → f st x = .ok st' → P st') (xs : List α) (h : P st) :
    P (xs.foldl (fun st x => st.orKeep (f st x)) st) := by
  induction xs generalizing st with
  | nil => exact h
  | cons x xs ih => exact ih (orKeep_rule h fun st' hok => hstep st x st' h hok)

theorem modifyRole_roles {id : String} {f : Role → Role} {hf : ∀ r, (f r).id = r.id}
    (hgrants : ∀ r, (f r).grants = r.grants) (k : String) :
    ((st.modifyRole id f hf).roles.get k).map Role.grants = (st.roles.get k).map Role.grants := by
  unfold modifyRole
  rw [get_update, Option.map_map]
  congr 1
  funext r
  dsimp
  split
  · exact hgrants r
  · rfl

theorem grants_withChild (r : Role) (now : ℤ) (childID : String) :
    (r.withChild now childID).grants = r.grants := by
  unfold Role.withChild
  split <;> rfl

structure SameButRoles (st st' : Store) : Prop where
  permissions : st'.permissions = st.permissions
  subjects : st'.subjects = st.subjects
  assignments : st'.assignments = st.assignments

variable (roles : List Role)

theorem enterParents (st : Store) : let st' := roles.foldl (fun st r =>
      if r.parentRoleID = "" then st
      else st.modifyRole r.parentRoleID (fun q => q.withChild q.updatedAt r.id)
        fun q => q.id_withChild q.updatedAt r.id) st
    SameButRoles st st' ∧
      ∀ k, (st'.roles.get k).map Role.grants = (st.roles.get k).map Role.grants := by
  induction roles generalizing st with
  | nil => exact ⟨⟨rfl, rfl, rfl⟩, fun _ => rfl⟩
  | cons r roles ih =>
    rw [foldl_cons]
    split
    · exact ih st
    obtain ⟨⟨hp, hs, ha⟩, hroles⟩ := ih (st.modifyRole r.parentRoleID
      (fun q => q.withChild q.updatedAt r.id) fun q => q.id_withChild q.updatedAt r.id)
    refine ⟨⟨hp, hs, ha⟩, fun k => ?_⟩
    rw [hroles k]
    exact modifyRole_roles (fun q => grants_withChild q q.updatedAt r.id) k

theorem sameButRoles_loadRoles : SameButRoles st (st.loadRoles now roles) := by
  obtain ⟨⟨hp, hs, ha⟩, -⟩ := enterParents roles { st with
    roles := roles.foldl (fun t r => t.store { r with createdAt := now, updatedAt := now })
      st.roles }
  exact ⟨hp, hs, ha⟩

theorem grants_loadRoles (k : String) : ((st.loadRoles now roles).roles.get k).map Role.grants =
      ((roles.foldl (fun t r => t.store { r with createdAt := now, updatedAt := now })
        st.roles).get k).map Role.grants :=
  (enterParents roles _).2 k

theorem get_createSubjects {subjects : List Subject} (hnodup : (subjects.map Subject.id).Nodup)
    (hnew : ∀ s ∈ subjects, st.subjects.get s.id = none) (k : String) :
    let st' := subjects.foldl (fun st s => st.orKeep (st.createSubject now s)) st
    st'.subjects.get k = ((subjects.find? fun s => s.id = k).map fun s =>
      { s with createdAt := now, updatedAt := now }).or (st.subjects.get k) := by
  have hfold : ∀ (xs : List Subject) (st : Store), (xs.map Subject.id).Nodup →
      (∀ s ∈ xs, st.subjects.get s.id = none) →
      (xs.foldl (fun st s => st.orKeep (st.createSubject now s)) st).subjects =
        xs.foldl (fun t s => t.store { s with createdAt := now, updatedAt := now })
          st.subjects := by
    intro xs
    induction xs with
    | nil => exact fun _ _ _ => rfl
    | cons s xs ih =>
      intro st hnodup hnew
      rw [map_cons, nodup_cons] at hnodup
      have hcreate : st.orKeep (st.createSubject now s) = { st with
          subjects := st.subjects.store { s with createdAt := now, updatedAt := now } } := by
        unfold createSubject
        rw [hnew s mem_cons_self, if_neg (by simp)]
        rfl
      rw [foldl_cons, foldl_cons, hcreate, ih _ hnodup.2]
      intro q hq
      rw [get_store, if_neg]
      · exact hnew q (mem_cons_of_mem s hq)
      · intro hkey
        exact hnodup.1 (hkey ▸ mem_map_of_mem hq)
  dsimp only
  rw [hfold subjects st hnodup hnew]
  exact get_foldl_store (g := fun s : Subject => { s with createdAt := now, updatedAt := now })
    (fun _ => rfl) hnodup k

variable (p : Store) (now : ℤ) (uuid : String)

def loadedSubjects : Store :=
  p.subjects.rows.foldl (fun st s => st.orKeep (st.createSubject now s))
    ((Store.new.loadPermissions p.permissions.rows).loadRoles now p.roles.rows)

theorem loadFromPersistentStorage_eq : p.loadFromPersistentStorage now uuid =
    p.assignments.rows.foldl (fun st a => st.orKeep (st.assignRole now uuid a))
      (p.loadedSubjects now) := rfl

theorem assignments_loadedSubjects : (p.loadedSubjects now).assignments = .empty := by
  apply foldl_orKeep_rule (P := fun st => st.assignments = .empty)
  · intro st s st' h hok
    obtain ⟨-, rfl⟩ := createSubject_eq_ok hok
    exact h
  · exact (sameButRoles_loadRoles p.roles.rows).assignments

/-- Decisions find the same permissions, roles and subjects in a store as in the persistent
one, apart from the roles that the subjects have. -/
structure Restores (p st : Store) : Prop where
  permissions : ∀ k, st.permissions.get k = p.permissions.get k
  roles : ∀ k, (st.roles.get k).map Role.grants = (p.roles.get k).map Role.grants
  subjects : ∀ k, (st.subjects.get k).map Subject.core = (p.subjects.get k).map Subject.core

theorem core_loadedSubjects (k : String) :
    ((p.loadedSubjects now).subjects.get k).map Subject.core =
      (p.subjects.get k).map Subject.core := by
  have hsubjects : ((Store.new.loadPermissions p.permissions.rows).loadRoles now
      p.roles.rows).subjects = .empty := (sameButRoles_loadRoles p.roles.rows).subjects
  unfold loadedSubjects
  rw [get_createSubjects p.subjects.nodup]
  · simp [hsubjects, Table.get, Table.empty, Function.comp_def, Subject.core]
    rfl
  · intro s _
    rw [hsubjects]
    rfl

theorem restores_loadedSubjects : p.Restores (p.loadedSubjects now) := by
  have hrest : (∀ k, (p.loadedSubjects now).permissions.get k = p.permissions.get k) ∧
      ∀ k, ((p.loadedSubjects now).roles.get k).map Role.grants =
        (p.roles.get k).map Role.grants := by
    apply foldl_orKeep_rule (P := fun st => (∀ k, st.permissions.get k = p.permissions.get k) ∧
      ∀ k, (st.roles.get k).map Role.grants = (p.roles.get k).map Role.grants)
    · intro st s st' h hok
      obtain ⟨-, rfl⟩ := createSubject_eq_ok hok
      exact h
    constructor
    · intro k
      rw [(sameButRoles_loadRoles p.roles.rows).permissions]
      refine (get_foldl_store (g := id) (fun _ => rfl) p.permissions.nodup k).trans ?_
      simp [Table.get, Store.new, Table.empty]
    · intro k
      rw [grants_loadRoles]
      refine (congrArg (Option.map Role.grants) (get_foldl_store
        (g := fun r : Role => { r with createdAt := now, updatedAt := now })
        (fun _ => rfl) p.roles.nodup k)).trans ?_
      simp [Table.get, Store.new, loadPermissions, Table.empty, Function.comp_def, Role.grants]
      rfl
  exact ⟨hrest.1, hrest.2, p.core_loadedSubjects now⟩

theorem Restores.assignRole {uuid : String} (h : p.Restores st)
    (hok : st.assignRole now uuid a = .ok st') : p.Restores st' := by
  have hcore : ∀ k, (st'.subjects.get k).map Subject.core =
      (st.subjects.get k).map Subject.core := by
    intro k
    rw [get_subjects_assignRole hok]
    split
    · rw [Option.map_map]
      rfl
    · rfl
  obtain ⟨_, _, _, _, rfl⟩ := assignRole_eq_ok hok
  exact ⟨h.permissions, h.roles, fun k => (hcore k).trans (h.subjects k)⟩

theorem restores_load : p.Restores (p.loadFromPersistentStorage now uuid) := by
  exact foldl_orKeep_rule (fun _ _ _ h hok => h.assignRole p now hok) _
    (p.restores_loadedSubjects now)

theorem tenantOf_load (id : String) :
    (p.loadFromPersistentStorage now uuid).tenantOf id = p.tenantOf id := by
  have hcore := congrArg (Option.map Prod.fst) ((p.restores_load now uuid).subjects id)
  rw [Option.map_map, Option.map_map] at hcore
  exact hcore

variable {p now uuid}

variable {b : Assignment}

theorem mem_orKeep_assignRole
    (hb : b ∈ (st.orKeep (st.assignRole now uuid a)).assignments.rows) :
    b ∈ st.assignments.rows ∨ b = record now uuid a := by
  cases hok : st.assignRole now uuid a with
  | error err => exact .inl (by simpa [orKeep, hok, Except.toOption] using hb)
  | ok st' =>
    rw [hok] at hb
    obtain ⟨_, _, _, _, rfl⟩ := assignRole_eq_ok hok
    exact (mem_store hb).symm

theorem of_mem_load
    (hb : b ∈ (p.loadFromPersistentStorage now uuid).assignments.rows) :
    ∃ a ∈ p.assignments.rows, b = record now uuid a := by
  have hfold : ∀ (xs : List Assignment) (st : Store),
      ∀ b ∈ (xs.foldl (fun st a => st.orKeep (st.assignRole now uuid a)) st).assignments.rows,
        b ∈ st.assignments.rows ∨ ∃ a ∈ xs, b = record now uuid a := by
    intro xs
    induction xs with
    | nil => exact fun st b hb => .inl hb
    | cons a xs ih =>
      intro st b hb
      rcases ih _ b hb with hb | ⟨a', ha', rfl⟩
      · rcases mem_orKeep_assignRole hb with hb | rfl
        · exact .inl hb
        · exact .inr ⟨a, mem_cons_self, rfl⟩
      · exact .inr ⟨a', mem_cons_of_mem a ha', rfl⟩
  rw [loadFromPersistentStorage_eq] at hb
  rcases hfold _ _ b hb with hb | hb
  · rw [p.assignments_loadedSubjects now] at hb
    cases hb
  · exact hb

theorem Lists.assignRole {s r : String} (h : st.Lists s r)
    (hok : st.assignRole now uuid a = .ok st') : st'.Lists s r := by
  obtain ⟨subject, hget, hmem⟩ := h
  unfold Lists
  rw [get_subjects_assignRole hok, hget]
  split
  · exact ⟨_, rfl, mem_append_left _ hmem⟩
  · exact ⟨subject, rfl, hmem⟩

theorem Restores.exists_assignRole (h : p.Restores st) (now : ℤ) (uuid : String)
    (hs : (p.subjects.get a.subjectID).isSome) (hr : (p.roles.get a.roleID).isSome) :
    ∃ st', st.assignRole now uuid a = .ok st' ∧ record now uuid a ∈ st'.assignments.rows ∧
      st'.Lists a.subjectID a.roleID := by
  have hs' : (st.subjects.get a.subjectID).isSome := by
    rw [← isSome_map (f := Subject.core), h.subjects, isSome_map]
    exact hs
  have hr' : (st.roles.get a.roleID).isSome := by
    rw [← isSome_map (f := Role.grants), h.roles, isSome_map]
    exact hr
  obtain ⟨subject, hsubject⟩ := isSome_iff_exists.mp hs'
  obtain ⟨role, hrole⟩ := isSome_iff_exists.mp hr'
  have hok : ∃ st', st.assignRole now uuid a = .ok st' := by
    unfold Store.assignRole
    simp [hsubject, hrole]
  obtain ⟨st', hok⟩ := hok
  refine ⟨st', hok, ?_, ?_⟩
  · obtain ⟨_, _, _, _, rfl⟩ := assignRole_eq_ok hok
    exact mem_store_iff.mpr (.inl rfl)
  · unfold Lists
    rw [get_subjects_assignRole hok, if_pos rfl, hsubject]
    exact ⟨_, rfl, mem_append_right _ (mem_singleton.mpr rfl)⟩

theorem kept_by_assignments {xs : List Assignment} (hb : b ∈ st.assignments.rows)
    (hlists : st.Lists b.subjectID b.roleID) (hother : ∀ a ∈ xs, (record now uuid a).id ≠ b.id) :
    let st' := xs.foldl (fun st a => st.orKeep (st.assignRole now uuid a)) st
    b ∈ st'.assignments.rows ∧ st'.Lists b.subjectID b.roleID := by
  induction xs generalizing st with
  | nil => exact ⟨hb, hlists⟩
  | cons a xs ih =>
    obtain ⟨ha, hxs⟩ := forall_mem_cons.mp hother
    have hstep : b ∈ (st.orKeep (st.assignRole now uuid a)).assignments.rows ∧
        (st.orKeep (st.assignRole now uuid a)).Lists b.subjectID b.roleID := by
      apply orKeep_rule (P := fun st => b ∈ st.assignments.rows ∧ st.Lists b.subjectID b.roleID)
      · exact ⟨hb, hlists⟩
      · intro st' hok
        refine ⟨?_, hlists.assignRole hok⟩
        obtain ⟨_, _, _, _, rfl⟩ := assignRole_eq_ok hok
        exact mem_store_iff.mpr (.inr ⟨hb, Ne.symm ha⟩)
    exact ih hstep.1 hstep.2 hxs

/-- An assignment whose subject and role exist is loaded. -/
theorem mem_load (now : ℤ) (uuid : String) (hnamed : ∀ a ∈ p.assignments.rows, a.id ≠ "")
    (ha : a ∈ p.assignments.rows) (hs : (p.subjects.get a.subjectID).isSome)
    (hr : (p.roles.get a.roleID).isSome) :
    record now uuid a ∈ (p.loadFromPersistentStorage now uuid).assignments.rows ∧
      (p.loadFromPersistentStorage now uuid).Lists a.subjectID a.roleID := by
  have hid : ∀ b ∈ p.assignments.rows, (record now uuid b).id = b.id := by
    intro b hb
    simp [record, hnamed b hb]
  obtain ⟨before, after, hsplit⟩ := append_of_mem ha
  rw [loadFromPersistentStorage_eq, hsplit, foldl_append, foldl_cons]
  have hrestores : p.Restores (before.foldl (fun st a => st.orKeep (st.assignRole now uuid a))
      (p.loadedSubjects now)) :=
    foldl_orKeep_rule (fun _ _ _ h hok => h.assignRole p now hok) _ (p.restores_loadedSubjects now)
  obtain ⟨st', hok, hmem, hlists⟩ := hrestores.exists_assignRole now uuid hs hr
  rw [hok]
  refine kept_by_assignments hmem hlists fun b hb => ?_
  have hnodup := p.assignments.nodup
  rw [hsplit, map_append, map_cons] at hnodup
  have hb' : b ∈ p.assignments.rows := by simp [hsplit, hb]
  rw [hid a ha, hid b hb']
  intro heq
  have := nodup_middle.mp hnodup
  rw [nodup_cons] at this
  exact this.1 (mem_append_right _ (heq ▸ mem_map_of_mem hb))

end Store

/-- A manager started on a persistent store that has no assignments yet. -/
def startWithout (ctx : Context) (p : Store) : Manager :=
  .fresh ctx { p with assignments := .empty }

def eastOffice : Store where
  permissions := Table.empty.store ⟨"steward.run", "Run commands"⟩
  roles := Table.empty.store
    ⟨"operator", "Operator", ["steward.run"], "", "", [], .none, true, 0, 0⟩
  subjects := Table.empty.store ⟨"alice", "east", [], true, 0, 0⟩
  assignments := .empty

end Cfgms.Rbac
