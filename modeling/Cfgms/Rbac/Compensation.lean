import Cfgms.Rbac.Hierarchy

/-! # Changes that fail

When the persistent store refuses a change, the manager tries to undo it in memory. A creation is
undone by a deletion and an assignment by a revocation; an update, a deletion and a revocation
stay in memory.
-/

namespace Cfgms.Rbac

open Ordered Table

structure Store.Same (st st' : Store) : Prop where
  permissions : ∀ id, st.permissions.get id = st'.permissions.get id
  roles : ∀ id, st.roles.get id = st'.roles.get id
  subjects : ∀ id, st.subjects.get id = st'.subjects.get id
  assignments : ∀ id, st.assignments.get id = st'.assignments.get id

/-- The changes of roles, subjects and assignments that go to both stores. -/
def Call.WritesThrough : Call → Prop
  | .createRole _ | .updateRole _ | .deleteRole _ | .createSubject _ | .assignRole _
  | .revokeRole _ _ _ => True
  | _ => False

/-- The call is refused before it gets to the persistent store. -/
def Refused (m : Manager) (ctx : Context) : Call → Prop
  | .createRole role =>
      (validateSensitiveOperation "create_role" ctx.justification).isSome = true ∨
        (m.checkParent role).isSome = true ∨ (m.store.roles.get role.id).isSome = true
  | .updateRole role =>
      (validateSensitiveOperation "modify_role" ctx.justification).isSome = true ∨
        (m.store.updateRole ctx.unix role).isOk = false
  | .deleteRole id =>
      (validateSensitiveOperation "delete_role" ctx.justification).isSome = true ∨
        (m.store.deleteRole id).isOk = false
  | .createSubject subject => (m.store.subjects.get subject.id).isSome = true
  | .assignRole a =>
      (validateSensitiveOperation "assign_role" ctx.justification).isSome = true ∨
        (m.checkRapidEscalationProtection ctx a.subjectID a.roleID).isSome = true ∨
        (m.checkCrossTenantEscalationProtection ctx a.subjectID a.tenantID).isSome = true ∨
        (m.store.subjects.get a.subjectID).isNone = true ∨
        (m.store.roles.get a.roleID).isNone = true
  | .revokeRole s r t =>
      (validateSensitiveOperation "revoke_role" ctx.justification).isSome = true ∨
        (m.store.revokeRole ctx.unix ctx.choice s r t).isOk = false
  | _ => True

/-- The persistent store takes the change. A deletion asks for a role that it has. -/
def Accepted (m : Manager) (ctx : Context) : Call → Prop
  | .deleteRole id => ctx.failure = none ∧ (m.rbacStore.roles.get id).isSome = true
  | _ => ctx.failure = none

/-- What the undo of an assignment takes off is the new assignment, which the iteration over the
map comes to first, and nothing that was there before. The subject was last changed in the second
of the call. -/
structure TakenBack (st : Store) (ctx : Context) (a : Assignment) : Prop where
  first : ctx.choice % ((st.matching a.subjectID a.roleID a.tenantID).length + 1) =
    (st.matching a.subjectID a.roleID a.tenantID).length
  unused : st.assignments.get (Store.record ctx.unix ctx.uuid a).id = none
  unlisted : ∀ subject, st.subjects.get a.subjectID = some subject →
    a.roleID ∉ subject.roleIDs ∧ subject.updatedAt = ctx.unix

/-- The undo gives back what was there. An update, which has none, must have changed nothing. -/
def Restored (m : Manager) (ctx : Context) : Call → Prop
  | .createRole role => role.isSystemRole = false
  | .updateRole role => ∃ existing, m.store.roles.get role.id = some existing ∧
      existing = { role with
        createdAt := if role.createdAt = 0 then existing.createdAt else role.createdAt
        updatedAt := ctx.unix }
  | .createSubject _ => True
  | .assignRole a => TakenBack m.store ctx a
  | _ => False

/-- If the call failed, the store in memory is as before. -/
def Leaves (m : Manager) (result : Manager × Option String) : Prop :=
  result.2 ≠ none → result.1.store.Same m.store

variable {m : Manager} {ctx : Context} {st st' : Store}

namespace Leaves

theorem refused {m' : Manager} {err : String} (h : m'.store = m.store) :
    Leaves m (m', some err) := by
  intro _
  rw [h]
  exact ⟨fun _ => rfl, fun _ => rfl, fun _ => rfl, fun _ => rfl⟩

theorem sensitive_iff {operation : String} {call : Manager × Option String} :
    Leaves m (m.sensitive ctx operation call) ↔
      (validateSensitiveOperation operation ctx.justification).isSome = true ∨ Leaves m call := by
  unfold Manager.sensitive
  cases validateSensitiveOperation operation ctx.justification with
  | some err => exact iff_of_true (refused rfl) (.inl rfl)
  | none => simp

theorem writeThrough_iff {labels : Manager.Labels} {change write undo : Store → Except String Store}
    {P : Prop} (hundo : ∀ st, change m.store = .ok st → ((st.orKeep (undo st)).Same m.store ↔ P)) :
    Leaves m (m.writeThrough ctx labels change write undo) ↔
      (change m.store).isOk = false ∨ (ctx.attempt (write m.rbacStore)).isOk = true ∨ P := by
  unfold Manager.writeThrough
  cases hchange : change m.store with
  | error err => exact iff_of_true (refused rfl) (.inl rfl)
  | ok st =>
    cases ctx.attempt (write m.rbacStore) with
    | error err => simpa [Leaves, Except.isOk, Except.toBool] using hundo st hchange
    | ok p => exact iff_of_true (fun h => absurd rfl h) (.inr (.inl rfl))

theorem recordSuccess_iff {operation : OperationRecord} {result : Manager × Option String} :
    Leaves m (Manager.recordSuccess operation result) ↔ Leaves m result := by
  rcases result with ⟨m', _ | err⟩
  · exact iff_of_true (fun h => absurd rfl h) fun h => absurd rfl h
  · rfl

end Leaves

theorem isOk_attempt {result : Except String Store} :
    (ctx.attempt result).isOk = true ↔ ctx.failure = none ∧ result.isOk = true := by
  unfold Context.attempt
  cases ctx.failure <;> simp [Except.isOk, Except.toBool]

theorem get_erase_store {α : Type} {key : α → String} {t : Table key} {r : α}
    (hnew : t.get (key r) = none) (k : String) : ((t.store r).erase (key r)).get k = t.get k := by
  rw [get_erase, get_store]
  split
  · next heq => rw [← heq, hnew]
  · rfl

theorem get_store_eq_iff {α : Type} {key : α → String} {t : Table key} {r : α} :
    (∀ k, (t.store r).get k = t.get k) ↔ t.get (key r) = some r := by
  constructor
  · intro h
    rw [← h, get_store, if_pos rfl]
  · intro h k
    rw [get_store]
    split
    · next heq => rw [← heq, h]
    · rfl

theorem createRole_undone_iff {role : Role} {now : ℤ} (h : st.createRole now role = .ok st') :
    (st'.orKeep (st'.deleteRole role.id)).Same st ↔ role.isSystemRole = false := by
  obtain ⟨hnew, rfl⟩ := Store.createRole_eq_ok h
  cases hsystem : role.isSystemRole with
  | true =>
    -- the deletion is refused, and the role stays
    refine iff_of_false (fun hsame => ?_) Bool.noConfusion
    have hget := hsame.roles role.id
    simp [Store.orKeep, Store.deleteRole, get_store, hnew, Except.toOption] at hget
  | false =>
    refine iff_of_true ?_ rfl
    simp only [Store.orKeep, Store.deleteRole, get_store, if_true, Bool.false_eq_true, if_false,
      Except.toOption, Option.getD_some]
    exact ⟨fun _ => rfl, get_erase_store hnew, fun _ => rfl, fun _ => rfl⟩

theorem createSubject_undone {subject : Subject} {now : ℤ}
    (h : st.createSubject now subject = .ok st') :
    (st'.orKeep (st'.deleteSubject subject.id)).Same st := by
  obtain ⟨hnew, rfl⟩ := Store.createSubject_eq_ok h
  rw [Store.deleteSubject, if_pos (by simp [get_store])]
  exact ⟨fun _ => rfl, fun _ => rfl, get_erase_store hnew, fun _ => rfl⟩

theorem updateRole_same_iff {role : Role} {now : ℤ} (h : st.updateRole now role = .ok st') :
    st'.Same st ↔ ∃ existing, st.roles.get role.id = some existing ∧
      existing = { role with
        createdAt := if role.createdAt = 0 then existing.createdAt else role.createdAt
        updatedAt := now } := by
  revert h
  fun_cases Store.updateRole st now role <;> rintro ⟨⟩
  next existing hget _ _ =>
  simp only [hget, Option.some.injEq, exists_eq_left']
  have hrow := get_store_eq_iff (t := st.roles) (r := { role with
    createdAt := if role.createdAt = 0 then existing.createdAt else role.createdAt
    updatedAt := now })
  rw [hget, Option.some.injEq] at hrow
  rw [← hrow]
  exact ⟨Store.Same.roles, fun h => ⟨fun _ => rfl, h, fun _ => rfl, fun _ => rfl⟩⟩

theorem deleteRole_not_same {id : String} (h : st.deleteRole id = .ok st') : ¬ st'.Same st := by
  obtain ⟨⟨role, hget, -⟩, rfl⟩ := Store.deleteRole_eq_ok h
  intro hsame
  have hrow := hsame.roles id
  simp [get_erase, hget] at hrow

theorem revokeRole_not_same {choice : ℕ} {now : ℤ} {s r t : String}
    (h : st.revokeRole now choice s r t = .ok st') : ¬ st'.Same st := by
  obtain ⟨a, hrow, -, rfl⟩ := Store.revokeRole_eq_ok h
  intro hsame
  have hget := hsame.assignments a.id
  simp [get_erase, get_eq_some_iff.mpr ⟨hrow, rfl⟩] at hget

section Assigned

variable {a : Assignment}
  (hunused : st.assignments.get (Store.record ctx.unix ctx.uuid a).id = none)
  (h : st'.assignments = st.assignments.store (Store.record ctx.unix ctx.uuid a))
include hunused h

theorem matching_assigned : st'.matching a.subjectID a.roleID a.tenantID =
    st.matching a.subjectID a.roleID a.tenantID ++ [Store.record ctx.unix ctx.uuid a] := by
  have hnew : (Store.record ctx.unix ctx.uuid a).id ∉ st.assignments.rows.map Assignment.id := by
    simpa [Ordered.Table.get] using hunused
  unfold Store.matching
  rw [h, rows_store_of_new hnew, List.filter_append]
  simp [Assignment.Gives, Store.record]

/-- Of the matching assignments the undo picks the new one if the choice falls on the last. -/
theorem picked_assigned_iff :
    (st'.matching a.subjectID a.roleID a.tenantID)[ctx.choice %
        (st'.matching a.subjectID a.roleID a.tenantID).length]? =
          some (Store.record ctx.unix ctx.uuid a) ↔
      ctx.choice % ((st.matching a.subjectID a.roleID a.tenantID).length + 1) =
        (st.matching a.subjectID a.roleID a.tenantID).length := by
  rw [matching_assigned hunused h, List.length_append, List.length_singleton]
  refine ⟨fun hfound => ?_, fun hfirst => by simp [hfirst]⟩
  by_contra hne
  have hlt := ctx.choice.mod_lt (st.matching a.subjectID a.roleID a.tenantID).length.succ_pos
  rw [List.getElem?_append_left (by grind)] at hfound
  have hold := (List.mem_filter.mp (List.mem_of_getElem? hfound)).1
  cases hunused.symm.trans (get_eq_some_iff.mpr ⟨hold, rfl⟩)

end Assigned

/-- Listed and taken off again, a role leaves the subject's list alone if it was not on it. -/
theorem relisted_iff {subject : Subject} {roleID : String} {now : ℤ} :
    { subject with
        roleIDs := (subject.roleIDs ++ [roleID]).filter (· ≠ roleID), updatedAt := now } = subject ↔
      roleID ∉ subject.roleIDs ∧ subject.updatedAt = now := by
  have hlist : (subject.roleIDs ++ [roleID]).filter (· ≠ roleID) = subject.roleIDs ↔
      roleID ∉ subject.roleIDs := by
    simp only [ne_eq, List.filter_append, List.filter_singleton, List.append_nil,
      List.filter_eq_self, decide_not, decide_true, Bool.not_true, cond_false]
    exact ⟨fun h hmem => by simpa using h _ hmem, fun h r hr => by
      simpa using ne_of_mem_of_not_mem hr h⟩
  rw [← hlist, eq_comm (a := subject.updatedAt)]
  constructor
  · intro h
    exact ⟨congrArg Subject.roleIDs h, congrArg Subject.updatedAt h⟩
  · rintro ⟨hroles, rfl⟩
    rw [hroles]

theorem assignRole_undone_iff {a : Assignment} (h : st.assignRole ctx.unix ctx.uuid a = .ok st') :
    (st'.orKeep (st'.revokeRole ctx.unix ctx.choice a.subjectID a.roleID a.tenantID)).Same st ↔
      TakenBack st ctx a := by
  obtain ⟨subject, role, hsubject, -, hst⟩ := Store.assignRole_eq_ok h
  obtain ⟨-, hkey⟩ := get_eq_some_iff.mp hsubject
  have hassigned : st'.assignments = st.assignments.store (Store.record ctx.unix ctx.uuid a) := by
    rw [hst]
  have hlisted : st'.subjects.get a.subjectID = some { subject with
      roleIDs := subject.roleIDs ++ [a.roleID], updatedAt := ctx.unix } := by
    rw [hst]
    simp [get_store, hkey]
  have hdropped : (st'.dropRole ctx.unix a.subjectID a.roleID).get a.subjectID = some subject ↔
      a.roleID ∉ subject.roleIDs ∧ subject.updatedAt = ctx.unix := by
    rw [Store.get_dropRole, if_pos rfl, hlisted, Option.map_some, Option.some.injEq]
    dsimp only
    exact relisted_iff
  constructor
  · intro hsame
    cases hrevoke : st'.revokeRole ctx.unix ctx.choice a.subjectID a.roleID a.tenantID with
    | error err =>
      -- the role stays on the list of the subject
      have hget := hsame.subjects a.subjectID
      rw [hrevoke, hsubject] at hget
      have hlist := congrArg Subject.roleIDs (Option.some.inj (hlisted.symm.trans hget))
      simp at hlist
    | ok st'' =>
      rw [hrevoke] at hsame
      revert hrevoke
      fun_cases Store.revokeRole st' ctx.unix ctx.choice a.subjectID a.roleID a.tenantID <;>
        rintro ⟨⟩
      next found b hfound _ =>
      have hb := (List.mem_filter.mp (List.mem_of_getElem? hfound)).1
      have hgone : st.assignments.get b.id = none := by
        rw [← hsame.assignments b.id]
        simp [Store.orKeep, Except.toOption, get_erase]
      have hstored : st'.assignments.get b.id = some b := get_eq_some_iff.mpr ⟨hb, rfl⟩
      rw [hassigned, get_store, hgone] at hstored
      split at hstored <;> cases hstored
      refine ⟨?_, hgone, fun subject' hsubject' => ?_⟩
      · exact (picked_assigned_iff hgone hassigned).mp hfound
      · cases hsubject.symm.trans hsubject'
        exact hdropped.mp ((hsame.subjects a.subjectID).trans hsubject)
  · intro hback
    have hfound := (picked_assigned_iff hback.unused hassigned).mpr hback.first
    have hrevoke : st'.revokeRole ctx.unix ctx.choice a.subjectID a.roleID a.tenantID =
        .ok { st' with
          assignments := st'.assignments.erase (Store.record ctx.unix ctx.uuid a).id
          subjects := st'.dropRole ctx.unix a.subjectID a.roleID } := by
      simp only [Store.revokeRole, hfound, if_neg (Store.record_id_ne ctx.uuid_ne a)]
    rw [hrevoke]
    refine ⟨fun _ => by rw [hst]; rfl, fun _ => by rw [hst]; rfl, fun id => ?_, ?_⟩
    · by_cases hid : a.subjectID = id
      · rw [← hid, hsubject]
        exact hdropped.mpr (hback.unlisted subject hsubject)
      · refine (Store.get_dropRole ..).trans ?_
        rw [if_neg hid, hst]
        exact (get_store id).trans (if_neg (hkey ▸ hid))
    · rw [hassigned]
      exact get_erase_store hback.unused

/-- A call that fails leaves the store in memory as it was exactly if it is refused before the
persistent store is asked, or that store takes the change, or the undo gives back what was there. -/
theorem failed_call_leaves_store_iff {c : Call} (hc : c.WritesThrough) :
    ((c.run m ctx).2 ≠ none → (c.run m ctx).1.store.Same m.store) ↔
      Refused m ctx c ∨ Accepted m ctx c ∨ Restored m ctx c := by
  change Leaves m (c.run m ctx) ↔ _
  cases c with
  | createRole role =>
    refine Leaves.sensitive_iff.trans ?_
    have hnew : (m.store.createRole ctx.unix role).isOk = false ↔
        (m.store.roles.get role.id).isSome = true := by
      unfold Store.createRole
      split <;> simp_all [Except.isOk, Except.toBool]
    cases hparent : m.checkParent role with
    | some err => exact iff_of_true (.inr (.refused rfl)) (.inl (.inr (.inl (by rw [hparent]; rfl))))
    | none =>
      dsimp only
      rw [Leaves.writeThrough_iff fun st hst => createRole_undone_iff hst, isOk_attempt, hnew]
      simp [Refused, Accepted, Restored, hparent, or_assoc, Store.storeRole, Except.isOk,
        Except.toBool]
  | updateRole role =>
    refine Leaves.sensitive_iff.trans ?_
    rw [Leaves.writeThrough_iff fun st hst => updateRole_same_iff hst, isOk_attempt]
    simp [Refused, Accepted, Restored, or_assoc, Store.storeRole, Except.isOk, Except.toBool]
  | deleteRole id =>
    refine Leaves.sensitive_iff.trans ?_
    have hhas : (m.rbacStore.removeRole id).isOk = true ↔
        (m.rbacStore.roles.get id).isSome = true := by
      unfold Store.removeRole
      split <;> simp_all [Except.isOk, Except.toBool]
    rw [Leaves.writeThrough_iff fun st hst => iff_false_intro (deleteRole_not_same hst),
      isOk_attempt, hhas]
    simp [Refused, Accepted, Restored, or_assoc]
  | revokeRole s r t =>
    refine Leaves.sensitive_iff.trans ?_
    rw [Leaves.writeThrough_iff fun st hst => iff_false_intro (revokeRole_not_same hst),
      isOk_attempt]
    simp [Refused, Accepted, Restored, or_assoc, Store.deleteRoleAssignment, Except.isOk,
      Except.toBool]
  | createSubject subject =>
    refine iff_of_true ?_ (.inr (.inr trivial))
    exact (Leaves.writeThrough_iff fun st hst => iff_true_intro (createSubject_undone hst)).mpr
      (.inr (.inr trivial))
  | assignRole a =>
    refine Leaves.sensitive_iff.trans ?_
    unfold Manager.validateAndAssignRole
    have hfound : (m.store.assignRole ctx.unix ctx.uuid a).isOk = false ↔
        (m.store.subjects.get a.subjectID).isNone = true ∨
          (m.store.roles.get a.roleID).isNone = true := by
      unfold Store.assignRole
      split
      · simp_all [Except.isOk, Except.toBool]
      · split <;> simp_all [Except.isOk, Except.toBool]
    cases hrapid : m.checkRapidEscalationProtection ctx a.subjectID a.roleID with
    | some err =>
      exact iff_of_true (.inr (.refused rfl)) (.inl (.inr (.inl (by rw [hrapid]; rfl))))
    | none =>
      cases hcross : m.checkCrossTenantEscalationProtection ctx a.subjectID a.tenantID with
      | some err =>
        exact iff_of_true (.inr (.refused rfl)) (.inl (.inr (.inr (.inl (by rw [hcross]; rfl)))))
      | none =>
        dsimp only
        rw [Leaves.recordSuccess_iff,
          Leaves.writeThrough_iff fun st hst => assignRole_undone_iff hst, isOk_attempt, hfound]
        simp [Refused, Accepted, Restored, hrapid, hcross, or_assoc, Store.storeRoleAssignment,
          Except.isOk, Except.toBool]
  | _ => cases hc

def failingAt (second : ℤ) : Context := { callAt second with failure := some "disk full" }

theorem failed_creation_leaves_store :
    let c := Call.createRole (eastRole "lead" "")
    (c.run emptyManager (failingAt 1)).2 = some "failed to persist role: disk full" ∧
      (c.run emptyManager (failingAt 1)).1.store.Same emptyManager.store :=
  ⟨by decide +kernel, (@failed_call_leaves_store_iff _ _ (.createRole (eastRole "lead" ""))
    trivial).mpr (.inr (.inr rfl)) (by decide +kernel)⟩

/-- A role whose deletion could not be stored is gone from memory. -/
theorem failed_deletion_forgets :
    let m := (emptyManager.createRole (callAt 1) (eastRole "lead" "")).1
    (m.deleteRole (failingAt 2) "lead").2 = some "failed to persist role deletion: disk full" ∧
      ¬ (m.deleteRole (failingAt 2) "lead").1.store.Same m.store := by
  refine ⟨by decide +kernel, fun h => ?_⟩
  exact absurd (h.roles "lead") (by decide +kernel)

end Cfgms.Rbac
