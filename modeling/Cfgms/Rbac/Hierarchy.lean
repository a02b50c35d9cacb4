import Cfgms.Machine.Runs
import Cfgms.Rbac.Manager

/-! # The hierarchy of roles

A hierarchy is sound if its chains of parents end, every parent exists, and a parent is a
system role or in the tenant of its child. The checks on creation and on a change of parent
keep it so within a tenant; an update can set any parent, and a deletion asks for no children.
-/

namespace Cfgms.Rbac

open Ordered Forest Table Store Manager Option

def Links.parentOf (links : Links) : String → Option String :=
  Forest.parentOf fun id => (links id).map Link.parent

structure Links.Sound (links : Links) : Prop where
  grounded : Grounded links.parentOf
  parents : ∀ id l, links id = some l → l.parentRoleID ≠ "" →
    ∃ parent, links l.parentRoleID = some parent ∧
      (parent.isSystemRole = true ∨ parent.tenantID = l.tenantID)

namespace Links

variable {links : Links} {id : String} {l old : Link}

theorem parentOf_eq_some {p : String} :
    links.parentOf id = some p ↔ ∃ l, links id = some l ∧ l.parentRoleID ≠ "" ∧
      l.parentRoleID = p := by
  unfold parentOf
  rw [Forest.parentOf_eq_some, map_eq_some_iff]
  refine exists_congr fun l => and_congr_right fun _ => ?_
  unfold Link.parent
  split
  · next hempty => simp [hempty]
  · next hne => simp [hne]

def set (links : Links) (id : String) (o : Option Link) : Links := Function.update links id o

@[simp] theorem set_self (o : Option Link) : links.set id o id = o := by
  simp [set]

theorem set_of_ne {k : String} (h : k ≠ id) (o : Option Link) : links.set id o k = links k := by
  simp [set, h]

theorem parentOf_set_of_ne {k : String} (h : k ≠ id) (o : Option Link) :
    (links.set id o).parentOf k = links.parentOf k := by
  unfold parentOf Forest.parentOf
  dsimp only
  rw [set_of_ne h]

section

variable (h : links.Sound)
include h

/-- A role is linked, or linked anew, under no parent or under one that is not below it. -/
theorem Sound.relink
    (hold : ∀ old, links id = some old →
      l.tenantID = old.tenantID ∧ l.isSystemRole = old.isSystemRole)
    (hparent : l.parentRoleID ≠ "" → l.parentRoleID ≠ id ∧
      ¬ Above links.parentOf id l.parentRoleID ∧ ∃ parent, links l.parentRoleID = some parent ∧
        (parent.isSystemRole = true ∨ parent.tenantID = l.tenantID)) :
    (links.set id (some l)).Sound := by
  -- the parent of a role stays what its child needs, also if it is the role linked anew
  have hkeeps : ∀ k parent, links k = some parent → ∃ parent', links.set id (some l) k = some parent' ∧
      parent'.tenantID = parent.tenantID ∧ parent'.isSystemRole = parent.isSystemRole := by
    intro k parent hk
    rcases eq_or_ne k id with rfl | hne
    · exact ⟨l, set_self _, hold parent hk⟩
    · exact ⟨parent, (set_of_ne hne _).trans hk, rfl, rfl⟩
  constructor
  · by_cases hroot : l.parentRoleID = ""
    · refine h.grounded.prune fun n p hp => ?_
      rcases eq_or_ne n id with rfl | hne
      · simp [parentOf, Forest.parentOf, Link.parent, hroot] at hp
      · rwa [parentOf_set_of_ne hne] at hp
    · obtain ⟨hne, hfree, -⟩ := hparent hroot
      refine h.grounded.graft (fun n hn => parentOf_set_of_ne hn _) ?_ hne hfree
      simp [parentOf, Forest.parentOf, Link.parent, hroot]
  · intro k l' hk hne
    have hbefore : ∃ parent, links l'.parentRoleID = some parent ∧
        (parent.isSystemRole = true ∨ parent.tenantID = l'.tenantID) := by
      rcases eq_or_ne k id with rfl | hother
      · cases (set_self _).symm.trans hk
        exact (hparent hne).2.2
      · exact h.parents k l' ((set_of_ne hother _).symm.trans hk) hne
    obtain ⟨parent, hget, hor⟩ := hbefore
    obtain ⟨parent', hget', htenant', hsystem'⟩ := hkeeps _ parent hget
    exact ⟨parent', hget', by rwa [htenant', hsystem']⟩

theorem Sound.not_above_new (hnew : links id = none) (n : String) :
    ¬ Above links.parentOf id n := by
  intro habove
  obtain ⟨c, hc, -⟩ := habove.exists_child
  obtain ⟨l, hl, hne, hid⟩ := parentOf_eq_some.mp hc
  obtain ⟨parent, hget, -⟩ := h.parents c l hl hne
  rw [hid, hnew] at hget
  cases hget

/-- A new role is added, under no parent or under one that exists. -/
theorem Sound.create (hnew : links id = none)
    (hparent : l.parentRoleID ≠ "" → ∃ parent, links l.parentRoleID = some parent ∧
      (parent.isSystemRole = true ∨ parent.tenantID = l.tenantID)) :
    (links.set id (some l)).Sound := by
  apply h.relink
  · intro old hold
    rw [hnew] at hold
    cases hold
  · intro hne
    obtain ⟨parent, hget, hor⟩ := hparent hne
    refine ⟨?_, h.not_above_new hnew _, parent, hget, hor⟩
    rintro heq
    rw [heq, hnew] at hget
    cases hget

theorem Sound.delete
    (hchildless : ∀ k l, links k = some l → l.parentRoleID = id → l.parentRoleID = "") :
    (links.set id none).Sound := by
  have hkept : ∀ k l, links.set id none k = some l → links k = some l := by
    intro k l hk
    rcases eq_or_ne k id with rfl | hne
    · rw [set_self] at hk
      cases hk
    · rwa [set_of_ne hne] at hk
  constructor
  · refine h.grounded.prune fun n p hp => ?_
    obtain ⟨l, hl, hl'⟩ := parentOf_eq_some.mp hp
    exact parentOf_eq_some.mpr ⟨l, hkept n l hl, hl'⟩
  · intro k l hk hne
    obtain ⟨parent, hget, hor⟩ := h.parents k l (hkept k l hk) hne
    refine ⟨parent, (set_of_ne ?_ _).trans hget, hor⟩
    exact fun heq => hne (hchildless k l (hkept k l hk) heq)

end

theorem set_eq_self {o : Option Link} (h : links id = o) : links.set id o = links :=
  h ▸ Function.update_eq_self id links

theorem set_set (o o' : Option Link) : (links.set id o).set id o' = links.set id o' := by
  simp [set]

end Links

namespace Store

variable {st st' : Store} {now : ℤ} {id : String}

theorem links_store (role : Role) :
    links { st with roles := st.roles.store role } = st.links.set role.id (some role.link) := by
  funext k
  rw [links, get_store]
  split
  · next heq => simp [← heq]
  · next hne => simp [links, Links.set_of_ne (Ne.symm hne)]

theorem links_createRole {role : Role} (h : st.createRole now role = .ok st') :
    st.links role.id = none ∧ st'.links = st.links.set role.id (some role.link) := by
  obtain ⟨hnew, rfl⟩ := createRole_eq_ok h
  refine ⟨by simp [links, hnew], ?_⟩
  exact links_store _

theorem links_deleteRole (h : st.deleteRole id = .ok st') : st'.links = st.links.set id none := by
  obtain ⟨-, rfl⟩ := deleteRole_eq_ok h
  funext k
  rw [links, get_erase]
  split
  · next heq => simp [← heq]
  · next hne => rw [Links.set_of_ne (Ne.symm hne), links]

theorem links_modifyRole {f : Role → Role} {hf : ∀ r, (f r).id = r.id}
    (hlink : ∀ r, (f r).link = r.link) : (st.modifyRole id f hf).links = st.links := by
  funext k
  unfold links modifyRole
  rw [get_update, map_map]
  congr 1
  funext r
  dsimp
  split
  · exact hlink r
  · rfl

theorem links_removeChild (childID : String) : (st.removeChild now id childID).links = st.links :=
  links_modifyRole fun _ => rfl

variable {inheritance : InheritanceType}

theorem links_linkParent {l : Link} {parentID : String}
    (h : st.links id = some l) : (st.linkParent now id parentID inheritance).links =
      st.links.set id (some { l with parentRoleID := parentID }) := by
  obtain ⟨role, hget, rfl⟩ := map_eq_some_iff.mp h
  obtain ⟨hmem, hid⟩ := get_eq_some_iff.mp hget
  funext k
  unfold links linkParent modifyRole
  rw [get_update]
  rcases eq_or_ne k id with rfl | hne
  · simp [hget, hid, Role.link]
  rw [Links.set_of_ne hne, map_map]
  cases hk : st.roles.get k with
  | none => rfl
  | some r =>
    have hr : r.id ≠ id := (get_eq_some_iff.mp hk).2 ▸ hne
    simp [hr]

theorem links_setRoleParent {parentRoleID : String}
    (h : st.setRoleParent now id parentRoleID inheritance = .ok st') :
    ∃ l, st.links id = some l ∧
      st'.links = st.links.set id (some { l with parentRoleID := parentRoleID }) := by
  unfold setRoleParent at h
  cases hget : st.roles.get id with
  | none => simp [hget] at h
  | some role =>
    simp only [hget] at h
    split at h
    · cases h
    have hlink : st.links id = some role.link := by simp [links, hget]
    cases h
    refine ⟨role.link, hlink, ?_⟩
    have hsame : ∀ st₁ : Store, st₁.links = st.links →
        (if parentRoleID ≠ "" then st₁.addChild now parentRoleID id else st₁).links =
          st.links := by
      intro st₁ h₁
      split
      · refine (links_modifyRole fun r => ?_).trans h₁
        unfold Role.withChild
        split <;> rfl
      · exact h₁
    have hboth := hsame (if role.parentRoleID ≠ "" ∧ role.parentRoleID ≠ parentRoleID then
        st.removeChild now role.parentRoleID id else st) (by
      split
      · exact links_removeChild id
      · rfl)
    rw [links_linkParent (hboth ▸ hlink), hboth]

theorem links_removeRoleParent (h : st.removeRoleParent now id = .ok st') :
    st'.links = st.links ∨ ∃ l, st.links id = some l ∧
      st'.links = st.links.set id (some { l with parentRoleID := "" }) := by
  revert h
  fun_cases removeRoleParent st now id <;> rintro ⟨⟩
  · exact .inl rfl
  next role hget _ =>
  have hlink : st.links id = some role.link := by simp [links, hget]
  refine .inr ⟨role.link, hlink, ?_⟩
  have hsame : (st.removeChild now role.parentRoleID id).links = st.links := links_removeChild id
  rw [links_linkParent (hsame ▸ hlink), hsame]

theorem not_above_of_check {startRoleID targetRoleID : String}
    (h : st.checkAncestorsForRole startRoleID targetRoleID = none) :
    ¬ Above st.links.parentOf targetRoleID startRoleID := by
  intro habove
  have hkeys : ∀ n, ((st.links n).map Link.parent).isSome → n ∈ st.roles.rows.map Role.id := by
    intro n hn
    obtain ⟨role, hget⟩ : ∃ role, st.roles.get n = some role := by
      simpa [links, isSome_iff_exists] using hn
    obtain ⟨hmem, rfl⟩ := get_eq_some_iff.mp hget
    exact List.mem_map_of_mem hmem
  have hmem := mem_climb_of_above hkeys habove
  rw [List.length_map] at hmem
  unfold checkAncestorsForRole chain at h
  simp [hmem] at h

theorem validateHierarchyOperation_eq_none {childRoleID parentRoleID : String}
    (h : st.validateHierarchyOperation childRoleID parentRoleID = none)
    (hchild : (st.links childRoleID).isSome) (hparent : parentRoleID ≠ "") :
    parentRoleID ≠ childRoleID ∧ (∃ role, st.roles.get parentRoleID = some role) ∧
      ¬ Above st.links.parentOf childRoleID parentRoleID := by
  have hexists : (st.roles.get childRoleID).isSome := by simpa [links] using hchild
  unfold validateHierarchyOperation getRole at h
  split at h
  · cases h
  next hne =>
  cases hget : st.roles.get parentRoleID with
  | none => simp [hget] at h
  | some role =>
    simp only [hget] at h
    obtain ⟨hancestors, -⟩ := or_eq_none_iff.mp h
    exact ⟨Ne.symm hne, ⟨role, rfl⟩, not_above_of_check hancestors⟩

end Store

namespace Manager

variable {m : Manager} {ctx : Context}

/-- A new role is not stored, or it is, under no parent or one in its tenant. -/
theorem createRole_rule {P : Links → Option String → Prop} {role : Role}
    (hm : ∀ err, P m.store.links (some err))
    (hcreate : ∀ err, m.store.links role.id = none →
      (role.parentRoleID ≠ "" → ∃ parent, m.store.links role.parentRoleID = some parent ∧
        parent.tenantID = role.tenantID) → P (m.store.links.set role.id (some role.link)) err) :
    P (m.createRole ctx role).1.store.links (m.createRole ctx role).2 := by
  unfold createRole sensitive
  split
  · exact hm _
  cases hcheck : m.checkParent role with
  | some err => exact hm err
  | none =>
    have hparent : role.parentRoleID ≠ "" → ∃ parent,
        m.store.links role.parentRoleID = some parent ∧ parent.tenantID = role.tenantID := by
      intro hne
      unfold checkParent Store.getRole at hcheck
      rw [if_neg hne] at hcheck
      cases hget : m.store.roles.get role.parentRoleID with
      | none => simp [hget] at hcheck
      | some parent =>
        simp only [hget, ne_eq, ite_not] at hcheck
        split at hcheck
        · next htenant => exact ⟨parent.link, by simp [Store.links, hget], htenant⟩
        · cases hcheck
    apply writeThrough_rule (P := fun result => P result.1.store.links result.2)
    · exact hm
    · intro st err hst
      obtain ⟨hnew, hlinks⟩ := links_createRole hst
      -- the rollback removes the role again, unless it is a system role
      unfold Store.orKeep
      cases hdelete : st.deleteRole role.id with
      | error err' =>
        dsimp only [Except.toOption, Option.getD]
        rw [hlinks]
        exact hcreate _ hnew hparent
      | ok st' =>
        dsimp only [Except.toOption, Option.getD]
        rw [links_deleteRole hdelete, hlinks, Links.set_set, Links.set_eq_self hnew]
        exact hm err
    · intro st p hst _
      obtain ⟨hnew, hlinks⟩ := links_createRole hst
      rw [hlinks]
      exact hcreate _ hnew hparent

end Manager

def Call.onRoles : Call → Bool
  | .createRole _ | .updateRole _ | .deleteRole _ | .createRoleWithParent _ _ _
  | .setRoleParent _ _ _ | .removeRoleParent _ => true
  | _ => false

abbrev RoleCall := { c : Call // c.onRoles = true }

def hierarchy : Transducer Manager (Context × RoleCall) (Option String) where
  step m c := c.2.1.run m c.1

/-- An update leaves or clears the parent, a role is deleted that is nobody's parent, and a
parent that is set is a system role or in the tenant of the role. -/
def keepsHierarchy (st : Store) : Call → Bool
  | .updateRole role =>
    role.parentRoleID = "" ∨ ∀ old ∈ st.roles.get role.id, role.parentRoleID = old.parentRoleID
  | .deleteRole id => ∀ role ∈ st.roles.rows, role.parentRoleID = id → id = ""
  | .setRoleParent roleID parentRoleID _ =>
    ∀ role ∈ st.roles.get roleID, ∀ parent ∈ st.roles.get parentRoleID,
      parent.isSystemRole ∨ parent.tenantID = role.tenantID
  | _ => true

def KeepsHierarchy (m : Manager) (c : Context × RoleCall) : Prop := keepsHierarchy m.store c.2.1

instance (m : Manager) (c : Context × RoleCall) : Decidable (KeepsHierarchy m c) :=
  inferInstanceAs (Decidable (_ = true))

variable {m : Manager} {ctx : Context}

namespace Links.Sound

variable (h : m.store.links.Sound)
include h

theorem createRole (role : Role) : (m.createRole ctx role).1.store.links.Sound := by
  apply createRole_rule (P := fun links _ => links.Sound)
  · exact fun _ => h
  · intro _ hnew hparent
    refine h.create hnew fun hne => ?_
    obtain ⟨parent, hget, htenant⟩ := hparent hne
    exact ⟨parent, hget, .inr htenant⟩

theorem updateRole {role : Role} (hkeeps : role.parentRoleID = "" ∨
      ∀ old ∈ m.store.roles.get role.id, role.parentRoleID = old.parentRoleID) :
    (m.updateRole ctx role).1.store.links.Sound := by
  have hupdate : ∀ st, m.store.updateRole ctx.unix role = .ok st → st.links.Sound := by
    intro st hst
    obtain ⟨old, createdAt, hget, htenant, hsystem, rfl⟩ := updateRole_eq_ok hst
    have hold : m.store.links role.id = some old.link := by simp [Store.links, hget]
    rw [links_store]
    change (m.store.links.set role.id (some role.link)).Sound
    rcases hkeeps with hroot | hsame
    · exact h.relink (by simp [hold, Role.link, htenant, hsystem]) fun hne => absurd hroot hne
    have hlink : role.link = old.link := by simp [Role.link, hsame old hget, htenant, hsystem]
    rw [hlink, Links.set_eq_self hold]
    exact h
  apply sensitive_rule (P := fun m => m.store.links.Sound) h
  apply writeThrough_rule (P := fun result => result.1.store.links.Sound)
  · exact fun _ => h
  · exact fun st _ hst => hupdate st hst
  · exact fun st _ hst _ => hupdate st hst

theorem deleteRole {id : String}
    (hkeeps : ∀ role ∈ m.store.roles.rows, role.parentRoleID = id → id = "") :
    (m.deleteRole ctx id).1.store.links.Sound := by
  have hdelete : ∀ st, m.store.deleteRole id = .ok st → st.links.Sound := by
    intro st hst
    rw [links_deleteRole hst]
    refine h.delete fun k l hl hparent => ?_
    obtain ⟨role, hget, rfl⟩ := map_eq_some_iff.mp hl
    exact hparent.trans (hkeeps role (get_eq_some_iff.mp hget).1 hparent)
  apply sensitive_rule (P := fun m => m.store.links.Sound) h
  apply writeThrough_rule (P := fun result => result.1.store.links.Sound)
  · exact fun _ => h
  · exact fun st _ hst => hdelete st hst
  · exact fun st _ hst _ => hdelete st hst

theorem createRoleWithParent (role : Role) (parentRoleID : String) (inheritance : InheritanceType) :
    (m.createRoleWithParent ctx role parentRoleID inheritance).1.store.links.Sound := by
  unfold Manager.createRoleWithParent
  dsimp only
  split
  · exact h
  generalize hchild : ({ role with
    parentRoleID := parentRoleID, inheritanceType := inheritance } : Role) = child
  have hsound : (m.createRole ctx child).1.store.links.Sound := h.createRole child
  split
  · exact hsound
  next hok =>
  split
  · exact hsound
  apply inMemory_rule (P := fun st _ => st.links.Sound) hsound
  intro st hst
  obtain ⟨l, hl, hlinks⟩ := links_setRoleParent hst
  -- the role was stored with this parent already
  have hparent : l.parentRoleID = parentRoleID := by
    revert hok hl
    apply createRole_rule (P := fun links err => err = none →
      links role.id = some l → l.parentRoleID = parentRoleID)
    · exact fun _ hnone => absurd hnone (some_ne_none _)
    · intro _ _ _ _ hl
      subst hchild
      rw [Links.set_self] at hl
      exact congrArg Link.parentRoleID (Option.some.inj hl).symm
  have hlink : { l with parentRoleID := parentRoleID } = l := by rw [← hparent]
  rw [hlinks, hlink, Links.set_eq_self hl]
  exact hsound

theorem setRoleParent {roleID parentRoleID : String}
    {inheritance : InheritanceType} (hkeeps : ∀ role ∈ m.store.roles.get roleID,
      ∀ parent ∈ m.store.roles.get parentRoleID,
        parent.isSystemRole ∨ parent.tenantID = role.tenantID) :
    (m.setRoleParent ctx roleID parentRoleID inheritance).1.store.links.Sound := by
  apply setRoleParent_rule (P := fun st _ => st.links.Sound) h
  intro st hvalid hst
  obtain ⟨l, hl, hlinks⟩ := links_setRoleParent hst
  obtain ⟨role, hrole, rfl⟩ := map_eq_some_iff.mp hl
  rw [hlinks]
  refine h.relink (by simp [hl]) fun hne => ?_
  obtain ⟨hself, ⟨parent, hparent⟩, hfree⟩ :=
    validateHierarchyOperation_eq_none hvalid (by simp [hl]) hne
  exact ⟨hself, hfree, parent.link, by simp [Store.links, hparent],
    hkeeps role hrole parent hparent⟩

theorem removeRoleParent (roleID : String) :
    (m.removeRoleParent ctx roleID).1.store.links.Sound := by
  apply inMemory_rule (P := fun st _ => st.links.Sound) h
  intro st hst
  rcases links_removeRoleParent hst with hlinks | ⟨l, hl, hlinks⟩
  · rwa [hlinks]
  · rw [hlinks]
    exact h.relink (by simp [hl]) fun hne => absurd rfl hne

theorem step {c : Context × RoleCall} (hkeeps : KeepsHierarchy m c) :
    (hierarchy.step m c).1.store.links.Sound := by
  obtain ⟨ctx, c, hc⟩ := c
  cases c with
  | createRole role => exact h.createRole role
  | updateRole role => exact h.updateRole (of_decide_eq_true hkeeps)
  | deleteRole id => exact h.deleteRole (of_decide_eq_true hkeeps)
  | createRoleWithParent role parent inheritance => exact h.createRoleWithParent role parent _
  | setRoleParent role parent inheritance => exact h.setRoleParent (of_decide_eq_true hkeeps)
  | removeRoleParent role => exact h.removeRoleParent role
  | _ => cases hc

end Links.Sound

theorem sound_of_parentless {st : Store}
    (h : ∀ role ∈ st.roles.rows, role.parentRoleID = "") : st.links.Sound := by
  have hempty : ∀ id l, st.links id = some l → l.parentRoleID = "" := by
    intro id l hl
    obtain ⟨role, hget, rfl⟩ := map_eq_some_iff.mp hl
    exact h role (get_eq_some_iff.mp hget).1
  constructor
  · refine ⟨fun n => ⟨n, fun p hp => ?_⟩⟩
    obtain ⟨l, hl, hne, -⟩ := Links.parentOf_eq_some.mp hp
    exact absurd (hempty n l hl) hne
  · exact fun id l hl hne => absurd (hempty id l hl) hne

theorem hierarchy_sound (m : Manager) (hstart : ∀ role ∈ m.store.roles.rows, role.parentRoleID = "")
    (calls : List (Context × RoleCall)) (hkeeps : hierarchy.Along KeepsHierarchy m calls) :
    (hierarchy.final m calls).store.links.Sound :=
  Transducer.along_invariant (P := fun m : Manager => m.store.links.Sound)
    (fun _ _ h hkeeps => h.step hkeeps) (sound_of_parentless hstart) hkeeps

def eastRole (id parentRoleID : String) : Role :=
  ⟨id, id, [], "east", parentRoleID, [], .none, false, 0, 0⟩

def emptyManager : Manager := .fresh (callAt 0) .new

theorem hierarchy_sound_chain : let calls : List (Context × RoleCall) := [
      (callAt 1, ⟨.createRole (eastRole "lead" ""), rfl⟩),
      (callAt 2, ⟨.createRole (eastRole "night" ""), rfl⟩),
      (callAt 3, ⟨.setRoleParent "night" "lead" .additive, rfl⟩)]
    (hierarchy.final emptyManager calls).store.links.parentOf "night" = some "lead" ∧
      (hierarchy.final emptyManager calls).store.links.Sound := by
  refine ⟨by decide +kernel, hierarchy_sound emptyManager ?_ _ ⟨rfl, rfl, ?_, trivial⟩⟩
  · exact fun _ h => absurd h List.not_mem_nil
  · decide +kernel

/-- An update makes a role its own parent. -/
theorem role_its_own_parent :
    ¬ ∀ m : Manager, (∀ role ∈ m.store.roles.rows, role.parentRoleID = "") →
      ∀ calls : List (Context × RoleCall), (hierarchy.final m calls).store.links.Sound := by
  intro h
  have hsound := h emptyManager (fun _ h => absurd h List.not_mem_nil) [
    (callAt 1, ⟨.createRole (eastRole "lead" ""), rfl⟩),
    (callAt 2, ⟨.updateRole (eastRole "lead" "lead"), rfl⟩)]
  refine hsound.grounded.not_above_self "lead" (.parent ?_)
  decide +kernel

end Cfgms.Rbac
