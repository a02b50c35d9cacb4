import Cfgms.Machine.Runs
import Cfgms.Rbac.Loading

/-! # Decisions after a restart

A manager that is started anew on the persistent store should decide as the one that wrote it.
Updates and deletions of subjects stay in memory, and revoking one of several assignments removes
all of them from the persistent store only.
-/

namespace Cfgms.Rbac

open Ordered Table Store Option

def changes : Machine Manager (Context × Call) where
  step m c := if (c.2.run m c.1).2 = none then some (c.2.run m c.1).1 else none

/-- The call changes both stores alike: no subject is deleted, an update of a subject leaves its
tenant and its state and takes no role off its list, and a role is revoked while it is assigned
once. -/
def reachesBoth (st : Store) : Call → Bool
  | .deleteSubject _ => false
  | .updateSubject subject => ∀ old ∈ st.subjects.get subject.id,
      subject.core = old.core ∧ ∀ r ∈ old.roleIDs, r ∈ subject.roleIDs
  | .revokeRole s r _ => st.AssignedOnce s r
  | _ => true

def ReachesBoth (m : Manager) (c : Context × Call) : Prop := reachesBoth m.store c.2

instance (m : Manager) (c : Context × Call) : Decidable (ReachesBoth m c) :=
  inferInstanceAs (Decidable (_ = true))

/-- The store in memory has what the persistent store has. -/
structure Mirrors (st p : Store) : Prop where
  restores : p.Restores st
  rows : ∀ a, a ∈ st.assignments.rows ↔ a ∈ p.assignments.rows
  listed : ∀ a ∈ st.assignments.rows, st.Lists a.subjectID a.roleID
  named : ∀ a ∈ st.assignments.rows, a.id ≠ ""

namespace Store.Restores

variable {st st' p p' : Store} {req : AccessRequest} {r : String}

theorem active_iff (h : p.Restores st) (h' : p.Restores st') (id : String) :
    (∃ subject, st.subjects.get id = some subject ∧ subject.isActive = true) →
      ∃ subject, st'.subjects.get id = some subject ∧ subject.isActive = true := by
  rintro ⟨subject, hget, hactive⟩
  have hcore := (h'.subjects id).trans (h.subjects id).symm
  rw [hget, map_some] at hcore
  obtain ⟨subject', hget', hsame⟩ := map_eq_some_iff.mp hcore
  exact ⟨subject', hget', (congrArg Prod.snd hsame).trans hactive⟩

theorem roleGrants (h : p.Restores st) (h' : p.Restores st') {permissionID tenantID : String}
    (hgrants : st.RoleGrants r permissionID tenantID) : st'.RoleGrants r permissionID tenantID := by
  obtain ⟨role, hget, htenant, hperm⟩ := hgrants
  have hsame := (h'.roles r).trans (h.roles r).symm
  rw [hget, map_some] at hsame
  obtain ⟨role', hget', heq⟩ := map_eq_some_iff.mp hsame
  simp only [Role.grants, Prod.mk.injEq] at heq
  have hpermissions : st'.permissions.get = st.permissions.get :=
    funext fun k => (h'.permissions k).trans (h.permissions k).symm
  refine ⟨role', hget', ?_, ?_⟩
  · rw [heq.2.1, heq.2.2]
    exact htenant
  · rw [heq.1, hpermissions]
    exact hperm

end Store.Restores

variable {st p : Store}

/-- A manager started on the persistent store decides as the one whose memory it mirrors. -/
theorem Mirrors.granted (h : Mirrors st p) (ctx : Context) (now : ℤ) (req : AccessRequest) :
    ((Manager.fresh ctx p).store.checkPermission now req).granted =
      (st.checkPermission now req).granted := by
  have hfresh := p.restores_load ctx.unix ctx.uuid
  rw [Bool.eq_iff_iff, checkPermission_granted_iff, checkPermission_granted_iff]
  refine exists_congr fun r => ⟨?_, ?_⟩
  · rintro ⟨⟨subject, hget, hactive, -⟩, ⟨b, hb, hgives, hvalid⟩, hrole⟩
    obtain ⟨a, ha, rfl⟩ := of_mem_load hb
    have ha' := (h.rows a).mpr ha
    obtain ⟨subject', hget', hmem⟩ := h.listed a ha'
    obtain ⟨old, hold, hactive'⟩ := hfresh.active_iff h.restores _ ⟨subject, hget, hactive⟩
    cases hget'.symm.trans (hgives.1 ▸ hold)
    exact ⟨⟨subject', hgives.1 ▸ hget', hactive', hgives.2.1 ▸ hmem⟩, ⟨a, ha', hgives, hvalid⟩,
      hfresh.roleGrants h.restores hrole⟩
  · rintro ⟨⟨subject, hget, hactive, -⟩, ⟨a, ha, hgives, hvalid⟩, hrole⟩
    obtain ⟨other, hother, hactive'⟩ := h.restores.active_iff hfresh _ ⟨subject, hget, hactive⟩
    obtain ⟨hs, rfl, ht⟩ := hgives
    have hsubject : (p.subjects.get a.subjectID).isSome := by
      rw [← isSome_map (f := Subject.core), ← h.restores.subjects, hs, hget]
      rfl
    have hexists : (p.roles.get a.roleID).isSome := by
      obtain ⟨role, hrole, -⟩ := hrole
      rw [← isSome_map (f := Role.grants), ← h.restores.roles, hrole]
      rfl
    obtain ⟨hmem, subject', hget', hlisted⟩ := mem_load ctx.unix ctx.uuid
      (fun b hb => h.named b ((h.rows b).mpr hb)) ((h.rows a).mp ha) hsubject hexists
    cases hget'.symm.trans (hs ▸ hother)
    exact ⟨⟨_, hother, hactive', hlisted⟩, ⟨_, hmem, ⟨hs, rfl, ht⟩, hvalid⟩,
      h.restores.roleGrants hfresh hrole⟩

/-- The second store differs from the first in parents and children alone. -/
structure Store.Regroups (st st' : Store) : Prop where
  same : st.SameButRoles st'
  grants : ∀ k, (st'.roles.get k).map Role.grants = (st.roles.get k).map Role.grants

namespace Store.Regroups

variable {st st' st'' : Store} {now : ℤ}

theorem refl (st : Store) : st.Regroups st := ⟨⟨rfl, rfl, rfl⟩, fun _ => rfl⟩

theorem trans (h : st.Regroups st') (h' : st'.Regroups st'') : st.Regroups st'' where
  same := ⟨h'.same.permissions.trans h.same.permissions, h'.same.subjects.trans h.same.subjects,
    h'.same.assignments.trans h.same.assignments⟩
  grants k := (h'.grants k).trans (h.grants k)

theorem modify {id : String} {f : Role → Role} {hf : ∀ r, (f r).id = r.id}
    (hgrants : ∀ r, (f r).grants = r.grants) : st.Regroups (st.modifyRole id f hf) :=
  ⟨⟨rfl, rfl, rfl⟩, modifyRole_roles hgrants⟩

theorem setRoleParent {roleID parentRoleID : String} {inheritance : InheritanceType}
    (h : st.setRoleParent now roleID parentRoleID inheritance = .ok st') : st.Regroups st' := by
  unfold Store.setRoleParent at h
  split at h
  · cases h
  next role _ =>
  split at h
  · cases h
  cases h
  have hremove : st.Regroups (if role.parentRoleID ≠ "" ∧ role.parentRoleID ≠ parentRoleID then
      st.removeChild now role.parentRoleID roleID else st) := by
    split
    · exact modify fun _ => rfl
    · exact refl st
  have hadd : ∀ st₁ : Store, st₁.Regroups
      (if parentRoleID ≠ "" then st₁.addChild now parentRoleID roleID else st₁) := by
    intro st₁
    split
    · exact modify fun r => grants_withChild r now roleID
    · exact refl st₁
  exact (hremove.trans (hadd _)).trans (modify fun _ => rfl)

theorem removeRoleParent {roleID : String} (h : st.removeRoleParent now roleID = .ok st') :
    st.Regroups st' := by
  revert h
  fun_cases Store.removeRoleParent st now roleID <;> rintro ⟨⟩
  · exact refl st
  next role _ _ =>
  have hremove : st.Regroups (st.removeChild now role.parentRoleID roleID) := modify fun _ => rfl
  exact hremove.trans (modify fun _ => rfl)

end Store.Regroups

namespace Mirrors

variable (h : Mirrors st p)
include h

theorem ofPermissions {t t' : Table Permission.id} (hsame : ∀ k, t.get k = t'.get k) :
    Mirrors { st with permissions := t } { p with permissions := t' } :=
  ⟨⟨hsame, h.restores.roles, h.restores.subjects⟩, h.rows, h.listed, h.named⟩

variable {st' : Store} {now : ℤ}

theorem ofRoles {p' : Store} (hst : st.SameButRoles st')
    (hp : p.SameButRoles p') (hroles : ∀ k, (st'.roles.get k).map Role.grants =
      (p'.roles.get k).map Role.grants) : Mirrors st' p' := by
  refine ⟨⟨fun k => ?_, hroles, fun k => ?_⟩, fun a => ?_, fun a ha => ?_, fun a ha => ?_⟩
  · rw [hst.permissions, hp.permissions]
    exact h.restores.permissions k
  · rw [hst.subjects, hp.subjects]
    exact h.restores.subjects k
  · rw [hst.assignments, hp.assignments]
    exact h.rows a
  · rw [hst.assignments] at ha
    unfold Store.Lists
    rw [hst.subjects]
    exact h.listed a ha
  · rw [hst.assignments] at ha
    exact h.named a ha

theorem regroup (hst : st.Regroups st') : Mirrors st' p :=
  h.ofRoles hst.same ⟨rfl, rfl, rfl⟩ fun k => (hst.grants k).trans (h.restores.roles k)

theorem storeRole {role role' : Role} (hid : role.id = role'.id)
    (hgrants : role.grants = role'.grants) :
    Mirrors { st with roles := st.roles.store role } { p with roles := p.roles.store role' } := by
  refine h.ofRoles ⟨rfl, rfl, rfl⟩ ⟨rfl, rfl, rfl⟩ fun k => ?_
  rw [get_store, get_store, hid]
  split
  · exact congrArg some hgrants
  · exact h.restores.roles k

theorem eraseRole (id : String) :
    Mirrors { st with roles := st.roles.erase id } { p with roles := p.roles.erase id } := by
  refine h.ofRoles ⟨rfl, rfl, rfl⟩ ⟨rfl, rfl, rfl⟩ fun k => ?_
  rw [get_erase, get_erase]
  split
  · rfl
  · exact h.restores.roles k

theorem loadRoles (now : ℤ) (roles : List Role) : Mirrors (st.loadRoles now roles)
      { p with roles := roles.foldl (fun t r => t.store r) p.roles } := by
  refine h.ofRoles (sameButRoles_loadRoles roles) ⟨rfl, rfl, rfl⟩ fun k => ?_
  rw [grants_loadRoles]
  have hfold : ∀ (roles : List Role) (t t' : Table Role.id),
      (∀ k, (t.get k).map Role.grants = (t'.get k).map Role.grants) →
      ∀ k, ((roles.foldl (fun t r => t.store { r with createdAt := now, updatedAt := now })
        t).get k).map Role.grants = ((roles.foldl (fun t r => t.store r) t').get k).map
          Role.grants := by
    intro roles
    induction roles with
    | nil => exact fun _ _ hsame => hsame
    | cons r roles ih =>
      intro t t' hsame
      apply ih
      intro k
      rw [get_store, get_store]
      split
      · rfl
      · exact hsame k
  exact hfold roles st.roles p.roles h.restores.roles k

theorem createSubject {subject : Subject} (hok : st.createSubject now subject = .ok st') :
    Mirrors st' { p with subjects := p.subjects.store subject } := by
  obtain ⟨hnew, rfl⟩ := createSubject_eq_ok hok
  refine ⟨⟨h.restores.permissions, h.restores.roles, fun k => ?_⟩, h.rows, fun a ha => ?_, h.named⟩
  · rw [get_store, get_store]
    split
    · rfl
    · exact h.restores.subjects k
  · obtain ⟨other, hget, hmem⟩ := h.listed a ha
    refine ⟨other, ?_, hmem⟩
    rw [get_store, if_neg]
    · exact hget
    · rintro heq
      rw [← heq, hnew] at hget
      cases hget

theorem updateSubject {subject : Subject} (hkeeps : ∀ old ∈ st.subjects.get subject.id,
      subject.core = old.core ∧ ∀ r ∈ old.roleIDs, r ∈ subject.roleIDs)
    (hok : st.updateSubject now subject = .ok st') : Mirrors st' p := by
  obtain ⟨⟨old, hold⟩, rfl⟩ := updateSubject_eq_ok hok
  obtain ⟨hcore, hroles⟩ := hkeeps old hold
  refine ⟨⟨h.restores.permissions, h.restores.roles, fun k => ?_⟩, h.rows, fun a ha => ?_, h.named⟩
  · rw [get_store, ← h.restores.subjects k]
    split
    · next heq =>
      rw [← heq, hold]
      exact congrArg some hcore
    · rfl
  · obtain ⟨other, hget, hmem⟩ := h.listed a ha
    unfold Store.Lists
    rw [get_store]
    split
    · next heq =>
      cases hold.symm.trans (heq ▸ hget)
      exact ⟨_, rfl, hroles _ hmem⟩
    · exact ⟨other, hget, hmem⟩

theorem assignRole {uuid : String} {a : Assignment}
    (huuid : uuid ≠ "") (hok : st.assignRole now uuid a = .ok st') :
    Mirrors st' { p with assignments := p.assignments.store (Store.record now uuid a) } := by
  have hlists : st'.Lists a.subjectID a.roleID := by
    unfold Store.Lists
    rw [get_subjects_assignRole hok, if_pos rfl]
    obtain ⟨subject, role, hsubject, -, -⟩ := assignRole_eq_ok hok
    exact ⟨_, by rw [hsubject]; rfl, List.mem_append_right _ (List.mem_singleton.mpr rfl)⟩
  have hrestores := h.restores.assignRole p now hok
  have hmem : ∀ b, b ∈ st'.assignments.rows ↔ b = Store.record now uuid a ∨
      b ∈ st.assignments.rows ∧ b.id ≠ (Store.record now uuid a).id := by
    obtain ⟨_, _, _, _, rfl⟩ := assignRole_eq_ok hok
    exact fun b => mem_store_iff
  refine ⟨{ hrestores with }, fun b => ?_, fun b hb => ?_, fun b hb => ?_⟩
  · rw [hmem, mem_store_iff, h.rows]
  · rcases (hmem b).mp hb with rfl | ⟨hb, -⟩
    · exact hlists
    · exact (h.listed b hb).assignRole hok
  · rcases (hmem b).mp hb with rfl | ⟨hb, -⟩
    · exact record_id_ne huuid a
    · exact h.named b hb

theorem revokeRole {choice : ℕ} {s r t : String}
    (honce : st.AssignedOnce s r) (hok : st.revokeRole now choice s r t = .ok st') :
    Mirrors st'
      { p with assignments := p.assignments.filter fun a => ¬ a.Gives s r t } := by
  obtain ⟨a, ha, hgives, rfl⟩ := revokeRole_eq_ok hok
  have honly : ∀ b ∈ st.assignments.rows, b.subjectID = s → b.roleID = r → b = a :=
    fun b hb hs hr => honce.eq hb ha ⟨hs, hr⟩ ⟨hgives.1, hgives.2.1⟩
  refine ⟨⟨h.restores.permissions, h.restores.roles, fun k => ?_⟩, fun b => ?_, fun b hb => ?_,
    fun b hb => h.named b (mem_erase.mp hb).1⟩
  · dsimp only
    rw [get_dropRole, ← h.restores.subjects]
    split
    · next heq =>
      rw [heq, map_map]
      rfl
    · rfl
  · rw [mem_erase, mem_filter, ← h.rows]
    refine and_congr_right fun hb => ?_
    simp only [decide_eq_true_eq]
    refine not_congr ⟨fun hkey => ?_, fun hb' => ?_⟩
    · rw [List.inj_on_of_nodup_map st.assignments.nodup hb ha hkey]
      exact hgives
    · rw [honly b hb hb'.1 hb'.2.1]
  · obtain ⟨hb, hne⟩ := mem_erase.mp hb
    obtain ⟨subject, hget, hmem⟩ := h.listed b hb
    unfold Store.Lists
    rw [get_dropRole]
    split
    · next hkey =>
      refine ⟨_, by rw [hkey, hget]; rfl, List.mem_filter.mpr ⟨hmem, ?_⟩⟩
      simp only [decide_eq_true_eq]
      intro hrole
      exact hne (congrArg Assignment.id (honly b hb hkey.symm hrole))
    · exact ⟨subject, hget, hmem⟩

end Mirrors

/-- After a call that succeeds the memory mirrors the persistent store. -/
def Keeps (result : Manager × Option String) : Prop :=
  result.2 = none → Mirrors result.1.store result.1.rbacStore

namespace Keeps

variable {m : Manager} {ctx : Context}

theorem refused {err : String} : Keeps (m, some err) := fun h => absurd h (some_ne_none _)

theorem sensitive {operation : String} {call : Manager × Option String} (h : Keeps call) :
    Keeps (m.sensitive ctx operation call) := by
  intro hok
  have hcall := Manager.sensitive_eq_none hok
  rw [hcall] at hok ⊢
  exact h hok

theorem writeThrough {labels : Manager.Labels} {change write undo : Store → Except String Store}
    (hboth : ∀ st p, change m.store = .ok st → write m.rbacStore = .ok p → Mirrors st p) :
    Keeps (m.writeThrough ctx labels change write undo) := by
  intro hok
  obtain ⟨st, p, hst, hp, heq⟩ := Manager.writeThrough_eq_none hok
  rw [heq]
  exact hboth st p hst hp

theorem inMemory {result : Except String Store}
    (h : ∀ st, result = .ok st → Mirrors st m.rbacStore) : Keeps (m.inMemory result) := by
  cases result with
  | error err => exact refused
  | ok st => exact fun _ => h st rfl

variable (h : Mirrors m.store m.rbacStore)
include h

theorem createRole (role : Role) : Keeps (m.createRole ctx role) := by
  apply sensitive
  split
  · exact refused
  refine writeThrough fun st p hst hp => ?_
  obtain ⟨-, rfl⟩ := createRole_eq_ok hst
  cases hp
  exact h.storeRole rfl rfl

theorem createRoleWithParent (role : Role) (parentRoleID : String) (inheritance : InheritanceType) :
    Keeps (m.createRoleWithParent ctx role parentRoleID inheritance) := by
  unfold Manager.createRoleWithParent
  dsimp only
  split
  · exact refused
  have hcreated : Keeps (m.createRole ctx
    { role with parentRoleID := parentRoleID, inheritanceType := inheritance }) := createRole h _
  split
  · exact refused
  next hok =>
  split
  · exact fun _ => hcreated hok
  · exact inMemory fun st hst => (hcreated hok).regroup (.setRoleParent hst)

theorem deletePermission (id : String) : Keeps (m.deletePermission ctx id) := by
  refine sensitive (writeThrough fun st p hst hp => ?_)
  obtain rfl := deletePermission_eq_ok hst
  unfold Store.removePermission at hp
  split at hp <;> cases hp
  refine h.ofPermissions fun k => ?_
  rw [get_erase, get_erase, h.restores.permissions]

theorem deleteRole (id : String) : Keeps (m.deleteRole ctx id) := by
  refine sensitive (writeThrough fun st p hst hp => ?_)
  obtain ⟨-, rfl⟩ := deleteRole_eq_ok hst
  unfold Store.removeRole at hp
  split at hp <;> cases hp
  exact h.eraseRole id

theorem run {c : Call} (hreaches : reachesBoth m.store c) : Keeps (c.run m ctx) := by
  have hpermission : ∀ q : Permission, Mirrors
      { m.store with permissions := m.store.permissions.store q }
      { m.rbacStore with permissions := m.rbacStore.permissions.store q } := by
    refine fun q => h.ofPermissions fun k => ?_
    rw [get_store, get_store, h.restores.permissions]
  cases c with
  | createPermission q =>
    refine sensitive (writeThrough fun st p hst hp => ?_)
    obtain rfl := createPermission_eq_ok hst
    cases hp
    exact hpermission q
  | updatePermission q =>
    refine writeThrough fun st p hst hp => ?_
    obtain rfl := updatePermission_eq_ok hst
    cases hp
    exact hpermission q
  | deletePermission id => exact deletePermission h id
  | createRole role => exact createRole h role
  | updateRole role =>
    refine sensitive (writeThrough fun st p hst hp => ?_)
    obtain ⟨_, _, _, _, _, rfl⟩ := updateRole_eq_ok hst
    cases hp
    exact h.storeRole rfl rfl
  | deleteRole id => exact deleteRole h id
  | createTenantDefaultRoles templates tenantID =>
    refine writeThrough fun st p hst hp => ?_
    cases hst
    cases hp
    exact h.loadRoles ctx.unix _
  | createSubject subject =>
    refine writeThrough fun st p hst hp => ?_
    cases hp
    exact h.createSubject hst
  | updateSubject subject =>
    exact inMemory fun st hst => h.updateSubject (of_decide_eq_true hreaches) hst
  | deleteSubject id => cases hreaches
  | assignRole a =>
    refine Manager.assignRole_rule (P := fun st p err => err = none → Mirrors st p)
      (fun _ herr => absurd herr (some_ne_none _))
      (fun _ _ _ _ herr => absurd herr (some_ne_none _)) fun st _ hst _ => ?_
    exact h.assignRole ctx.uuid_ne hst
  | revokeRole s r t =>
    refine sensitive (writeThrough fun st p hst hp => ?_)
    cases hp
    exact h.revokeRole (of_decide_eq_true hreaches) hst
  | createRoleWithParent role parent inheritance =>
    exact createRoleWithParent h role parent inheritance
  | setRoleParent role parent inheritance =>
    exact fun _ => Manager.setRoleParent_rule (P := Mirrors) h
      fun st _ hst => h.regroup (.setRoleParent hst)
  | removeRoleParent role => exact inMemory fun st hst => h.regroup (.removeRoleParent hst)

end Keeps

theorem mirrors_start (ctx : Context) (p : Store) :
    Mirrors (startWithout ctx p).store (startWithout ctx p).rbacStore := by
  have hnone : ∀ a, a ∉ (startWithout ctx p).store.assignments.rows := by
    intro a ha
    obtain ⟨b, hb, -⟩ := of_mem_load ha
    cases hb
  exact ⟨restores_load _ ctx.unix ctx.uuid,
    fun a => ⟨fun ha => absurd ha (hnone a), fun ha => absurd ha List.not_mem_nil⟩,
    fun a ha => absurd ha (hnone a), fun a ha => absurd ha (hnone a)⟩

theorem restart_same_decisions (ctx₀ : Context) (p : Store) (calls : List (Context × Call))
    (hreaches : changes.Guarded ReachesBoth (startWithout ctx₀ p) calls) {m : Manager}
    (hrun : changes.run (startWithout ctx₀ p) calls = some m) (ctx : Context) (now : ℤ)
    (req : AccessRequest) :
    ((Manager.fresh ctx m.rbacStore).store.checkPermission now req).granted =
      (m.store.checkPermission now req).granted := by
  have hstep : ∀ (m : Manager) (c : Context × Call) (m' : Manager),
      Mirrors m.store m.rbacStore → ReachesBoth m c → changes.step m c = some m' →
        Mirrors m'.store m'.rbacStore := by
    intro m c m' h hreaches hstep
    unfold changes at hstep
    dsimp only at hstep
    split at hstep <;> cases hstep
    next hok => exact Keeps.run h hreaches hok
  exact (changes.run_invariant (P := fun m => Mirrors m.store m.rbacStore) hstep calls _ _
    (mirrors_start ctx₀ p) hreaches hrun).granted ctx now req

def bob : Subject := ⟨"bob", "east", [], true, 0, 0⟩

def bobAssigned : List (Context × Call) := [
  (callAt 1000, .createSubject bob),
  (callAt 2000, .assignRole ⟨"a-1", "bob", "operator", "east", 0, 0⟩)]

def bobRuns : AccessRequest := ⟨"bob", "steward.run", "east"⟩

theorem restart_same_decisions_assigned :
    ∃ m, changes.run (startWithout (callAt 0) eastOffice) bobAssigned = some m ∧
      ((Manager.fresh (callAt 3000) m.rbacStore).store.checkPermission 4000 bobRuns).granted =
        (m.store.checkPermission 4000 bobRuns).granted := by
  refine exists_some_of_any (P := fun _ => True) (by decide +kernel) fun m hm _ => ?_
  exact restart_same_decisions _ _ _ (by decide +kernel) hm _ _ _

/-- A subject that was deleted is back after a restart, with its access. -/
theorem deleted_subject_restored :
    ¬ ∀ (ctx₀ : Context) (p : Store) (calls : List (Context × Call)) (m : Manager),
      changes.run (startWithout ctx₀ p) calls = some m → ∀ (ctx : Context) now req,
        ((Manager.fresh ctx m.rbacStore).store.checkPermission now req).granted =
          (m.store.checkPermission now req).granted := by
  intro h
  have hwrong : ∃ m ∈ changes.run (startWithout (callAt 0) eastOffice)
      (bobAssigned ++ [(callAt 3000, .deleteSubject "bob")]),
      ((Manager.fresh (callAt 4000) m.rbacStore).store.checkPermission 5000 bobRuns).granted ≠
        (m.store.checkPermission 5000 bobRuns).granted := by
    decide +kernel
  obtain ⟨m, hm, hdiffer⟩ := hwrong
  exact hdiffer (h _ _ _ m hm _ _ _)

end Cfgms.Rbac
