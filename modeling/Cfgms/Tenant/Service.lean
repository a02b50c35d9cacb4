import Cfgms.Machine.Runs
import Cfgms.Tenant.Deletion
import Cfgms.Tenant.Restore
import Cfgms.Tenant.Suspend

/-! # Sequential use of the tenant manager

The manager as a machine that serves one call after the other. As long as no create closes a
cycle of parents, every state that is reached from tenants that are all active is one in which
each tenant names the outermost directly suspended tenant above it. The manager does not see to
that itself: it takes a create under a parent that does not exist, and a later create may bring
that parent in below its own child.
-/

namespace Cfgms.Tenant

open Forest

inductive Op where
  | create (inputs : CreateInputs) (req : TenantRequest)
  | update (tenantID : String) (req : TenantRequest)
  | suspend (tenantID : String)
  | restore (tenantID : String)
  | delete (tenantID : String)
  | requestDeletion (tenantID requesterID : String) (now holdPeriod : ℤ)
  | cancelDeletion (tenantID : String)
  | approveDeletion (tenantID approverID : String) (requireDualControl : Bool) (now : ℤ)

inductive Reply where
  | tenant (td : TenantData)
  | cascadeSuspend (result : CascadeSuspendResult)
  | cascadeRestore (result : CascadeRestoreResult)
  | pending (pending : PendingDeletion)
  | deleted (ids : List String)
  | done
  deriving DecidableEq

/-- The answer to a call; a call that never returns has none. -/
abbrev Answer := Option (Except TenantError Reply)

def Progress.answer {ω ρ : Type*} (reply : ρ → Reply) : Progress ω ρ → Answer
  | .running _ => none
  | .returned result => some (result.map reply)

variable (validator : MountPointValidator)

def service : Transducer Store Op Answer where
  step s op :=
    match op with
    | .create inputs req =>
      let (s', p) := createTenant validator inputs req s
      (s', p.answer .tenant)
    | .update tenantID req =>
      let (s', p) := updateTenant validator tenantID req s
      (s', p.answer .tenant)
    | .suspend tenantID =>
      let (tenants, p) := suspendTenant s.tenants tenantID
      ({ s with tenants := tenants }, p.answer .cascadeSuspend)
    | .restore tenantID =>
      let (tenants, p) := restoreTenant s.tenants tenantID
      ({ s with tenants := tenants }, p.answer .cascadeRestore)
    | .delete tenantID =>
      let (s', result) := deleteTenant s tenantID
      (s', some (result.map fun _ => .done))
    | .requestDeletion tenantID requesterID now holdPeriod =>
      let (s', p) := requestTenantDeletion s tenantID requesterID now holdPeriod
      (s', p.answer .pending)
    | .cancelDeletion tenantID =>
      let (s', result) := cancelTenantDeletion s tenantID
      (s', some (result.map fun _ => .done))
    | .approveDeletion tenantID approverID requireDualControl now =>
      let (s', p) := approveTenantDeletion s tenantID approverID requireDualControl now
      (s', p.answer .deleted)

variable {validator} {s s' : Store} {D : String → Prop}

theorem Inserted.grows {td : TenantData} (h : Inserted s s' td)
    (hfresh : td.standing = freshStanding) (hforest : IsForest s'.tenants)
    (hopen : ∀ r, s.tenants.find td.parentID = some r → r.status ≠ .suspended) :
    Grows s.tenants s'.tenants td :=
  ⟨h.new, h.find, hfresh, hforest, hopen⟩

variable {t : TenantTable}

theorem suspendTenant_settled (h : Settled t D) (T : String) :
    SameParents t (suspendTenant t T).1 ∧ ∃ D', Settled (suspendTenant t T).1 D' := by
  by_cases hprot : isProtectedRootTenant t T = true
  · rw [suspendTenant, suspendTenantWithin, if_pos hprot]
    exact ⟨.refl t, D, h⟩
  by_cases hT : t.find T = none
  · obtain ⟨e, he⟩ := SuspendWalk.step_start_missing hT
    rw [suspendTenant, suspendTenantWithin, if_neg hprot, runWalk_of_returned he]
    exact ⟨.refl t, D, h⟩
  · obtain ⟨t', result, hrun, hset, hs⟩ :=
      suspendTenant_of_mixed (h.mixed hT) (eq_false_of_ne_true hprot)
    rw [hrun]
    exact ⟨hs.sameParents, _, hset⟩

theorem restoreTenant_settled (h : Settled t D) (T : String) :
    SameParents t (restoreTenant t T).1 ∧ ∃ D', Settled (restoreTenant t T).1 D' := by
  by_cases hT : t.find T = none
  · obtain ⟨e, he⟩ := RestoreWalk.step_start_missing hT
    rw [restoreTenant, restoreTenantWithin, runWalk_of_returned he]
    exact ⟨.refl t, D, h⟩
  · obtain ⟨t', result, hrun, hfin⟩ := restoreTenant_of_mixed (h.mixed hT)
    rw [hrun]
    exact ⟨hfin.restores.sameParents, _, hfin.settled⟩

/-- A create closes no cycle of parents. -/
def Op.KeepsForest (validator : MountPointValidator) (s : Store) : Op → Prop
  | .create inputs req => ∀ n, checkCreate validator inputs.timestamp req = .ok n →
      s.tenants.find n = none → Joins s.tenants n req.parentID
  | _ => True

/-- A call leaves the parents as they are, inserts the tenant that it asks for, or cuts subtrees
off. -/
theorem service_step_cases (op : Op) (h : Settled s.tenants D) :
    (SameParents s.tenants ((service validator).step s op).1.tenants ∧
        ∃ D', Settled ((service validator).step s op).1.tenants D') ∨
      (∃ inputs req td, op = .create inputs req ∧
        checkCreate validator inputs.timestamp req = .ok td.id ∧ td.parentID = req.parentID ∧
        Inserted s ((service validator).step s op).1 td ∧ td.standing = freshStanding ∧
        ∀ r, s.tenants.find td.parentID = some r → r.status ≠ .suspended) ∨
      ∃ ids, Prunes s.tenants ((service validator).step s op).1.tenants ids := by
  have hidle : SameParents s.tenants s.tenants ∧ ∃ D', Settled s.tenants D' := ⟨.refl _, D, h⟩
  cases op with
  | create inputs req =>
    obtain ⟨s', result, hrun, hcreated⟩ := createTenant_spec validator inputs req s
    simp only [service, hrun]
    cases result with
    | error e =>
      obtain rfl := hcreated
      exact .inl hidle
    | ok td =>
      obtain ⟨hcheck, hparent⟩ := createTenant_row hrun
      exact .inr (.inl ⟨inputs, req, td, rfl, hcheck, hparent, hcreated⟩)
  | update tenantID req =>
    obtain ⟨s', result, hrun, hsame, -⟩ := updateTenant_spec validator tenantID req s
    simp only [service, hrun]
    exact .inl ⟨hsame.sameParents, D, h.same hsame⟩
  | suspend tenantID => exact .inl (suspendTenant_settled h tenantID)
  | restore tenantID => exact .inl (restoreTenant_settled h tenantID)
  | delete tenantID =>
    simp only [service]
    rcases deleteTenant_cases s tenantID with he | ⟨he, hprunes⟩ <;> rw [he]
    · exact .inl hidle
    · exact .inr (.inr ⟨_, hprunes⟩)
  | requestDeletion tenantID requesterID now holdPeriod =>
    obtain ⟨s', result, hrun, hreq⟩ :=
      requestTenantDeletion_spec s tenantID requesterID now holdPeriod
    simp only [service, hrun]
    cases result with
    | error e =>
      obtain rfl := hreq
      exact .inl hidle
    | ok p =>
      obtain ⟨-, -, -, rfl, -⟩ := hreq
      exact .inl hidle
  | cancelDeletion tenantID =>
    simp only [service]
    rcases cancelTenantDeletion_cases s tenantID with ⟨he, -⟩ | he <;> rw [he] <;>
      exact .inl hidle
  | approveDeletion tenantID approverID requireDualControl now =>
    simp only [service]
    rcases approveTenantDeletion_cases s tenantID approverID requireDualControl now with
      he | ⟨s', ids, he⟩
    · rw [he]
      exact .inl hidle
    · obtain ⟨p, happ⟩ := approveTenantDeletion_ok he
      rw [he]
      exact .inr (.inr ⟨ids, happ.prunes⟩)

theorem service_step_settled {op : Op} (h : ∃ D, Settled s.tenants D)
    (hop : op.KeepsForest validator s) :
    ∃ D, Settled ((service validator).step s op).1.tenants D := by
  obtain ⟨D, hset⟩ := h
  rcases service_step_cases op hset with ⟨-, hset'⟩ |
    ⟨inputs, req, td, rfl, hcheck, hparent, hins, hfresh, hopen⟩ | ⟨ids, hprunes⟩
  · exact hset'
  · have hjoins : Joins s.tenants td.id td.parentID := hparent ▸ hop td.id hcheck hins.new
    exact ⟨D, hset.grows
      (hins.grows hfresh (hset.forest.insert hins.new hins.find hjoins) hopen)⟩
  · exact ⟨_, hprunes.settled hset⟩

def Referenced (t : TenantTable) : Prop := ∀ n p, parentOf t n = some p → t.find p ≠ none

/-- A create names a parent that has a row, as the constraint of a relational store asks for. -/
def Op.Refers (s : Store) : Op → Prop
  | .create _ req => req.parentID ≠ "" → s.tenants.find req.parentID ≠ none
  | _ => True

theorem Revises.referenced {R : String → Standing → Standing → Prop} {t' : TenantTable}
    (h : Revises R t t') (hr : Referenced t) : Referenced t' := by
  intro n p hp
  rw [h.parent] at hp
  exact fun hnone => hr n p hp (h.find_eq_none.mp hnone)

theorem Referenced.joins {n p : String} (h : Referenced t)
    (hnew : t.find n = none) (hp : p ≠ "" → t.find p ≠ none) : Joins t n p := by
  refine fun hne => ⟨fun he => hp hne (he ▸ hnew), fun habove => ?_⟩
  obtain ⟨c, hc, -⟩ := habove.exists_child
  exact h c n hc hnew

theorem Inserted.referenced {td : TenantData} (h : Inserted s s' td)
    (hr : Referenced s.tenants) (hp : td.parentID ≠ "" → s.tenants.find td.parentID ≠ none) :
    Referenced s'.tenants := by
  intro n p hparent hnone
  rw [h.find] at hnone
  split at hnone
  · cases hnone
  obtain ⟨hne, r, hfind, rfl⟩ := parentOf_eq_some.mp hparent
  rw [h.find] at hfind
  split at hfind
  · cases hfind
    exact hp hne hnone
  · exact hr n _ (parentOf_eq_some.mpr ⟨hne, r, hfind, rfl⟩) hnone

theorem Prunes.referenced {t' : TenantTable} {ids : List String} (h : Prunes t t' ids)
    (hr : Referenced t) : Referenced t' := by
  intro n p hp
  have hn := h.not_mem_of_parent hp
  rw [h.parentOf_kept hn] at hp
  rw [h.find, if_neg fun hmem => hn (h.below n p hp hmem)]
  exact hr n p hp

/-- The parents are settled and all there, before and after a call that refers to a row. -/
theorem service_step_referenced {op : Op} (h : (∃ D, Settled s.tenants D) ∧ Referenced s.tenants)
    (hop : op.Refers s) :
    (∃ D, Settled ((service validator).step s op).1.tenants D) ∧
      Referenced ((service validator).step s op).1.tenants := by
  obtain ⟨⟨D, hset⟩, hr⟩ := h
  refine ⟨service_step_settled ⟨D, hset⟩ ?_, ?_⟩
  · cases op with
    | create inputs req => exact fun n _ hnew => hr.joins hnew hop
    | _ => trivial
  · rcases service_step_cases op hset with ⟨hsame, -⟩ |
      ⟨inputs, req, td, rfl, -, hparent, hins, -⟩ | ⟨ids, hprunes⟩
    · exact hsame.referenced hr
    · exact hins.referenced hr (hparent ▸ hop)
    · exact hprunes.referenced hr

/-- Calls that create tenants only under existing ones, deletions among them, leave a forest in
which every parent has a row. -/
theorem parents_kept (validator : MountPointValidator) (s : Store) (ops : List Op)
    (hset : ∃ D, Settled s.tenants D) (href : Referenced s.tenants)
    (hrefers : (service validator).Along (fun s op => op.Refers s) s ops) :
    IsForest ((service validator).final s ops).tenants ∧
      Referenced ((service validator).final s ops).tenants := by
  obtain ⟨⟨D, hset'⟩, href'⟩ := Transducer.along_invariant
    (P := fun s : Store => (∃ D, Settled s.tenants D) ∧ Referenced s.tenants)
    (fun _ _ h hop => service_step_referenced h hop) ⟨hset, href⟩ hrefers
  exact ⟨hset'.forest, href'⟩

theorem referenced_threeLevels : Referenced threeLevels := by
  have hall : ∀ r ∈ threeLevels.rows, r.parentID ≠ "" → threeLevels.find r.parentID ≠ none := by
    decide
  intro n p hp
  obtain ⟨hne, r, hr, rfl⟩ := parentOf_eq_some.mp hp
  exact hall r (List.mem_of_find?_eq_some hr) hne

def createUnder (id parentID : String) : Op :=
  .create ⟨0, fun _ => .ok ("label-" ++ id), 0⟩ ⟨id, "", "", parentID, []⟩

/-- A subtree of two tenants is suspended, deleted with a hold, and its name used again. -/
def deletedAndBack : List Op :=
  [createUnder "rac" "ra", .delete "rac", .suspend "ra", .requestDeletion "ra" "alice" 0 5,
    .approveDeletion "ra" "bob" true 9, createUnder "ra" "r"]

theorem parents_kept_deletedAndBack :
    ((service fun _ => .ok ()).final ⟨threeLevels, []⟩ deletedAndBack).tenants.rows.map (·.id) =
        ["ra", "r"] ∧
      Referenced ((service fun _ => .ok ()).final ⟨threeLevels, []⟩ deletedAndBack).tenants :=
  ⟨by decide +kernel,
    (parents_kept (fun _ => .ok ()) _ deletedAndBack ⟨_, settled_threeLevels⟩
      referenced_threeLevels ⟨fun _ => by decide, trivial, trivial, trivial, trivial,
        fun _ => by decide +kernel, trivial⟩).2⟩

/-- In every state that sequential calls lead to, a tenant is suspended exactly if it or an
ancestor is directly suspended, and names the outermost such ancestor. -/
theorem suspension_provenance (validator : MountPointValidator) (s : Store) (ops : List Op)
    (hforest : IsForest s.tenants)
    (hactive : ∀ n r, s.tenants.find n = some r → r.standing = freshStanding)
    (hops : (service validator).Along (fun s op => op.KeepsForest validator s) s ops) :
    ∀ n r, ((service validator).final s ops).tenants.find n = some r →
      (r.status = .suspended ↔
        DirectlySuspended ((service validator).final s ops).tenants n ∨
          ∃ a, Above (parentOf ((service validator).final s ops).tenants) a n ∧
            DirectlySuspended ((service validator).final s ops).tenants a) ∧
      Outermost (parentOf ((service validator).final s ops).tenants)
        (DirectlySuspended ((service validator).final s ops).tenants) n
        r.cascadeSuspendedFrom := by
  intro n r hr
  obtain ⟨D, hset⟩ := Transducer.along_invariant (P := fun s : Store => ∃ D, Settled s.tenants D)
    (fun _ _ h hop => service_step_settled h hop) ⟨_, settled_of_fresh hforest hactive⟩ hops
  have hfit := hset.directlySuspended.fits n r hr
  refine ⟨?_, hfit.outermost⟩
  rw [← hfit.outermost.ne_none_iff, ← hfit.direct]
  exact hfit.status

def tenantsAfter (ops : List Op) : TenantTable :=
  ((service fun _ => .ok ()).final ⟨threeLevels, []⟩ ops).tenants

/-- A tenant is created, and a cascade is lifted from above one that is nested in it. -/
def nestedCascades : List Op :=
  [createUnder "rac" "ra", .suspend "rab", .suspend "ra", .restore "ra"]

theorem suspension_provenance_nestedCascades :
    (tenantsAfter nestedCascades).rows.map (·.status) = [.active, .suspended, .active, .active] ∧
      ∀ n r, (tenantsAfter nestedCascades).find n = some r →
        Outermost (parentOf (tenantsAfter nestedCascades))
          (DirectlySuspended (tenantsAfter nestedCascades)) n r.cascadeSuspendedFrom :=
  ⟨by decide +kernel, fun n r hr =>
    (suspension_provenance (fun _ => .ok ()) ⟨threeLevels, []⟩ nestedCascades
      isForest_threeLevels fresh_threeLevels
      ⟨fun _ _ hnew => referenced_threeLevels.joins hnew fun _ => by decide,
        trivial, trivial, trivial, trivial⟩ n r hr).2⟩

/-- A tenant is created before its parent, and the parent then under that tenant. -/
def parentAfterChild : List Op :=
  [createUnder "tc" "tp", createUnder "tp" "tc", createUnder "td" "tc", .suspend "tp"]

/-- The three creates succeed. The cascade finds the cycle and stops with an error before it
reaches the last tenant, whose ancestor is by then directly suspended. -/
theorem suspended_in_cycle :
    ((service fun _ => .ok ()).outputs ⟨threeLevels, []⟩ parentAfterChild).map
        (·.map (·.isOk)) = [some true, some true, some true, some false] ∧
      ((tenantsAfter parentAfterChild).find "td").map (·.standing) = some freshStanding ∧
      Above (parentOf (tenantsAfter parentAfterChild)) "tp" "td" ∧
      DirectlySuspended (tenantsAfter parentAfterChild) "tp" := by
  refine ⟨by decide +kernel, by decide +kernel,
    .step (p := "tc") (by decide +kernel) (.parent (by decide +kernel)), ?_⟩
  have hrow : ((tenantsAfter parentAfterChild).find "tp").map (·.directlySuspended) =
      some true := by decide +kernel
  exact Option.map_eq_some_iff.mp hrow

end Cfgms.Tenant
