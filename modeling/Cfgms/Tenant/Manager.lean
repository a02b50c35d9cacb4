import Cfgms.Tenant.Provenance
import Cfgms.Tenant.Request

/-! # The tenant manager

Creating and updating a tenant as the sequences of store calls that they are. A call makes
at most one store call a step, so that it can be interleaved with others; run on its own
until it stops, it is the operation.
-/

namespace Cfgms.Tenant

structure PendingDeletion where
  subtreeRootID : String
  requestedBy : String
  requestedAt : ℤ
  eligibleAt : ℤ
  pinnedMemberIDs : List String
  deriving DecidableEq

/-- The two tables of the tenant store. Deletion records are keyed by the subtree root. -/
structure Store where
  tenants : TenantTable
  pending : List PendingDeletion

def Store.getPendingDeletion (s : Store) (subtreeRootID : String) :
    Except TenantError PendingDeletion :=
  if subtreeRootID = "" then .error .emptySubtreeRootID
  else
    match s.pending.find? (·.subtreeRootID == subtreeRootID) with
    | none => .error .pendingDeletionNotFound
    | some pending => .ok pending

/-- What a create call draws from its surroundings: the clock, the billing labels it
generates and the place of its row among rows of the same age. -/
structure CreateInputs where
  timestamp : ℤ
  labels : ℕ → Except TenantError String
  pos : ℕ

inductive CreatePoint where
  | lookupParent
  | lookupPendingDeletion
  | checkTopLevel (label : String)
  | insert (attempt : ℕ) (label : String)
  | probe (attempt : ℕ) (error : TenantError)

structure CreateCall where
  inputs : CreateInputs
  row : TenantData
  point : CreatePoint

def maxBillingLabelAttempts : ℕ := 5

/-- The row of a tenant that is created; its billing label is set at each attempt. -/
def newTenantRow (tenantID : String) (req : TenantRequest) : TenantData where
  id := tenantID
  name := req.displayName
  description := req.description
  parentID := req.parentID
  metadata := req.metadata
  status := .active
  directlySuspended := false
  cascadeSuspendedFrom := none
  billingLabel := ""

namespace CreateCall

/-- The first label is drawn after the parent checks, before the first attempt. -/
def afterParent (c : CreateCall) : Progress CreateCall TenantData :=
  match c.inputs.labels 0 with
  | .error e => .returned (.error e)
  | .ok label =>
    if c.row.parentID = "" then .running { c with point := .checkTopLevel label }
    else .running { c with point := .insert 0 label }

def start (validator : MountPointValidator) (inputs : CreateInputs) (req : TenantRequest) :
    Progress CreateCall TenantData :=
  match checkCreate validator inputs.timestamp req with
  | .error e => .returned (.error e)
  | .ok tenantID =>
    let c : CreateCall := ⟨inputs, newTenantRow tenantID req, .lookupParent⟩
    if req.parentID = "" then c.afterParent else .running c

def wrapCreate (e : TenantError) : TenantError := .wrapped "failed to create tenant" e

def step (s : Store) (c : CreateCall) : Store × Progress CreateCall TenantData :=
  match c.point with
  | .lookupParent =>
    match s.tenants.getTenant c.row.parentID with
    | .error e =>
      if e.cause = .tenantDoesNotExist then (s, c.afterParent)
      else (s, .returned (.error (.wrapped "failed to look up parent tenant" e)))
    | .ok parent =>
      if parent.status = .suspended then (s, .returned (.error (.suspendedParent c.row.parentID)))
      else (s, .running { c with point := .lookupPendingDeletion })
  | .lookupPendingDeletion =>
    match s.getPendingDeletion c.row.parentID with
    | .ok _ => (s, .returned (.error (.parentPendingDeletion c.row.parentID)))
    | .error _ => (s, c.afterParent)
  | .checkTopLevel label =>
    if topLevelTenantIDs s.tenants ≠ [] then (s, .returned (.error .topLevelTenantExists))
    else (s, .running { c with point := .insert 0 label })
  | .insert attempt label =>
    let td := { c.row with billingLabel := label }
    let created :=
      if td.parentID = "" then s.tenants.createTopLevelTenant c.inputs.pos td
      else s.tenants.createTenant c.inputs.pos td
    match created with
    | .ok tenants => ({ s with tenants := tenants }, .returned (.ok td))
    | .error e =>
      if e.cause = .tenantAlreadyExists then (s, .running { c with point := .probe attempt e })
      else (s, .returned (.error (wrapCreate e)))
  | .probe attempt error =>
    match s.tenants.getTenant c.row.id with
    | .ok _ => (s, .returned (.error (wrapCreate error)))
    | .error e =>
      -- the ID is free, so the collision was on the billing label
      if e.cause ≠ .tenantDoesNotExist then (s, .returned (.error (wrapCreate error)))
      else
        match c.inputs.labels (attempt + 1) with
        | .error e => (s, .returned (.error (wrapCreate e)))
        | .ok label =>
          if attempt + 1 < maxBillingLabelAttempts then
            (s, .running { c with point := .insert (attempt + 1) label })
          else (s, .returned (.error (wrapCreate error)))

/-- The parent, where it has a row, is not suspended. -/
def ParentOpen (s : Store) (c : CreateCall) : Prop :=
  ∀ r, s.tenants.find c.row.parentID = some r → r.status ≠ .suspended

def pastParent (c : CreateCall) : Bool :=
  match c.point with
  | .lookupParent => false
  | _ => true

def remaining (c : CreateCall) : ℕ :=
  match c.point with
  | .lookupParent => 14
  | .lookupPendingDeletion => 13
  | .checkTopLevel _ => 12
  | .insert attempt _ => 2 * (maxBillingLabelAttempts - attempt) + 1
  | .probe attempt _ => 2 * (maxBillingLabelAttempts - attempt)

end CreateCall

structure Inserted (s s' : Store) (td : TenantData) : Prop where
  new : s.tenants.find td.id = none
  find : ∀ n, s'.tenants.find n = if n = td.id then some td else s.tenants.find n
  pending : s'.pending = s.pending

namespace CreateCall

variable {s s' : Store} {c c' : CreateCall}

/-- The call goes on with the same row in the same store, and has not lost its place. -/
structure Continues (s : Store) (c c' : CreateCall) : Prop where
  row : c'.row = c.row
  past : c'.pastParent = true → c.pastParent = true ∨ ParentOpen s c
  remaining : c'.remaining < c.remaining

theorem afterParent_cases (c : CreateCall) : (∃ e, c.afterParent = .returned (.error e)) ∨
      ∃ c', c.afterParent = .running c' ∧ c'.row = c.row ∧ c'.remaining ≤ 12 := by
  unfold afterParent
  cases c.inputs.labels 0 with
  | error e => exact .inl ⟨e, rfl⟩
  | ok label =>
    right
    by_cases hp : c.row.parentID = ""
    · exact ⟨{ c with point := .checkTopLevel label }, by simp [hp], rfl, Nat.le_refl _⟩
    · refine ⟨{ c with point := .insert 0 label }, by simp [hp], rfl, ?_⟩
      simp [remaining, maxBillingLabelAttempts]

theorem insert_eq_ok {pos : ℕ} {td : TenantData} {tenants : TenantTable}
    (h : (if td.parentID = "" then s.tenants.createTopLevelTenant pos td
      else s.tenants.createTenant pos td) = .ok tenants) :
    Inserted s { s with tenants := tenants } td := by
  have hcreate : s.tenants.createTenant pos td = .ok tenants := by
    split at h
    · exact (TenantTable.createTopLevelTenant_eq_ok h).2
    · exact h
  obtain ⟨-, hnew, hfind⟩ := TenantTable.createTenant_eq_ok hcreate
  exact ⟨hnew, hfind, rfl⟩

/-- A step goes on, fails without a trace, or inserts the row. -/
def StepCases (s : Store) (c : CreateCall) (p : Store × Progress CreateCall TenantData) : Prop :=
  (∃ c', p = (s, .running c') ∧ Continues s c c') ∨
    (∃ e, p = (s, .returned (.error e))) ∨
    ∃ s' attempt label, c.point = .insert attempt label ∧
      p = (s', .returned (.ok { c.row with billingLabel := label })) ∧
      Inserted s s' { c.row with billingLabel := label }

theorem StepCases.afterParent (hrem : 12 < c.remaining)
    (h : c.pastParent = true ∨ ParentOpen s c) : StepCases s c (s, c.afterParent) := by
  rcases c.afterParent_cases with ⟨e, he⟩ | ⟨c', hc', hrow, hle⟩
  · exact .inr (.inl ⟨e, by rw [he]⟩)
  · exact .inl ⟨c', by rw [hc'], hrow, fun _ => h, by omega⟩

theorem StepCases.fail (e : TenantError) : StepCases s c (s, .returned (.error e)) :=
  .inr (.inl ⟨e, rfl⟩)

theorem step_cases (s : Store) (c : CreateCall) : StepCases s c (step s c) := by
  unfold step
  split
  case h_1 hpt =>
    cases hg : s.tenants.getTenant c.row.parentID with
    | error e =>
      dsimp only
      split
      · refine .afterParent (by simp [remaining, hpt]) (.inr fun r hr => ?_)
        rw [TenantTable.getTenant_eq_ok.mpr hr] at hg
        cases hg
      · exact .fail _
    | ok parent =>
      dsimp only
      split
      · exact .fail _
      rename_i hopen
      refine .inl ⟨_, rfl, rfl, fun _ => .inr fun r hr => ?_, by simp [remaining, hpt]⟩
      obtain rfl := Option.some.inj ((TenantTable.getTenant_eq_ok.mp hg).symm.trans hr)
      exact hopen
  case h_2 hpt =>
    split
    · exact .fail _
    · exact .afterParent (by simp [remaining, hpt]) (.inl (by simp [pastParent, hpt]))
  case h_3 label hpt =>
    split
    · exact .fail _
    · refine .inl ⟨_, rfl, rfl, fun _ => .inl (by simp [pastParent, hpt]), ?_⟩
      simp [remaining, hpt, maxBillingLabelAttempts]
  case h_4 attempt label hpt =>
    dsimp only
    split
    · rename_i tenants hok
      exact .inr (.inr ⟨_, attempt, label, hpt, rfl, insert_eq_ok hok⟩)
    split
    · refine .inl ⟨_, rfl, rfl, fun _ => .inl (by simp [pastParent, hpt]), ?_⟩
      simp [remaining, hpt]
    · exact .fail _
  case h_5 attempt error hpt =>
    split
    · exact .fail _
    split
    · exact .fail _
    split
    · exact .fail _
    split
    · rename_i hlt
      refine .inl ⟨_, rfl, rfl, fun _ => .inl (by simp [pastParent, hpt]), ?_⟩
      simp only [remaining, hpt]
      omega
    · exact .fail _

theorem step_remaining (s : Store) (c : CreateCall) (s' : Store) (c' : CreateCall) (_ : True)
    (hs : step s c = (s', .running c')) : True ∧ c'.remaining < c.remaining := by
  rcases step_cases s c with ⟨d, hd, hcont⟩ | ⟨e, he⟩ | ⟨u, attempt, label, -, hu, -⟩
  · rw [hd] at hs
    cases hs
    exact ⟨trivial, hcont.remaining⟩
  · rw [he] at hs
    cases hs
  · rw [hu] at hs
    cases hs

theorem start_cases (validator : MountPointValidator) (inputs : CreateInputs)
    (req : TenantRequest) :
    (∃ e, start validator inputs req = .returned (.error e)) ∨
      ∃ tenantID c, checkCreate validator inputs.timestamp req = .ok tenantID ∧
        start validator inputs req = .running c ∧ c.row = newTenantRow tenantID req ∧
        (c.pastParent = true → c.row.parentID = "") ∧ c.remaining ≤ 14 := by
  unfold start
  cases checkCreate validator inputs.timestamp req with
  | error e => exact .inl ⟨e, rfl⟩
  | ok tenantID =>
    dsimp only
    by_cases hp : req.parentID = ""
    · rw [if_pos hp]
      rcases afterParent_cases ⟨inputs, newTenantRow tenantID req, .lookupParent⟩ with
        ⟨e, he⟩ | ⟨c, hc, hrow, hle⟩
      · exact .inl ⟨e, he⟩
      · refine .inr ⟨tenantID, c, rfl, hc, hrow, fun _ => ?_, by omega⟩
        rw [hrow]
        exact hp
    · rw [if_neg hp]
      exact .inr ⟨tenantID, _, rfl, rfl, rfl, by simp [pastParent], Nat.le_refl _⟩

end CreateCall

def createTenant (validator : MountPointValidator) (inputs : CreateInputs) (req : TenantRequest)
    (s : Store) : Store × Progress CreateCall TenantData :=
  match CreateCall.start validator inputs req with
  | .returned result => (s, .returned result)
  | .running c => runWalk CreateCall.step 16 s c

/-- What a returned create call has done: nothing, or it has inserted an active tenant under
a parent that is not suspended. -/
def Created (s s' : Store) : Except TenantError TenantData → Prop
  | .error _ => s' = s
  | .ok td => Inserted s s' td ∧ td.standing = freshStanding ∧
      ∀ r, s.tenants.find td.parentID = some r → r.status ≠ .suspended

/-- The store is untouched so far, and what the call has read of it still holds. -/
def CreateCall.Undisturbed (s s' : Store) (c : CreateCall) : Prop :=
  s' = s ∧ c.row.standing = freshStanding ∧ (c.pastParent = true → c.ParentOpen s)

theorem CreateCall.Undisturbed.proceeds {s : Store} (u : Store) (c : CreateCall)
    (h : Undisturbed s u c) :
    Proceeds step (Undisturbed s) (Created s) u c := by
  obtain ⟨rfl, hrow, hopen⟩ := h
  rcases step_cases u c with ⟨c', hc', hcont⟩ | ⟨e, he⟩ | ⟨s', attempt, label, hpt, hs', hins⟩
  · refine .inl ⟨u, c', hc', ⟨rfl, hcont.row ▸ hrow, fun hp r hr => ?_⟩⟩
    rw [hcont.row] at hr
    rcases hcont.past hp with hp | hp
    · exact hopen hp r hr
    · exact hp r hr
  · exact .inr ⟨u, _, he, rfl⟩
  · exact .inr ⟨s', _, hs', hins, hrow, hopen (by simp [pastParent, hpt])⟩

variable (validator : MountPointValidator)

theorem createTenant_spec (inputs : CreateInputs) (req : TenantRequest) (s : Store) :
    ∃ s' result, createTenant validator inputs req s = (s', .returned result) ∧
      Created s s' result := by
  unfold createTenant
  rcases CreateCall.start_cases validator inputs req with
    ⟨e, he⟩ | ⟨tenantID, c, -, hc, hrow, hpast, hle⟩
  · exact ⟨s, .error e, by rw [he], rfl⟩
  · have hstart : CreateCall.Undisturbed s s c := by
      refine ⟨rfl, by rw [hrow]; rfl, fun hp r hr => ?_⟩
      rw [hpast hp] at hr
      exact absurd rfl (TenantTable.find_ne hr)
    rw [hc]
    obtain ⟨s', result, hrun⟩ := runWalk_returns (fun _ c => c.remaining)
      CreateCall.step_remaining 16 s c trivial (by omega)
    exact ⟨s', result, hrun, runWalk_result CreateCall.Undisturbed.proceeds 16 s c hstart _ _ hrun⟩

theorem createTenant_row {validator : MountPointValidator} {inputs : CreateInputs}
    {req : TenantRequest} {s s' : Store} {td : TenantData}
    (h : createTenant validator inputs req s = (s', .returned (.ok td))) :
    checkCreate validator inputs.timestamp req = .ok td.id ∧ td.parentID = req.parentID := by
  unfold createTenant at h
  rcases CreateCall.start_cases validator inputs req with
    ⟨e, he⟩ | ⟨tenantID, c, hcheck, hc, hrow, -⟩
  · rw [he] at h
    cases h
  · rw [hc] at h
    have hstep : ∀ (u : Store) (d : CreateCall), d.row = c.row →
        Proceeds CreateCall.step (fun _ d' => d'.row = c.row)
          (fun _ result => ∀ td, result = .ok td →
            td.id = c.row.id ∧ td.parentID = c.row.parentID) u d := by
      intro u d hd
      rcases CreateCall.step_cases u d with
        ⟨d', hs, hcont⟩ | ⟨e, hs⟩ | ⟨u', attempt, label, -, hs, -⟩
      · exact .inl ⟨u, d', hs, hcont.row.trans hd⟩
      · exact .inr ⟨u, _, hs, by simp⟩
      · refine .inr ⟨u', _, hs, ?_⟩
        rintro _ ⟨⟩
        rw [hd]
        exact ⟨rfl, rfl⟩
    obtain ⟨hid, hparent⟩ := runWalk_result hstep 16 s c rfl s' _ h td rfl
    rw [hcheck, hid, hparent, hrow]
    exact ⟨rfl, rfl⟩

inductive UpdatePoint where
  | get
  | write (row : TenantData)

structure UpdateCall where
  validator : MountPointValidator
  tenantID : String
  req : TenantRequest
  point : UpdatePoint

namespace UpdateCall

def start (validator : MountPointValidator) (tenantID : String) (req : TenantRequest) :
    UpdateCall :=
  ⟨validator, tenantID, req, .get⟩

/-- The row is read once and written back whole. -/
def step (s : Store) (u : UpdateCall) : Store × Progress UpdateCall TenantData :=
  match u.point with
  | .get =>
    match s.tenants.getTenant u.tenantID with
    | .error e => (s, .returned (.error e))
    | .ok existing =>
      match checkUpdate u.validator u.tenantID u.req with
      | .error e => (s, .returned (.error e))
      | .ok () => (s, .running { u with point := .write (updatedRow existing u.req) })
  | .write row =>
    match s.tenants.updateTenant row with
    | .error e => (s, .returned (.error (.wrapped "failed to update tenant" e)))
    | .ok tenants => ({ s with tenants := tenants }, .returned (.ok row))

end UpdateCall

def updateTenant (validator : MountPointValidator) (tenantID : String) (req : TenantRequest)
    (s : Store) : Store × Progress UpdateCall TenantData :=
  runWalk UpdateCall.step 3 s (.start validator tenantID req)

theorem updateTenant_spec (tenantID : String) (req : TenantRequest) (s : Store) :
    ∃ s' result, updateTenant validator tenantID req s = (s', .returned result) ∧
      SameStandings s.tenants s'.tenants ∧ s'.pending = s.pending := by
  have hsame := SameStandings.refl s.tenants
  cases hg : s.tenants.getTenant tenantID with
  | error e =>
    refine ⟨s, .error e, ?_, hsame, rfl⟩
    simp [updateTenant, runWalk, UpdateCall.step, UpdateCall.start, hg]
  | ok existing =>
    cases hc : checkUpdate validator tenantID req with
    | error e =>
      refine ⟨s, .error e, ?_, hsame, rfl⟩
      simp [updateTenant, runWalk, UpdateCall.step, UpdateCall.start, hg, hc]
    | ok u =>
      have hr := TenantTable.getTenant_eq_ok.mp hg
      have hid : existing.id = tenantID := TenantTable.find_id hr
      have hr' : s.tenants.find (updatedRow existing req).id = some existing := hid ▸ hr
      have hw := TenantTable.updateTenant_eq_ok.mpr ⟨⟨existing, hr'⟩, rfl⟩
      refine ⟨{ s with tenants := s.tenants.replace (updatedRow existing req) },
        .ok (updatedRow existing req), ?_, sameStandings_replace hr' rfl rfl, rfl⟩
      simp [updateTenant, runWalk, UpdateCall.step, UpdateCall.start, hg, hc, hw]

end Cfgms.Tenant
