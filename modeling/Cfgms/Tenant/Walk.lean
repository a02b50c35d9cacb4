import Cfgms.Tenant.Store

/-! # Cascading suspend and restore

Both operations walk the subtree of their target level by level. A walk is a machine that makes
at most one store call a step, so that it can be cut short or interleaved with other calls; run
on its own until it stops, it is the operation.
-/

namespace Cfgms.Tenant

open List

/-- Where a call stands after a step: still under way, or returned. -/
inductive Progress (ω ρ : Type*) where
  | running (w : ω)
  | returned (result : Except TenantError ρ)

section Run

variable {σ ω ρ : Type*} (step : σ → ω → σ × Progress ω ρ)

/-- Steps are taken until the call returns or the fuel is used up. -/
def runWalk : ℕ → σ → ω → σ × Progress ω ρ
  | 0, t, w => (t, .running w)
  | fuel + 1, t, w =>
    match step t w with
    | (t', .running w') => runWalk fuel t' w'
    | (t', .returned result) => (t', .returned result)

/-- The next step goes on with the invariant, or returns. -/
def Proceeds (I : σ → ω → Prop) (Q : σ → Except TenantError ρ → Prop) (t : σ) (w : ω) : Prop :=
  (∃ t' w', step t w = (t', .running w') ∧ I t' w') ∨
    ∃ t' result, step t w = (t', .returned result) ∧ Q t' result

variable {step} {I : σ → ω → Prop} {Q : σ → Except TenantError ρ → Prop}

theorem runWalk_result (hstep : ∀ t w, I t w → Proceeds step I Q t w) :
    ∀ (fuel : ℕ) (t : σ) (w : ω), I t w → ∀ t' result,
      runWalk step fuel t w = (t', .returned result) → Q t' result
  | 0, _, _, _, _, _, h => by
    cases h
  | fuel + 1, t, w, hI, t', result, h => by
    rw [runWalk] at h
    rcases hstep t w hI with ⟨t₁, w₁, hs, hI₁⟩ | ⟨t₁, result₁, hs, hQ⟩
    · rw [hs] at h
      exact runWalk_result hstep fuel t₁ w₁ hI₁ t' result h
    rw [hs] at h
    cases h
    exact hQ

theorem runWalk_state {P : σ → Prop} (hstep : ∀ t w, I t w → Proceeds step I Q t w)
    (hI : ∀ t w, I t w → P t) (hQ : ∀ t result, Q t result → P t) :
    ∀ (fuel : ℕ) (t : σ) (w : ω), I t w → P (runWalk step fuel t w).1
  | 0, t, w, h => hI t w h
  | fuel + 1, t, w, h => by
    rw [runWalk]
    rcases hstep t w h with ⟨t', w', hs, hI'⟩ | ⟨t', result, hs, hQ'⟩
    · rw [hs]
      exact runWalk_state hstep hI hQ fuel t' w' hI'
    · rw [hs]
      exact hQ t' result hQ'

theorem runWalk_returns (μ : σ → ω → ℕ)
    (hstep : ∀ t w t' w', I t w → step t w = (t', .running w') → I t' w' ∧ μ t' w' < μ t w) :
    ∀ (fuel : ℕ) (t : σ) (w : ω), I t w → μ t w < fuel →
      ∃ t' result, runWalk step fuel t w = (t', .returned result)
  | 0, _, _, _, hμ => absurd hμ (Nat.not_lt_zero _)
  | fuel + 1, t, w, hI, hμ => by
    rw [runWalk]
    rcases hs : step t w with ⟨t', w' | result⟩
    · obtain ⟨hI', hlt⟩ := hstep t w t' w' hI hs
      exact runWalk_returns μ hstep fuel t' w' hI' (by omega)
    · exact ⟨t', result, rfl⟩

theorem runWalk_of_returned {t t' : σ} {w : ω} {result : Except TenantError ρ}
    (h : step t w = (t', .returned result)) (fuel : ℕ) :
    runWalk step (fuel + 1) t w = (t', .returned result) := by
  rw [runWalk, h]

end Run

/-- Mark the children as visited and put them in the queue; a child seen before is a cycle. -/
def enqueueChildren : List String → List String → List TenantData →
    Except TenantError (List String × List String)
  | visited, queue, [] => .ok (visited, queue)
  | visited, queue, child :: children =>
    if child.id ∈ visited then .error (.cycleDetected child.id)
    else enqueueChildren (child.id :: visited) (queue ++ [child.id]) children

variable {visited queue : List String} {children : List TenantData}

theorem enqueueChildren_cases {visited' queue' : List String}
    (h : enqueueChildren visited queue children = .ok (visited', queue')) :
    (children.map (·.id)).Nodup ∧ (∀ c ∈ children, c.id ∉ visited) ∧
      visited' = (children.map (·.id)).reverse ++ visited ∧
      queue' = queue ++ children.map (·.id) := by
  revert h
  fun_induction enqueueChildren visited queue children with
  | case1 =>
    rintro ⟨⟩
    simp
  | case2 => nofun
  | case3 visited queue c children hc ih =>
    intro h
    obtain ⟨hnodup, hnew, rfl, rfl⟩ := ih h
    simp only [mem_cons, not_or] at hnew
    refine ⟨?_, ?_, by simp, by simp⟩
    · rw [map_cons, nodup_cons]
      refine ⟨fun hmem => ?_, hnodup⟩
      obtain ⟨c', hc', he⟩ := mem_map.mp hmem
      exact (hnew c' hc').1 he
    · rintro c' (_ | ⟨_, hc'⟩)
      · exact hc
      · exact (hnew c' hc').2

theorem enqueueChildren_eq_ok
    (hnodup : (children.map (·.id)).Nodup) (hnew : ∀ c ∈ children, c.id ∉ visited) :
    enqueueChildren visited queue children =
      .ok ((children.map (·.id)).reverse ++ visited, queue ++ children.map (·.id)) := by
  induction children generalizing visited queue with
  | nil => simp [enqueueChildren]
  | cons c children ih =>
    rw [map_cons, nodup_cons] at hnodup
    have hnew' : ∀ c' ∈ children, c'.id ∉ c.id :: visited := by
      intro c' hc'
      rw [mem_cons, not_or]
      refine ⟨fun he => hnodup.1 (mem_map.mpr ⟨c', hc', he⟩), hnew c' ?_⟩
      exact mem_cons_of_mem _ hc'
    rw [enqueueChildren, if_neg (hnew c mem_cons_self), ih hnodup.2 hnew']
    simp

structure CascadeSuspendResult where
  target : String
  newlyCascadeSuspended : List String
  alreadySuspended : List String
  deriving DecidableEq

inductive SuspendPoint where
  | pop
  | write (current : TenantData)
  | expand (currentID : String)

structure SuspendWalk where
  target : String
  visited : List String
  queue : List String
  result : CascadeSuspendResult
  point : SuspendPoint

namespace SuspendWalk

def start (tenantID : String) : SuspendWalk :=
  ⟨tenantID, [tenantID], [tenantID], ⟨tenantID, [], []⟩, .pop⟩

/-- The provenance of a descendant: a suspension from outside the subtree survives. -/
def claimProvenance (w : SuspendWalk) (current : TenantData) : TenantData :=
  match current.cascadeSuspendedFrom with
  | none => { current with cascadeSuspendedFrom := some w.target }
  | some a =>
    if a ∈ w.visited then { current with cascadeSuspendedFrom := some w.target } else current

def suspendRow (w : SuspendWalk) (current : TenantData) : TenantData × CascadeSuspendResult :=
  if current.id = w.target then
    ({ current with directlySuspended := true, status := .suspended }, w.result)
  else
    let current := w.claimProvenance current
    if current.directlySuspended then
      (current, { w.result with
        alreadySuspended := w.result.alreadySuspended ++ [current.id] })
    else
      ({ current with status := .suspended }, { w.result with
        newlyCascadeSuspended := w.result.newlyCascadeSuspended ++ [current.id] })

def step (t : TenantTable) (w : SuspendWalk) :
    TenantTable × Progress SuspendWalk CascadeSuspendResult :=
  match w.point with
  | .pop =>
    match w.queue with
    | [] => (t, .returned (.ok w.result))
    | currentID :: queue =>
      match t.getTenant currentID with
      | .error e => (t, .returned (.error e))
      | .ok current =>
        let (current, result) := w.suspendRow current
        (t, .running { w with queue := queue, result := result, point := .write current })
  | .write current =>
    match t.updateTenant current with
    | .error e => (t, .returned (.error e))
    | .ok t' => (t', .running { w with point := .expand current.id })
  | .expand currentID =>
    match enqueueChildren w.visited w.queue (t.getChildTenants currentID) with
    | .error e => (t, .returned (.error e))
    | .ok (visited, queue) =>
      (t, .running { w with visited := visited, queue := queue, point := .pop })

end SuspendWalk

structure CascadeRestoreResult where
  target : String
  restored : List String
  stillSuspended : List String
  deriving DecidableEq

inductive RestorePoint where
  | get
  | writeTarget (existing : TenantData)
  | pop
  | children (suspendedAncestor : Option String) (children : List TenantData)
  | writeChild (suspendedAncestor : Option String) (child : TenantData)
      (children : List TenantData)

/-- Queue entries carry the suspended ancestor that still contains their children. -/
structure RestoreWalk where
  target : String
  visited : List String
  queue : List (String × Option String)
  result : CascadeRestoreResult
  point : RestorePoint

def childProvenanceAfterRestore (td : TenantData) : Option String :=
  match td.cascadeSuspendedFrom with
  | some a => some a
  | none => if td.status = .suspended then some td.id else none

namespace RestoreWalk

def start (tenantID : String) : RestoreWalk :=
  ⟨tenantID, [tenantID], [], ⟨tenantID, [], []⟩, .get⟩

/-- The target loses its own suspension and keeps what an ancestor imposes. -/
def restoreTarget (existing : TenantData) : TenantData :=
  let existing := { existing with directlySuspended := false }
  if existing.cascadeSuspendedFrom = none then { existing with status := .active } else existing

def restoreChild (w : RestoreWalk) (suspendedAncestor : Option String) (child : TenantData) :
    TenantData × CascadeRestoreResult :=
  let child := { child with cascadeSuspendedFrom := suspendedAncestor }
  if child.directlySuspended ∨ child.cascadeSuspendedFrom ≠ none then
    ({ child with status := .suspended }, { w.result with
      stillSuspended := w.result.stillSuspended ++ [child.id] })
  else
    ({ child with status := .active }, { w.result with
      restored := w.result.restored ++ [child.id] })

def step (t : TenantTable) (w : RestoreWalk) :
    TenantTable × Progress RestoreWalk CascadeRestoreResult :=
  match w.point with
  | .get =>
    match t.getTenant w.target with
    | .error e => (t, .returned (.error e))
    | .ok existing => (t, .running { w with point := .writeTarget (restoreTarget existing) })
  | .writeTarget existing =>
    match t.updateTenant existing with
    | .error e => (t, .returned (.error e))
    | .ok t' => (t', .running { w with
        queue := [(w.target, childProvenanceAfterRestore existing)], point := .pop })
  | .pop =>
    match w.queue with
    | [] => (t, .returned (.ok w.result))
    | (currentID, suspendedAncestor) :: queue =>
      (t, .running { w with
        queue := queue, point := .children suspendedAncestor (t.getChildTenants currentID) })
  | .children _ [] => (t, .running { w with point := .pop })
  | .children suspendedAncestor (child :: children) =>
    if child.id ∈ w.visited then (t, .returned (.error (.cycleDetected child.id)))
    else if child.cascadeSuspendedFrom ≠ some w.target then
      -- not part of this cascade: it carries its own containment onwards
      (t, .running { w with
        visited := child.id :: w.visited
        queue := w.queue ++ [(child.id, childProvenanceAfterRestore child)]
        point := .children suspendedAncestor children })
    else
      let (child, result) := w.restoreChild suspendedAncestor child
      (t, .running { w with
        visited := child.id :: w.visited
        result := result
        point := .writeChild suspendedAncestor child children })
  | .writeChild suspendedAncestor child children =>
    match t.updateTenant child with
    | .error e => (t, .returned (.error e))
    | .ok t' => (t', .running { w with
        queue := w.queue ++ [(child.id, childProvenanceAfterRestore child)]
        point := .children suspendedAncestor children })

end RestoreWalk

variable {t : TenantTable}

theorem SuspendWalk.step_start_missing {T : String} (h : t.find T = none) :
    ∃ e, SuspendWalk.step t (.start T) = (t, .returned (.error e)) := by
  cases hg : t.getTenant T with
  | ok r => simp [TenantTable.getTenant_eq_ok.mp hg] at h
  | error e => exact ⟨e, by simp [step, start, hg]⟩

theorem RestoreWalk.step_start_missing {T : String} (h : t.find T = none) :
    ∃ e, RestoreWalk.step t (.start T) = (t, .returned (.error e)) := by
  cases hg : t.getTenant T with
  | ok r => simp [TenantTable.getTenant_eq_ok.mp hg] at h
  | error e => exact ⟨e, by simp [step, start, hg]⟩

def topLevelTenantIDs (t : TenantTable) : List String :=
  (t.rows.filter (·.parentID == "")).map (·.id)

/-- Several tenants without a parent are no root, and neither are none. -/
def rootTenantID (t : TenantTable) : String :=
  match topLevelTenantIDs t with
  | [id] => id
  | _ => ""

def isProtectedRootTenant (t : TenantTable) (tenantID : String) : Bool :=
  if rootTenantID t ≠ "" then tenantID = rootTenantID t
  else
    match t.getTenant tenantID with
    | .error .tenantDoesNotExist => false
    | .error _ => true
    | .ok td => td.parentID = ""

/-- Suspend until the call returns or has taken the given number of steps. -/
def suspendTenantWithin (steps : ℕ) (t : TenantTable) (tenantID : String) :
    TenantTable × Progress SuspendWalk CascadeSuspendResult :=
  if isProtectedRootTenant t tenantID then (t, .returned (.error .cannotSuspendRoot))
  else runWalk SuspendWalk.step steps t (.start tenantID)

/-- A row is read, written and expanded once, so three steps a row are enough. -/
def suspendTenant (t : TenantTable) (tenantID : String) :
    TenantTable × Progress SuspendWalk CascadeSuspendResult :=
  suspendTenantWithin (3 * t.rows.length + 4) t tenantID

/-- Restore until the call returns or has taken the given number of steps. -/
def restoreTenantWithin (steps : ℕ) (t : TenantTable) (tenantID : String) :
    TenantTable × Progress RestoreWalk CascadeRestoreResult :=
  runWalk RestoreWalk.step steps t (.start tenantID)

def restoreTenant (t : TenantTable) (tenantID : String) :
    TenantTable × Progress RestoreWalk CascadeRestoreResult :=
  restoreTenantWithin (4 * t.rows.length + 5) t tenantID

theorem mem_topLevelTenantIDs {id : String} :
    id ∈ topLevelTenantIDs t ↔ ∃ r, t.find id = some r ∧ r.parentID = "" := by
  simp only [topLevelTenantIDs, mem_map, mem_filter, beq_iff_eq,
    TenantTable.find_eq_some_iff]
  exact exists_congr fun r => by tauto

theorem isProtectedRootTenant_of_find {id : String} {r : TenantData}
    (h : t.find id = some r) : isProtectedRootTenant t id = decide (r.parentID = "") := by
  have hmem : id ∈ topLevelTenantIDs t ↔ r.parentID = "" := by
    simp [mem_topLevelTenantIDs, h]
  unfold isProtectedRootTenant
  by_cases hroot : rootTenantID t = ""
  · simp [hroot, TenantTable.getTenant_eq_ok.mpr h]
  have hone : topLevelTenantIDs t = [rootTenantID t] := by
    unfold rootTenantID at hroot ⊢
    split
    · assumption
    · simp_all
  rw [if_pos hroot]
  simpa [hone] using hmem

end Cfgms.Tenant
