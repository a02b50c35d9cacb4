import Cfgms.Tenant.Walk

/-! # Cascades return

A tenant that a cascade meets again is reported as a cycle, so each row is visited once and
both cascades return on every table, whether or not the tenants form a forest.
-/

namespace Cfgms.Tenant

open List

variable {t t' : TenantTable} {T : String}

/-- The visited tenants differ, and have rows except perhaps for the target. -/
def Visits (t : TenantTable) (T : String) (visited : List String) : Prop :=
  visited.Nodup ∧ ∀ v ∈ visited, v = T ∨ t.find v ≠ none

namespace Visits

variable {visited : List String}

theorem start (t : TenantTable) (T : String) : Visits t T [T] :=
  ⟨nodup_singleton T, fun _ hv => Or.inl (mem_singleton.mp hv)⟩

variable (h : Visits t T visited)
include h

theorem length_le : visited.length ≤ t.rows.length + 1 := by
  have hsub : visited ⊆ T :: t.rows.map (·.id) := by
    intro v hv
    rcases h.2 v hv with rfl | hrow
    · exact mem_cons_self
    refine mem_cons_of_mem _ ?_
    by_contra hnot
    exact hrow (TenantTable.find_eq_none_iff.mpr hnot)
  simpa using (subperm_of_subset h.1 hsub).length_le

theorem cons {id : String} (hid : id ∉ visited)
    (hrow : t.find id ≠ none) : Visits t T (id :: visited) :=
  ⟨nodup_cons.mpr ⟨hid, h.1⟩, forall_mem_cons.mpr ⟨.inr hrow, h.2⟩⟩

theorem enqueue {queue visited' queue' : List String} {children : List TenantData}
    (hrow : ∀ c ∈ children, t.find c.id ≠ none)
    (hok : enqueueChildren visited queue children = .ok (visited', queue')) :
    Visits t T visited' := by
  obtain ⟨hnodup, hnew, rfl, -⟩ := enqueueChildren_cases hok
  constructor
  · refine List.Nodup.append (nodup_reverse.mpr hnodup) h.1 fun id hid hv => ?_
    obtain ⟨c, hc, rfl⟩ := mem_map.mp (mem_reverse.mp hid)
    exact hnew c hc hv
  · intro v hv
    rcases mem_append.mp hv with hv | hv
    · obtain ⟨c, hc, rfl⟩ := mem_map.mp (mem_reverse.mp hv)
      exact Or.inr (hrow c hc)
    · exact h.2 v hv

theorem update {td : TenantData} (hok : t.updateTenant td = .ok t') : Visits t' T visited :=
  ⟨h.1, fun v hv => (h.2 v hv).imp_right (TenantTable.updateTenant_present hok)⟩

end Visits

namespace SuspendWalk

/-- The steps that are still to be taken, at three for each tenant not yet visited. -/
def remaining (t : TenantTable) (w : SuspendWalk) : ℕ :=
  3 * (t.rows.length + 1 - w.visited.length) + 3 * w.queue.length +
    match w.point with
    | .pop => 0
    | .write _ => 2
    | .expand _ => 1

theorem step_remaining (t : TenantTable) (w : SuspendWalk) (t' : TenantTable) (w' : SuspendWalk)
    (h : Visits t w.target w.visited) (hs : step t w = (t', .running w')) :
    Visits t' w'.target w'.visited ∧ w'.remaining t' < w.remaining t := by
  revert hs
  fun_cases step t w <;> rintro ⟨⟩
  · rename_i hpt _ _ hq _ _ _ _ _
    refine ⟨h, ?_⟩
    simp only [remaining, hpt, hq, length_cons]
    omega
  · next hpt hok =>
    refine ⟨h.update hok, ?_⟩
    simp only [remaining, hpt, TenantTable.length_updateTenant hok]
    omega
  · next hpt _ _ hok =>
    have hv := h.enqueue (fun c hc => TenantTable.find_of_mem_getChildTenants hc) hok
    have hle := hv.length_le
    obtain ⟨-, -, rfl, rfl⟩ := enqueueChildren_cases hok
    refine ⟨hv, ?_⟩
    simp only [remaining, hpt, length_append, length_reverse] at hle ⊢
    omega

end SuspendWalk

theorem suspendTenant_returns (t : TenantTable) (tenantID : String) :
    ∃ t' result, suspendTenant t tenantID = (t', .returned result) := by
  unfold suspendTenant suspendTenantWithin
  split
  · exact ⟨t, _, rfl⟩
  refine runWalk_returns (fun t w => w.remaining t) SuspendWalk.step_remaining _ t _
    (Visits.start t tenantID) ?_
  simp only [SuspendWalk.remaining, SuspendWalk.start, length_singleton]
  omega

namespace RestoreWalk

theorem restoreChild_id (w : RestoreWalk) (carrier : Option String) (child : TenantData) :
    (w.restoreChild carrier child).1.id = child.id := by
  unfold restoreChild
  dsimp only
  split <;> rfl

/-- The listed children that are still to be handled. -/
def listed (w : RestoreWalk) : List TenantData :=
  match w.point with
  | .children _ children => children
  | .writeChild _ _ children => children
  | _ => []

/-- The steps that are still to be taken, at four for each tenant not yet visited. -/
def remaining (t : TenantTable) (w : RestoreWalk) : ℕ :=
  4 * (t.rows.length + 1 - w.visited.length) + 2 * w.queue.length +
    match w.point with
    | .get => 4
    | .writeTarget _ => 3
    | .pop => 0
    | .children _ _ => 1
    | .writeChild _ _ _ => 4

/-- Listed children have rows as well. -/
def Bounded (t : TenantTable) (w : RestoreWalk) : Prop :=
  Visits t w.target w.visited ∧ ∀ c ∈ w.listed, t.find c.id ≠ none

theorem step_remaining (t : TenantTable) (w : RestoreWalk) (t' : TenantTable) (w' : RestoreWalk)
    (h : w.Bounded t) (hs : step t w = (t', .running w')) :
    w'.Bounded t' ∧ w'.remaining t' < w.remaining t := by
  obtain ⟨hv, hl⟩ := h
  revert hs
  fun_cases step t w <;> rintro ⟨⟩
  case case2 hpt _ _ => exact ⟨⟨hv, by simp [listed]⟩, by simp [remaining, hpt]⟩
  case case4 hpt hok =>
    refine ⟨⟨hv.update hok, by simp [listed]⟩, ?_⟩
    simp only [remaining, hpt, TenantTable.length_updateTenant hok, length_singleton]
    omega
  case case6 hpt _ _ _ hq =>
    refine ⟨⟨hv, fun c hc => TenantTable.find_of_mem_getChildTenants hc⟩, ?_⟩
    simp only [remaining, hpt, hq, length_cons]
    omega
  case case7 hpt => exact ⟨⟨hv, by simp [listed]⟩, by simp [remaining, hpt]⟩
  case case9 hpt hnew _ =>
    simp only [listed, hpt, forall_mem_cons] at hl
    have hv' := hv.cons hnew hl.1
    have hle := hv'.length_le
    rw [length_cons] at hle
    refine ⟨⟨hv', hl.2⟩, ?_⟩
    simp only [remaining, hpt, length_cons, length_append, length_nil]
    omega
  case case10 carrier child children hpt hnew _ _ _ hchild =>
    simp only [listed, hpt, forall_mem_cons] at hl
    have hv' := hv.cons hnew hl.1
    have hle := hv'.length_le
    rw [length_cons] at hle
    rw [← restoreChild_id w carrier child, hchild] at hv'
    refine ⟨⟨hv', hl.2⟩, ?_⟩
    simp only [remaining, hpt, length_cons]
    omega
  case case12 hpt hok =>
    simp only [listed, hpt] at hl
    refine ⟨⟨hv.update hok, fun c hc => TenantTable.updateTenant_present hok (hl c hc)⟩, ?_⟩
    simp only [remaining, hpt, TenantTable.length_updateTenant hok, length_append,
      length_singleton]
    omega

end RestoreWalk

theorem restoreTenant_returns (t : TenantTable) (tenantID : String) :
    ∃ t' result, restoreTenant t tenantID = (t', .returned result) := by
  refine runWalk_returns (fun t w => w.remaining t) RestoreWalk.step_remaining _ t _
    ⟨Visits.start t tenantID, by simp [RestoreWalk.listed, RestoreWalk.start]⟩ ?_
  simp only [RestoreWalk.remaining, RestoreWalk.start, length_singleton, length_nil]
  omega

end Cfgms.Tenant
