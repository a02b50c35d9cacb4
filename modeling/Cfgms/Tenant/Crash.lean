import Cfgms.Tenant.Restore
import Cfgms.Tenant.Suspend

/-! # Interrupted cascades

A cascade that is cut short leaves a table between the two sets of marks. Running it again
drives every row to the same set as an uninterrupted run, and rows that are not suspended in
the end have the status that they would have had.
-/

namespace Cfgms.Tenant

open Forest

/-- The tables hold the same tenants with the same status and provenance. -/
def SameRecords (t t' : TenantTable) : Prop :=
  ∀ n, (t.find n).map TenantData.standing = (t'.find n).map TenantData.standing

/-- Both calls returned, with or without success alike, and left the same records. -/
structure SameOutcome {ω ρ : Type*} (c c' : TenantTable × Progress ω ρ) : Prop where
  returned : ∃ result result', c.2 = .returned result ∧ c'.2 = .returned result' ∧
    (result.isOk ↔ result'.isOk)
  records : SameRecords c.1 c'.1

theorem SameOutcome.refl {ω ρ : Type*} {c : TenantTable × Progress ω ρ}
    (h : ∃ t' result, c = (t', .returned result)) : SameOutcome c c := by
  obtain ⟨t', result, rfl⟩ := h
  exact ⟨⟨result, result, rfl, rfl, Iff.rfl⟩, fun _ => rfl⟩

theorem SameOutcome.of_ok {ω ρ : Type*} {t t' : TenantTable} (r r' : ρ)
    (h : SameRecords t t') :
    SameOutcome (ω := ω) (t, .returned (.ok r)) (t', .returned (.ok r')) :=
  ⟨⟨.ok r, .ok r', rfl, rfl, Iff.rfl⟩, h⟩

variable {t t₁ t₂ : TenantTable} {D : String → Prop} {T : String}

theorem Settled.sameRecords (h₁ : Settled t₁ D) (h₂ : Settled t₂ D)
    (hparent : parentOf t₁ = parentOf t₂)
    (hpresent : ∀ n, t₁.find n = none ↔ t₂.find n = none)
    (hstatus : ∀ n r₁ r₂, t₁.find n = some r₁ → t₂.find n = some r₂ → r₁.status ≠ .suspended →
      r₂.status ≠ .suspended → r₁.status = r₂.status) : SameRecords t₁ t₂ := by
  intro n
  cases hr₁ : t₁.find n with
  | none => rw [(hpresent n).mp hr₁]
  | some r₁ =>
    cases hr₂ : t₂.find n with
    | none => rw [(hpresent n).mpr hr₂] at hr₁; cases hr₁
    | some r₂ =>
      have hfit₁ := h₁.fits n r₁ hr₁
      have hfit₂ := (fits_congr hparent).mpr (h₂.fits n r₂ hr₂)
      exact congrArg some (hfit₁.unique hfit₂ (hstatus n r₁ r₂ hr₁ hr₂))

theorem unsuspended_active {status : TenantStatus} (hd : status ≠ .deleted)
    (hs : status ≠ .suspended) : status = .active := by
  cases status <;> simp_all

theorem sameRecords_of_suspends (hs₁ : Suspends t t₁) (hs₂ : Suspends t t₂) (h₁ : Settled t₁ D)
    (h₂ : Settled t₂ D) : SameRecords t₁ t₂ := by
  refine h₁.sameRecords h₂ (hs₁.parent.trans hs₂.parent.symm) (fun n => ?_)
    fun n r₁ r₂ hr₁ hr₂ hne₁ hne₂ => ?_
  · rw [hs₁.find_eq_none, hs₂.find_eq_none]
  · obtain ⟨r, hr, -, -, hst₁⟩ := hs₁.row n r₁ hr₁
    obtain ⟨r', hr', -, -, hst₂⟩ := hs₂.row n r₂ hr₂
    cases hr.symm.trans hr'
    exact (hst₁.resolve_left hne₁).trans (hst₂.resolve_left hne₂).symm

theorem sameRecords_of_finished {T : String} (h₁ : RestoreWalk.Finished t D T t₁)
    (h₂ : RestoreWalk.Finished t D T t₂) : SameRecords t₁ t₂ := by
  have hs₁ := h₁.restores
  have hs₂ := h₂.restores
  refine h₁.settled.sameRecords h₂.settled (hs₁.parent.trans hs₂.parent.symm) (fun n => ?_)
    fun n r₁ r₂ hr₁ hr₂ hne₁ hne₂ => ?_
  · rw [hs₁.find_eq_none, hs₂.find_eq_none]
  · by_cases hn : n = T
    · subst hn
      rw [unsuspended_active (h₁.target r₁ hr₁) hne₁, unsuspended_active (h₂.target r₂ hr₂) hne₂]
    · obtain ⟨r, hr, -, hl₁⟩ := hs₁.row n r₁ hr₁
      obtain ⟨r', hr', -, hl₂⟩ := hs₂.row n r₂ hr₂
      cases hr.symm.trans hr'
      exact (hl₁.unsuspended hn hne₁).trans (hl₂.unsuspended hn hne₂).symm

/-- Suspending again after any number of steps gives the same records. -/
theorem suspendTenant_resumed (h : Settled t D) (T : String) (steps : ℕ) :
    SameOutcome (suspendTenant (suspendTenantWithin steps t T).1 T) (suspendTenant t T) := by
  by_cases hidle : isProtectedRootTenant t T = true ∨ t.find T = none
  · have hsame : (suspendTenantWithin steps t T).1 = t := by
      unfold suspendTenantWithin
      split
      · rfl
      next hprot =>
      obtain ⟨e, he⟩ := SuspendWalk.step_start_missing (hidle.resolve_left hprot)
      cases steps with
      | zero => rfl
      | succ k => rw [runWalk_of_returned he]
    rw [hsame]
    exact .refl (suspendTenant_returns t T)
  obtain ⟨hprot, hT⟩ := not_or.mp hidle
  have hmixed := h.mixed hT
  have hhalf : (suspendTenantWithin steps t T).1 =
      (runWalk SuspendWalk.step steps t (.start T)).1 := by
    rw [suspendTenantWithin, if_neg hprot]
  rw [hhalf]
  obtain ⟨hmixed', hs⟩ := SuspendWalk.runWalk_mixed hmixed steps
  have hprot' : isProtectedRootTenant (runWalk SuspendWalk.step steps t (.start T)).1 T =
      false := by
    obtain ⟨r, hr⟩ := Option.ne_none_iff_exists'.mp hT
    obtain ⟨r', hr', hp, -⟩ := hs.of_find hr
    rw [isProtectedRootTenant_of_find hr', hp, ← isProtectedRootTenant_of_find hr]
    exact eq_false_of_ne_true hprot
  obtain ⟨t₁, result₁, hrun₁, hset₁, hs₁⟩ := suspendTenant_of_mixed hmixed' hprot'
  obtain ⟨t₂, result₂, hrun₂, hset₂, hs₂⟩ :=
    suspendTenant_of_mixed hmixed (eq_false_of_ne_true hprot)
  rw [hrun₁, hrun₂]
  exact .of_ok _ _
    (sameRecords_of_suspends (hs.trans KeepsSuspended.trans hs₁) hs₂ hset₁ hset₂)

theorem restoreTenant_resumed (h : Settled t D) (T : String) (steps : ℕ) :
    SameOutcome (restoreTenant (restoreTenantWithin steps t T).1 T) (restoreTenant t T) := by
  by_cases hT : t.find T = none
  · obtain ⟨e, he⟩ := RestoreWalk.step_start_missing hT
    have hsame : (restoreTenantWithin steps t T).1 = t := by
      rw [restoreTenantWithin]
      cases steps with
      | zero => rfl
      | succ k => rw [runWalk_of_returned he]
    rw [hsame]
    exact .refl (restoreTenant_returns t T)
  · have hmixed := h.mixed hT
    obtain ⟨hmixed', hs⟩ := RestoreWalk.runWalk_mixed hmixed steps
    obtain ⟨t₁, result₁, hrun₁, hfin₁⟩ := restoreTenant_of_mixed hmixed'
    obtain ⟨t₂, result₂, hrun₂, hfin₂⟩ := restoreTenant_of_mixed hmixed
    rw [restoreTenantWithin, hrun₁, hrun₂]
    refine .of_ok _ _ (sameRecords_of_finished ?_ hfin₂)
    exact ⟨hfin₁.settled, hfin₁.mixed, hs.trans (LapsesSuspension.trans T) hfin₁.restores,
      hfin₁.target⟩

/-- Whatever prefix of its store calls an interrupted cascade made, running it again leaves
every tenant record as one uninterrupted run would have left it. -/
theorem cascades_converge (h : Settled t (DirectlySuspended t)) (T : String) (steps : ℕ) :
    SameOutcome (suspendTenant (suspendTenantWithin steps t T).1 T) (suspendTenant t T) ∧
      SameOutcome (restoreTenant (restoreTenantWithin steps t T).1 T) (restoreTenant t T) :=
  ⟨suspendTenant_resumed h T steps, restoreTenant_resumed h T steps⟩

/-- Cut short between the write of the target and the write of its child. -/
theorem cascades_converge_threeLevels :
    Settled threeLevels (DirectlySuspended threeLevels) ∧
      SameOutcome (suspendTenant (suspendTenantWithin 4 threeLevels "ra").1 "ra")
        (suspendTenant threeLevels "ra") :=
  ⟨settled_threeLevels, (cascades_converge settled_threeLevels "ra" 4).1⟩

end Cfgms.Tenant
