import Cfgms.Tenant.Pool
import Cfgms.Tenant.Restore
import Cfgms.Tenant.Suspend

/-! # Containment under concurrency

As long as the calls outside the mutex write back the standings that they find and insert under
parents that are not suspended, the invariant of a walk survives them, and when no walk is under
way every row fits the directly suspended tenants.
-/

namespace Cfgms.Tenant

open Forest

variable {t t' : TenantTable} {n : String} {r : TenantData}

/-- Every standing is left alone, or a tenant is added under a parent that is not suspended. -/
def Permitted (t t' : TenantTable) : Prop := SameStandings t t' ∨ ∃ c, Grows t t' c

theorem Permitted.refl (t : TenantTable) : Permitted t t := .inl (SameStandings.refl t)

def KeepsRows (t t' : TenantTable) : Prop :=
  ∀ n r, t.find n = some r → ∃ r', t'.find n = some r' ∧ r'.parentID = r.parentID

/-- Suspended rows stay suspended, and directly suspended ones directly so. -/
def KeepsSuspensions (t t' : TenantTable) : Prop :=
  ∀ n r, t.find n = some r → ∃ r', t'.find n = some r' ∧
    (r.directlySuspended = true → r'.directlySuspended = true) ∧
    (r.status = .suspended → r'.status = .suspended)

theorem KeepsSuspensions.refl (t : TenantTable) : KeepsSuspensions t t :=
  fun _ r hr => ⟨r, hr, id, id⟩

theorem Revises.keepsRows {R : String → Standing → Standing → Prop} (h : Revises R t t') :
    KeepsRows t t' := by
  intro n r hr
  obtain ⟨r', hr', hp, -⟩ := h.of_find hr
  exact ⟨r', hr', hp⟩

theorem Suspends.keepsSuspensions (h : Suspends t t') : KeepsSuspensions t t' := by
  intro n r hr
  obtain ⟨r', hr', -, hd, hs⟩ := h.of_find hr
  refine ⟨r', hr', hd, fun hsusp => ?_⟩
  rcases hs with hs | hs
  · exact hs
  · exact hs.trans hsusp

theorem Permitted.keepsRows (h : Permitted t t') : KeepsRows t t' := by
  rcases h with hs | ⟨c, hg⟩
  · exact hs.keepsRows
  · exact fun n r hr => ⟨r, hg.find_of_find hr, rfl⟩

theorem Permitted.keepsSuspensions (h : Permitted t t') : KeepsSuspensions t t' := by
  rcases h with hs | ⟨c, hg⟩
  · intro n r hr
    obtain ⟨r', hr', -, he⟩ := hs.of_find hr
    refine ⟨r', hr', fun hd => ?_, fun hsusp => ?_⟩
    · exact (congrArg Standing.directlySuspended he).trans hd
    · exact (congrArg Standing.status he).trans hsusp
  · exact fun n r hr => ⟨r, hg.find_of_find hr, id, id⟩

theorem Permitted.settled (h : Permitted t t') (hset : ∃ D, Settled t D) : ∃ D, Settled t' D := by
  obtain ⟨D, hset⟩ := hset
  rcases h with hs | ⟨c, hg⟩
  · exact ⟨D, hset.same hs⟩
  · exact ⟨D, hset.grows hg⟩

section Walks

variable {ω ρ : Type*} {start : String → ω} {Inv : TenantTable → (String → Prop) → ω → Prop}
  {step : TenantTable → ω → TenantTable × Progress ω ρ} {w : ω}

/-- The walk has not read the table yet, or it is part of the way through. -/
def Ongoing (start : String → ω) (Inv : TenantTable → (String → Prop) → ω → Prop)
    (t : TenantTable) (w : ω) : Prop :=
  (∃ D T, w = start T ∧ Settled t D) ∨ ∃ D, Inv t D w

theorem Ongoing.permitted (hsame : ∀ D, Inv t D w → SameStandings t t' → Inv t' D w)
    (hgrows : ∀ D c, Inv t D w → Grows t t' c → Inv t' D w) (h : Ongoing start Inv t w)
    (hp : Permitted t t') : Ongoing start Inv t' w := by
  rcases h with ⟨D, T, rfl, hset⟩ | ⟨D, hinv⟩
  · obtain ⟨D', hset'⟩ := hp.settled ⟨D, hset⟩
    exact .inl ⟨D', T, rfl, hset'⟩
  rcases hp with hs | ⟨c, hg⟩
  · exact .inr ⟨D, hsame D hinv hs⟩
  · exact .inr ⟨D, hgrows D c hinv hg⟩

theorem Ongoing.forest (hforest : ∀ D, Inv t D w → IsForest t) (h : Ongoing start Inv t w) :
    IsForest t := by
  rcases h with ⟨D, T, -, hset⟩ | ⟨D, hinv⟩
  · exact hset.forest
  · exact hforest D hinv

theorem Ongoing.proceeds {R : TenantTable → Prop} (hR : R t)
    (hmissing : ∀ T, t.find T = none → ∃ e, step t (start T) = (t, .returned (.error e)))
    (hstart : ∀ D T, Mixed t D T → Inv t D (start T))
    (hinv : ∀ D w, Inv t D w → Proceeds step (fun t' w' => Inv t' D w' ∧ R t')
      (fun t' _ => (∃ D, Settled t' D) ∧ R t') t w)
    (h : Ongoing start Inv t w) :
    Proceeds step (fun t' w' => Ongoing start Inv t' w' ∧ R t')
      (fun t' _ => (∃ D, Settled t' D) ∧ R t') t w := by
  have hongoing : ∀ D w, Inv t D w → Proceeds step (fun t' w' => Ongoing start Inv t' w' ∧ R t')
      (fun t' _ => (∃ D, Settled t' D) ∧ R t') t w := by
    intro D w h
    rcases hinv D w h with ⟨t', w', hs, hinv', hr⟩ | hdone
    · exact .inl ⟨t', w', hs, .inr ⟨D, hinv'⟩, hr⟩
    · exact .inr hdone
  rcases h with ⟨D, T, rfl, hset⟩ | ⟨D, h⟩
  · by_cases hT : t.find T = none
    · obtain ⟨e, he⟩ := hmissing T hT
      exact .inr ⟨t, .error e, he, ⟨D, hset⟩, hR⟩
    · exact hongoing _ _ (hstart _ T (hset.mixed hT))
  · exact hongoing D w h

end Walks

theorem SuspendWalk.step_ongoing {w : SuspendWalk} (h : Ongoing start SuspendWalk.Inv t w) :
    Proceeds step (fun t' w' => Ongoing start SuspendWalk.Inv t' w' ∧ Suspends t t')
      (fun t' _ => (∃ D, Settled t' D) ∧ Suspends t t') t w := by
  have hrefl : Suspends t t := .refl KeepsSuspended.refl t
  refine h.proceeds hrefl (fun _ => step_start_missing) (fun _ _ => Inv.start) fun D w hinv => ?_
  rcases hinv.step with ⟨t', w', hs, hinv', -, he⟩ | ⟨result, hs, hset⟩
  · exact .inl ⟨t', w', hs, hinv', he.suspends hinv.mixed⟩
  · exact .inr ⟨t, .ok result, hs, ⟨_, hset⟩, hrefl⟩

theorem RestoreWalk.step_ongoing {w : RestoreWalk} (h : Ongoing start RestoreWalk.Inv t w) :
    Proceeds step (fun t' w' => Ongoing start RestoreWalk.Inv t' w' ∧ SameParents t t')
      (fun t' _ => (∃ D, Settled t' D) ∧ SameParents t t') t w := by
  have hrefl := SameParents.refl t
  refine h.proceeds hrefl (fun _ => step_start_missing) (fun _ _ => Inv.start) fun D w hinv => ?_
  rcases hinv.step with ⟨t', w', hs, hinv', -, hp, -⟩ | ⟨result, hs, hset, -⟩
  · exact .inl ⟨t', w', hs, hinv', hp⟩
  · exact .inr ⟨t, .ok result, hs, ⟨_, hset⟩, hrefl⟩

namespace Call

def walking : Call → Bool
  | .suspendWalk _ => true
  | .restoreWalk _ => true
  | _ => false

/-- What a call in flight may rely on. -/
def Sound (t : TenantTable) : Call → Prop
  | .create c => c.row.standing = freshStanding
  | .update u => ∀ row, u.point = .write row →
      ∃ r, t.find row.id = some r ∧ row.parentID = r.parentID
  | .suspendWalk w => Ongoing SuspendWalk.start SuspendWalk.Inv t w
  | .restoreWalk w => Ongoing RestoreWalk.start RestoreWalk.Inv t w
  | _ => True

variable {c : Call}

theorem Sound.of_keepsRows (h : c.Sound t) (hw : c.walking = false) (hk : KeepsRows t t') :
    c.Sound t' := by
  cases c with
  | update u =>
    intro row hpt
    obtain ⟨r, hr, hp⟩ := h row hpt
    obtain ⟨r', hr', hp'⟩ := hk _ r hr
    exact ⟨r', hr', hp.trans hp'.symm⟩
  | suspendWalk | restoreWalk => cases hw
  | create c => exact h
  | suspendRootCheck | suspendTargetCheck | suspendLock | restoreLock => trivial

theorem Sound.permitted (h : c.Sound t) (hp : Permitted t t') : c.Sound t' := by
  cases hw : c.walking with
  | false => exact h.of_keepsRows hw hp.keepsRows
  | true =>
    cases c with
    | suspendWalk | restoreWalk => exact h.permitted (fun _ => .same) (fun _ _ => .grows) hp
    | _ => cases hw

end Call

namespace CreateCall

variable {s : Store} {c : CreateCall}

theorem step_permitted (hf : IsForest s.tenants) (hrow : c.row.standing = freshStanding)
    (ho : Call.Orderly s (.create c)) :
    Permitted s.tenants (step s c).1.tenants ∧
      ∀ c', (step s c).2 = .running c' → c'.row.standing = freshStanding := by
  rcases step_cases s c with ⟨c', hs, hcont⟩ | ⟨e, hs⟩ | ⟨s', attempt, label, hpt, hs, hins⟩
  · rw [hs]
    refine ⟨.refl _, ?_⟩
    rintro _ ⟨⟩
    rw [hcont.row]
    exact hrow
  · rw [hs]
    refine ⟨.refl _, ?_⟩
    rintro _ ⟨⟩
  · obtain ⟨hopen, hjoins⟩ := ho attempt label hpt
    have hforest := hf.insert hins.new hins.find hjoins
    rw [hs]
    refine ⟨.inr ⟨_, hins.new, hins.find, hrow, hforest, hopen⟩, ?_⟩
    rintro _ ⟨⟩

end CreateCall

namespace UpdateCall

variable {s : Store} {u : UpdateCall}

theorem step_permitted (hu : Call.Sound s.tenants (.update u)) (ho : Call.Orderly s (.update u)) :
    Permitted s.tenants (step s u).1.tenants ∧
      ∀ u', (step s u).2 = .running u' → Call.Sound (step s u).1.tenants (.update u') := by
  cases hpt : u.point with
  | get =>
    cases hg : s.tenants.getTenant u.tenantID with
    | error e => simp [step, hpt, hg, Permitted.refl]
    | ok existing =>
      cases hc : checkUpdate u.validator u.tenantID u.req with
      | error e => simp [step, hpt, hg, hc, Permitted.refl]
      | ok _ =>
        simp only [step, hpt, hg, hc, Permitted.refl, true_and]
        rintro _ ⟨⟩ _ ⟨⟩
        have hr := TenantTable.getTenant_eq_ok.mp hg
        exact ⟨existing, (TenantTable.find_id hr).symm ▸ hr, rfl⟩
  | write row =>
    obtain ⟨r, hr, hp⟩ := hu row hpt
    have hw := TenantTable.updateTenant_eq_ok.mpr ⟨⟨r, hr⟩, rfl⟩
    simp only [step, hpt, hw]
    refine ⟨.inl (sameStandings_replace hr hp (ho row hpt r hr).symm), ?_⟩
    rintro _ ⟨⟩

end UpdateCall

namespace Pool

/-- One walk at a time holds the mutex, and while none does every row fits. -/
structure Inv (p : Pool) : Prop where
  sound : ∀ i c, p.calls i = some c → c.Sound p.store.tenants
  holder : ∀ i, p.suspendMu = some i ↔ ∃ c, p.calls i = some c ∧ c.walking = true
  free : p.suspendMu = none → ∃ D, Settled p.store.tenants D

variable {validator : MountPointValidator} {p p' : Pool} {i : ℕ} {c : Call} {o : Option Call}

variable (h : p.Inv)
include h

theorem Inv.forest : IsForest p.store.tenants := by
  cases hmu : p.suspendMu with
  | none =>
    obtain ⟨D, hset⟩ := h.free hmu
    exact hset.forest
  | some i =>
    obtain ⟨c, hc, hw⟩ := (h.holder i).mp hmu
    have hsound := h.sound i c hc
    cases c with
    | suspendWalk | restoreWalk => exact hsound.forest fun _ hinv => hinv.mixed.forest
    | _ => cases hw

omit h in
theorem calls_setCall (p : Pool) (i j : ℕ) (o : Option Call) :
    (p.setCall i o).calls j = if j = i then o else p.calls j := by
  simp [setCall, Function.update_apply]

theorem Inv.outside {s : Store} (hi : ∀ c, p.calls i = some c → c.walking = false)
    (hp : Permitted p.store.tenants s.tenants)
    (ho : ∀ c, o = some c → c.Sound s.tenants ∧ c.walking = false) :
    Inv ({ p with store := s }.setCall i o) where
  sound j c hc := by
    rw [calls_setCall] at hc
    split at hc
    · exact (ho c hc).1
    · exact (h.sound j c hc).permitted hp
  holder j := by
    rw [calls_setCall]
    refine (h.holder j).trans ?_
    split
    · rename_i hj
      subst hj
      constructor
      · rintro ⟨c, hc, hw⟩
        rw [hi c hc] at hw
        cases hw
      · rintro ⟨c, hc, hw⟩
        rw [(ho c hc).2] at hw
        cases hw
    · exact Iff.rfl
  free hmu := hp.settled (h.free hmu)

theorem Inv.lock (hmu : p.suspendMu = none) (hw : c.walking = true)
    (hc : (∃ D, Settled p.store.tenants D) → c.Sound p.store.tenants) :
    Inv ({ p with suspendMu := some i }.setCall i (some c)) where
  sound j c' hc' := by
    rw [calls_setCall] at hc'
    split at hc'
    · cases hc'
      exact hc (h.free hmu)
    · exact h.sound j c' hc'
  holder j := by
    rw [calls_setCall]
    split
    · rename_i hj
      simp [setCall, hj, hw]
    rename_i hj
    have hnone := (h.holder j).not.mp (by simp [hmu])
    simp only [setCall, Option.some.injEq]
    exact ⟨fun he => absurd he.symm hj, fun hex => absurd hex hnone⟩
  free hmu' := by cases hmu'

/-- The walk that holds the mutex goes on, or returns and releases it. -/
theorem Inv.walked {t' : TenantTable} (hc : p.calls i = some c)
    (hw : c.walking = true) (hk : KeepsRows p.store.tenants t')
    (ho : ∀ c', o = some c' → c'.Sound t' ∧ c'.walking = true)
    (hnone : o = none → ∃ D, Settled t' D) : Inv (p.walked i t' o) := by
  have hmu : p.suspendMu = some i := (h.holder i).mpr ⟨c, hc, hw⟩
  have hothers : ∀ j c', j ≠ i → p.calls j = some c' → c'.walking = false := by
    intro j c' hj hc'
    by_contra hwalk
    have hmu' := (h.holder j).mpr ⟨c', hc', by simpa using hwalk⟩
    exact hj (Option.some.inj (hmu'.symm.trans hmu))
  have hcalls : ∀ j, (p.walked i t' o).calls j = if j = i then o else p.calls j :=
    fun j => calls_setCall p i j o
  refine ⟨fun j c' hc' => ?_, fun j => ?_, fun hfree => ?_⟩
  · rw [hcalls] at hc'
    split at hc'
    · exact (ho c' hc').1
    · rename_i hj
      exact (h.sound j c' hc').of_keepsRows (hothers j c' hj hc') hk
  · rw [hcalls]
    by_cases hj : j = i
    · subst hj
      cases o with
      | none => simp [Pool.walked]
      | some c' => simp [Pool.walked, hmu, (ho c' rfl).2]
    · have hnot : ¬ ∃ c', p.calls j = some c' ∧ c'.walking = true := by
        rintro ⟨c', hc', hwalk⟩
        rw [hothers j c' hj hc'] at hwalk
        cases hwalk
      rw [if_neg hj, iff_false_right hnot]
      cases o with
      | none => simp [Pool.walked]
      | some c' => simpa [Pool.walked, hmu] using fun he : i = j => hj he.symm
  · cases o with
    | none => exact hnone rfl
    | some c' => simp [Pool.walked, hmu] at hfree

theorem Inv.move (hi : ∀ c, p.calls i = some c → c.walking = false)
    (ho : ∀ c, o = some c → c.Sound p.store.tenants ∧ c.walking = false) :
    Inv (p.setCall i o) :=
  h.outside hi (.refl _) ho

omit h in
theorem sound_startCall (t : TenantTable) (request : Request) (c : Call)
    (hc : startCall validator request = some c) : c.Sound t ∧ c.walking = false := by
  cases request with
  | create inputs req =>
    rcases CreateCall.start_cases validator inputs req with
      ⟨e, he⟩ | ⟨tenantID, c', -, hc', hrow, -⟩
    · simp [startCall, he, Progress.call] at hc
    · simp only [startCall, hc', Progress.call, Option.some.injEq] at hc
      subst hc
      refine ⟨?_, rfl⟩
      rw [Call.Sound, hrow]
      rfl
  | update tenantID req =>
    cases hc
    refine ⟨?_, rfl⟩
    rintro row ⟨⟩
  | suspend | restore =>
    cases hc
    exact ⟨trivial, rfl⟩

/-- An orderly step keeps the invariant, and unless it is a step of a restore it undoes no
suspension. -/
theorem Inv.stepCall (hc : p.calls i = some c) (ho : c.Orderly p.store)
    (hs : p.stepCall i c = some p') :
    p'.Inv ∧ ((∀ w, c ≠ .restoreWalk w) →
      KeepsSuspensions p.store.tenants p'.store.tenants) := by
  have hsound := h.sound i c hc
  have hi : c.walking = false → ∀ c', p.calls i = some c' → c'.walking = false := by
    intro hw c' hc'
    cases hc.symm.trans hc'
    exact hw
  have hmoved : ∀ o, c.walking = false →
      (∀ c', o = some c' → c'.Sound p.store.tenants ∧ c'.walking = false) →
      (p.setCall i o).Inv ∧ ((∀ w, c ≠ .restoreWalk w) →
        KeepsSuspensions p.store.tenants (p.setCall i o).store.tenants) :=
    fun o hw ho => ⟨h.move (hi hw) ho, fun _ => .refl _⟩
  cases c with
  | create c =>
    obtain ⟨hp, hrow⟩ := CreateCall.step_permitted h.forest hsound ho
    cases hs
    refine ⟨h.outside (hi rfl) hp fun c' hc' => ?_, fun _ => hp.keepsSuspensions⟩
    obtain ⟨d, hd, rfl⟩ := Progress.call_eq_some.mp hc'
    exact ⟨hrow d hd, rfl⟩
  | update u =>
    obtain ⟨hp, hu⟩ := UpdateCall.step_permitted hsound ho
    cases hs
    refine ⟨h.outside (hi rfl) hp fun c' hc' => ?_, fun _ => hp.keepsSuspensions⟩
    obtain ⟨d, hd, rfl⟩ := Progress.call_eq_some.mp hc'
    exact ⟨hu d hd, rfl⟩
  | suspendRootCheck tenantID =>
    simp only [Pool.stepCall] at hs
    split_ifs at hs
    all_goals
      cases hs
      exact hmoved _ rfl (by simp [Call.Sound, Call.walking])
  | suspendTargetCheck tenantID =>
    simp only [Pool.stepCall] at hs
    split at hs
    on_goal 3 => split at hs
    all_goals
      cases hs
      exact hmoved _ rfl (by simp [Call.Sound, Call.walking])
  | suspendLock tenantID | restoreLock tenantID =>
    simp only [Pool.stepCall] at hs
    split at hs <;> cases hs
    next hmu =>
    refine ⟨h.lock hmu rfl ?_, fun _ => .refl _⟩
    rintro ⟨D, hset⟩
    exact .inl ⟨D, tenantID, rfl, hset⟩
  | suspendWalk w =>
    rcases SuspendWalk.step_ongoing hsound with
      ⟨t', w', hstep, hon, hsus⟩ | ⟨t', result, hstep, hset, hsus⟩
    · simp only [Pool.stepCall, hstep] at hs
      cases hs
      refine ⟨h.walked hc rfl hsus.keepsRows ?_ (by simp [Progress.call]),
        fun _ => hsus.keepsSuspensions⟩
      rintro _ ⟨⟩
      exact ⟨hon, rfl⟩
    · simp only [Pool.stepCall, hstep] at hs
      cases hs
      refine ⟨h.walked hc rfl hsus.keepsRows ?_ fun _ => hset, fun _ => hsus.keepsSuspensions⟩
      rintro _ ⟨⟩
  | restoreWalk w =>
    rcases RestoreWalk.step_ongoing hsound with
      ⟨t', w', hstep, hon, hpar⟩ | ⟨t', result, hstep, hset, hpar⟩
    · simp only [Pool.stepCall, hstep] at hs
      cases hs
      refine ⟨h.walked hc rfl hpar.keepsRows ?_ (by simp [Progress.call]),
        fun hne => absurd rfl (hne w)⟩
      rintro _ ⟨⟩
      exact ⟨hon, rfl⟩
    · simp only [Pool.stepCall, hstep] at hs
      cases hs
      refine ⟨h.walked hc rfl hpar.keepsRows ?_ fun _ => hset, fun hne => absurd rfl (hne w)⟩
      rintro _ ⟨⟩

theorem Inv.step {a : PoolAction} (ho : p.Orderly a) (hs : (machine validator).step p a = some p') :
    p'.Inv ∧ (¬ p.Restoring a → KeepsSuspensions p.store.tenants p'.store.tenants) := by
  cases a with
  | start i request =>
    simp only [machine] at hs
    cases hc : p.calls i with
    | some c => simp [hc] at hs
    | none =>
      simp only [hc, Option.some.injEq] at hs
      subst hs
      exact ⟨h.move (by simp [hc]) (sound_startCall _ request), fun _ => .refl _⟩
  | step i =>
    obtain ⟨c, hc, hs⟩ := Option.bind_eq_some_iff.mp hs
    obtain ⟨hinv, hkeep⟩ := h.stepCall hc (ho c hc) hs
    exact ⟨hinv, fun hne => hkeep fun w hw => hne ⟨w, hw ▸ hc⟩⟩

omit h in
theorem Inv.initial (hquiet : p.Quiescent) (hmu : p.suspendMu = none)
    (hset : ∃ D, Settled p.store.tenants D) : p.Inv where
  sound i c hc := by simp [hquiet i] at hc
  holder i := by simp [hmu, hquiet i]
  free _ := hset

theorem Inv.settled (hquiet : p.Quiescent) : ∃ D, Settled p.store.tenants D := by
  refine h.free (Option.eq_none_iff_forall_ne_some.mpr fun i hi => ?_)
  obtain ⟨c, hc, -⟩ := (h.holder i).mp hi
  simp [hquiet i] at hc

/-- A call waits for nothing but the mutex, and the call that holds it goes on. -/
theorem Inv.progress (hc : p.calls i = some c) : ∃ j p', (machine validator).step p (.step j) =
    some p' := by
  have hgo {j : ℕ} {d : Call} (hd : p.calls j = some d) (hsome : (p.stepCall j d).isSome) :
      ∃ j p', (machine validator).step p (.step j) = some p' := by
    obtain ⟨p', hp'⟩ := Option.isSome_iff_exists.mp hsome
    exact ⟨j, p', by simp [machine, hd, hp']⟩
  cases hmu : p.suspendMu with
  | none =>
    refine hgo hc ?_
    cases c with
    | create | update | suspendWalk | restoreWalk => rfl
    | suspendLock | restoreLock => simp [Pool.stepCall, hmu]
    | suspendRootCheck =>
      simp only [Pool.stepCall]
      split_ifs <;> rfl
    | suspendTargetCheck =>
      simp only [Pool.stepCall]
      split
      · rfl
      · rfl
      · split_ifs <;> rfl
  | some j =>
    obtain ⟨d, hd, hw⟩ := (h.holder j).mp hmu
    refine hgo hd ?_
    cases d with
    | suspendWalk | restoreWalk => rfl
    | _ => cases hw

end Pool

/-- No tenant is active below one that is directly suspended. -/
def Contained (t : TenantTable) : Prop :=
  ∀ a n r, DirectlySuspended t a → Above (parentOf t) a n → t.find n = some r →
    r.status ≠ .active

theorem Settled.contained {D : String → Prop} (h : Settled t D) : Contained t := by
  intro a n r ha habove hr hactive
  have hs : r.standing.status = .suspended :=
    (h.fits n r hr).suspended_of_marked ((h.direct_iff a).mpr ha) (.inr habove)
  rw [show r.standing.status = .active from hactive] at hs
  cases hs

/-- Along every orderly interleaving no tenant is left active below a directly suspended one
once all calls have returned, and only a restore undoes a suspension. -/
theorem containment (validator : MountPointValidator) {p p' : Pool} {as : List PoolAction}
    (hquiet : p.Quiescent) (hmu : p.suspendMu = none) (hset : ∃ D, Settled p.store.tenants D)
    (hg : (Pool.machine validator).Guarded Pool.Orderly p as)
    (hrun : (Pool.machine validator).run p as = some p') :
    (p'.Quiescent → Contained p'.store.tenants) ∧
      ∀ before a after q q', as = before ++ a :: after →
        (Pool.machine validator).run p before = some q →
        (Pool.machine validator).step q a = some q' → ¬ q.Restoring a →
        KeepsSuspensions q.store.tenants q'.store.tenants := by
  have hinit := Pool.Inv.initial hquiet hmu hset
  have hstep : ∀ p a p', p.Inv → p.Orderly a → (Pool.machine validator).step p a = some p' →
      p'.Inv := fun p a p' h ho hs => (h.step ho hs).1
  constructor
  · intro hquiet'
    have hinv := (Pool.machine validator).run_invariant hstep as p p' hinit hg hrun
    obtain ⟨D, hset'⟩ := hinv.settled hquiet'
    exact hset'.contained
  · rintro before a after q q' rfl hbefore hs hne
    obtain ⟨hg', ho, -⟩ := (Pool.machine validator).guarded_append hg hbefore
    have hinv := (Pool.machine validator).run_invariant hstep before p q hinit hg' hbefore
    exact (hinv.step ho hs).2 hne

/-- At every point of an orderly interleaving the parents form a forest, at most one cascade is
walking, and unless all calls have returned one of them can go on. -/
theorem cascades_take_turns (validator : MountPointValidator) {p p' : Pool} {as : List PoolAction}
    (hquiet : p.Quiescent) (hmu : p.suspendMu = none) (hset : ∃ D, Settled p.store.tenants D)
    (hg : (Pool.machine validator).Guarded Pool.Orderly p as)
    (hrun : (Pool.machine validator).run p as = some p') :
    IsForest p'.store.tenants ∧
      (∀ i j c d, p'.calls i = some c → p'.calls j = some d → c.walking = true →
        d.walking = true → i = j) ∧
      (¬ p'.Quiescent → ∃ i q, (Pool.machine validator).step p' (.step i) = some q) := by
  have hinv : p'.Inv := (Pool.machine validator).run_invariant
    (fun _ _ _ h ho hs => (h.step ho hs).1) as p p' (Pool.Inv.initial hquiet hmu hset) hg hrun
  refine ⟨hinv.forest, fun i j c d hc hd hwc hwd => ?_, fun hbusy => ?_⟩
  · have hi := (hinv.holder i).mpr ⟨c, hc, hwc⟩
    have hj := (hinv.holder j).mpr ⟨d, hd, hwd⟩
    exact Option.some.inj (hi.symm.trans hj)
  · obtain ⟨i, hi⟩ := not_forall.mp hbusy
    obtain ⟨c, hc⟩ := Option.ne_none_iff_exists'.mp hi
    exact hinv.progress hc

def idlePool (t : TenantTable) : Pool := ⟨⟨t, []⟩, none, fun _ => none⟩

/-- An update of a tenant that lands while one of its children is being suspended. -/
def updateDuringSuspend : List PoolAction :=
  [.start 0 (.update "ra" ⟨"", "ra", "new", "", []⟩), .step 0, .start 1 (.suspend "rab"),
    .step 1, .step 1, .step 1, .step 0, .step 1, .step 1, .step 1]

theorem guarded_updateDuringSuspend :
    (Pool.machine fun _ => .ok ()).Guarded Pool.Orderly (idlePool threeLevels)
      updateDuringSuspend := by
  refine .cons rfl trivial (.cons rfl ?_ (.cons rfl trivial (.cons rfl ?_ (.cons rfl ?_
    (.cons rfl ?_ (.cons rfl ?_ (.cons rfl ?_ (.cons rfl ?_ (.cons rfl ?_ trivial)))))))))
  on_goal 5 =>
    rintro _ ⟨⟩ _ ⟨⟩ _ ⟨⟩
    rfl
  · rintro _ ⟨⟩ _ ⟨⟩
  all_goals
    rintro _ ⟨⟩
    trivial

theorem containment_updateDuringSuspend :
    ∃ p, (Pool.machine fun _ => .ok ()).run (idlePool threeLevels) updateDuringSuspend = some p ∧
      p.Quiescent ∧ Contained p.store.tenants ∧ DirectlySuspended p.store.tenants "rab" := by
  have hquiet : (idlePool threeLevels).Quiescent := fun _ => rfl
  refine ⟨_, rfl, ?quiet, ?contained, _, rfl, rfl⟩
  case quiet =>
    rintro (_ | _ | n) <;> rfl
  case contained =>
    refine (containment (fun _ => .ok ()) hquiet rfl ⟨_, settled_threeLevels⟩
      guarded_updateDuringSuspend rfl).1 ?_
    rintro (_ | _ | n) <;> rfl

/-- Two cascades, the second of them over the target of the first, which is under way. -/
def contendingCascades : List PoolAction :=
  [.start 0 (.suspend "rab"), .step 0, .start 1 (.suspend "ra"), .step 0, .step 0]

theorem guarded_contendingCascades :
    (Pool.machine fun _ => .ok ()).Guarded Pool.Orderly (idlePool threeLevels)
      contendingCascades := by
  refine .cons rfl trivial (.cons rfl ?_ (.cons rfl trivial (.cons rfl ?_ (.cons rfl ?_ trivial))))
  all_goals
    rintro _ ⟨⟩
    trivial

theorem cascades_take_turns_contending :
    ∃ p, (Pool.machine fun _ => .ok ()).run (idlePool threeLevels) contendingCascades = some p ∧
      IsForest p.store.tenants ∧ (p.calls 0).map Call.walking = some true ∧
      (p.calls 1).map Call.walking ≠ some true ∧
      ∃ i q, (Pool.machine fun _ => .ok ()).step p (.step i) = some q := by
  obtain ⟨hforest, hone, hprogress⟩ := cascades_take_turns (fun _ => .ok ()) (fun _ => rfl) rfl
    ⟨_, settled_threeLevels⟩ guarded_contendingCascades rfl
  refine ⟨_, rfl, hforest, rfl, fun hsecond => ?_, hprogress fun hquiet => nomatch hquiet 0⟩
  obtain ⟨d, hd, hwd⟩ := Option.map_eq_some_iff.mp hsecond
  exact absurd (hone 0 1 _ d rfl hd rfl hwd) (by decide)

/-- An update of a tenant that read its row before an ancestor was suspended. -/
def updateAcrossSuspend : List PoolAction :=
  [.start 0 (.update "rab" ⟨"", "rab", "new", "", []⟩), .step 0, .start 1 (.suspend "ra"),
    .step 1, .step 1, .step 1, .step 1, .step 1, .step 1, .step 1, .step 1, .step 1, .step 0]

theorem containment_updateAcrossSuspend :
    ∃ p, (Pool.machine fun _ => .ok ()).run (idlePool threeLevels) updateAcrossSuspend = some p ∧
      p.Quiescent ∧ ¬ Contained p.store.tenants := by
  refine ⟨_, rfl, ?_, fun h => ?_⟩
  · rintro (_ | _ | n) <;> rfl
  · exact h "ra" "rab" _ ⟨_, rfl, rfl⟩ (.parent rfl) rfl rfl

end Cfgms.Tenant
