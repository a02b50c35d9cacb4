import Cfgms.Tenant.Mixed
import Cfgms.Tenant.Termination

/-! # The suspend walk

The visited tenants are closed upwards as far as the target. Whatever does not fit the new marks
yet lies below the queue. Calls that leave standings alone, or create tenants under parents that
are not suspended, do not disturb this.
-/

namespace Cfgms.Tenant

open Forest List

namespace SuspendWalk

/-- Tenants that were visited and not yet expanded. -/
def opened (w : SuspendWalk) : List String :=
  match w.point with
  | .pop => w.queue
  | .write current => current.id :: w.queue
  | .expand currentID => currentID :: w.queue

/-- The subtrees that the walk has still to write. -/
def whole (w : SuspendWalk) : List String :=
  match w.point with
  | .pop => w.queue
  | .write current => current.id :: w.queue
  | .expand _ => w.queue

/-- The written tenants whose children are still to be listed. -/
def below (w : SuspendWalk) : List String :=
  match w.point with
  | .expand currentID => [currentID]
  | _ => []

/-- The row about to be written already fits the new marks. -/
def Prepared (t : TenantTable) (D : String → Prop) (w : SuspendWalk) : Prop :=
  ∀ current, w.point = .write current → Writable t (mark D w.target) current

structure Inv (t : TenantTable) (D : String → Prop) (w : SuspendWalk) : Prop
    extends Reached t D w.target w.visited w.opened where
  covered : ∀ n r, t.find n = some r →
    Fits t (mark D w.target) n r.standing ∨ Covered t w.whole w.below n
  prepared : w.Prepared t D

variable {t t' : TenantTable} {D : String → Prop} {w w' : SuspendWalk} {n q : String}
  {r : TenantData}

variable {T : String}

theorem Inv.start (h : Mixed t D T) : (SuspendWalk.start T).Inv t D where
  toReached := .start h (.refl [T])
  covered n r hr := by
    by_cases hn : n = T ∨ Above (parentOf t) T n
    · exact .inr (.inl ⟨T, mem_singleton_self T, hn.imp_left Eq.symm⟩)
    rw [not_or] at hn
    rcases h.fits n r hr with hfit | hfit
    · exact .inl ((fits_mark_iff hn.1 hn.2).mpr hfit)
    · exact .inl hfit
  prepared := by
    rintro current ⟨⟩

theorem Inv.same (h : w.Inv t D) (hs : SameStandings t t') : w.Inv t' D where
  toReached := h.congr (h.mixed.same hs) hs.parent
  covered n r' hr' := by
    obtain ⟨r, hr, -, he⟩ := hs.row n r' hr'
    rw [he, fits_congr hs.parent]
    refine (h.covered n r hr).imp_right fun hc => hc.mono fun a m ha => ?_
    rwa [hs.parent]
  prepared current hpt := (h.prepared current hpt).same hs

theorem Inv.grows {c : TenantData} (h : w.Inv t D) (hg : Grows t t' c) : w.Inv t' D where
  toReached := h.toReached.grows hg
  covered := h.mixed.covered_grows hg h.covered
  prepared current hpt := by
    obtain ⟨⟨r, hr, hp⟩, hfit⟩ := h.prepared current hpt
    have hvisited : current.id ∈ w.visited :=
      h.opened_visited current.id (by simp [opened, hpt])
    refine ⟨⟨r, hg.find_of_find hr, hp⟩, ?_⟩
    rcases h.mixed.grows_cases hg with ⟨hiff, -⟩ | ⟨-, -, hcases⟩
    · exact (hiff _ _).mpr hfit
    · exact (hcases _ _ hfit).resolve_left fun hlow =>
        hlow.2.1 (h.visited_below _ hvisited)

theorem Inv.visited_up (h : w.Inv t D) {v a : String} (hv : v ∈ w.visited)
    (ha : Above (parentOf t) a v) (hT : a = w.target ∨ Above (parentOf t) w.target a) :
    a ∈ w.visited := by
  have hne : ∀ {v}, Above (parentOf t) a v → v ≠ w.target := by
    rintro v ha rfl
    rcases hT with rfl | hT
    · exact h.mixed.forest.not_above_self _ ha
    · exact h.mixed.forest.not_above_self _ (hT.trans ha)
  induction ha with
  | parent hp =>
    obtain ⟨q, hq, hqv, -⟩ := h.visited_parent _ hv (hne (.parent hp))
    cases hp.symm.trans hq
    exact hqv
  | step hp hap ih =>
    obtain ⟨q, hq, hqv, -⟩ := h.visited_parent _ hv (hne (.step hp hap))
    cases hp.symm.trans hq
    exact ih hqv hT hne

theorem suspendRow_id (w : SuspendWalk) (r : TenantData) :
    (w.suspendRow r).1.id = r.id ∧ (w.suspendRow r).1.parentID = r.parentID := by
  unfold suspendRow claimProvenance
  split
  · exact ⟨rfl, rfl⟩
  · split <;> (dsimp only; split) <;> (try split) <;> exact ⟨rfl, rfl⟩

theorem suspendRow_target (h : r.id = w.target) :
    (w.suspendRow r).1.standing = ⟨.suspended, true, r.cascadeSuspendedFrom⟩ := by
  simp [suspendRow, h, TenantData.standing]

theorem suspendRow_descendant (h : r.id ≠ w.target) : (w.suspendRow r).1.standing =
      ⟨if r.directlySuspended then r.status else .suspended, r.directlySuspended,
        (w.claimProvenance r).cascadeSuspendedFrom⟩ := by
  have hd : (w.claimProvenance r).directlySuspended = r.directlySuspended ∧
      (w.claimProvenance r).status = r.status := by
    unfold claimProvenance
    split
    · exact ⟨rfl, rfl⟩
    · split <;> exact ⟨rfl, rfl⟩
  unfold suspendRow
  rw [if_neg h]
  by_cases hr : r.directlySuspended = true <;> simp [hd, hr, TenantData.standing]

theorem claimProvenance_of_visited (h : ∀ a, r.cascadeSuspendedFrom = some a → a ∈ w.visited) :
    (w.claimProvenance r).cascadeSuspendedFrom = some w.target := by
  unfold claimProvenance
  split
  · rfl
  · rename_i a ha
    rw [if_pos (h a ha)]

section

variable (h : w.Inv t D)
include h

/-- Whatever a visited row said before, it is written to fit the new marks. -/
theorem Inv.suspendRow_fits (hq : q ∈ w.visited) (hr : t.find q = some r) :
    Fits t (mark D w.target) q (w.suspendRow r).1.standing := by
  have hforest := h.mixed.forest
  have hfit := h.mixed.fits q r hr
  have hid := TenantTable.find_id hr
  by_cases hT : q = w.target
  · subst hT
    rw [suspendRow_target hid]
    refine ⟨by simp [mark], ?_, by simp⟩
    have hout := hfit.target_outermost hforest
    exact (outermost_mark_iff (hforest.not_above_self _) _).mpr hout
  · have habove := (h.visited_below q hq).resolve_left hT
    rw [suspendRow_descendant (by rwa [hid])]
    have hdirect : r.directlySuspended = true ↔ mark D w.target q := by
      rw [mark, or_iff_left hT]
      exact hfit.direct hT
    have hstatus : r.directlySuspended = true → r.status = .suspended := fun hd =>
      hfit.status.mpr (.inl hd)
    -- the provenance is inherited from above the target, or it is the target
    have hprov : ∃ a, (w.claimProvenance r).cascadeSuspendedFrom = some a ∧
        Outermost (parentOf t) (mark D w.target) q (some a) := by
      obtain ⟨o, ho⟩ := exists_outermost hforest D w.target
      cases o with
      | some a =>
        have ha : r.cascadeSuspendedFrom = some a := hfit.below_contained hforest habove ho
        have hout : a ∉ w.visited := by
          intro hva
          rcases h.visited_below a hva with rfl | hTa
          · exact hforest.not_above_self _ ho.1
          · exact hforest.not_above_self _ (hTa.trans ho.1)
        exact ⟨a, by simp [claimProvenance, ha, hout], ho.mark_below_some hforest habove⟩
      | none =>
        refine ⟨w.target, claimProvenance_of_visited fun a ha => ?_,
          ho.mark_below_none hforest habove⟩
        rcases hfit with hfit | hfit
        · have hout := hfit.outermost
          rw [show r.standing.cascadeSuspendedFrom = some a from ha] at hout
          exact h.visited_up hq hout.1 (ho.inside habove hout)
        · have he := hfit.outermost.unique (ho.mark_below_none hforest habove)
          cases ha.symm.trans he
          exact h.target_visited
    obtain ⟨a, ha, hout⟩ := hprov
    refine ⟨hdirect, ha ▸ hout, ?_⟩
    by_cases hd : r.directlySuspended = true
    · simp [hd, hstatus hd]
    · simp [hd, ha]

theorem Inv.pop {queue : List String} (hpt : w.point = .pop)
    (hq : w.queue = q :: queue) (hr : t.find q = some r) :
    Inv t D { w with
      queue := queue
      result := (w.suspendRow r).2
      point := .write (w.suspendRow r).1 } := by
  have hid : (w.suspendRow r).1.id = q := (suspendRow_id w r).1.trans (TenantTable.find_id hr)
  have hopened : w.opened = q :: queue := by rw [opened, hpt, hq]
  have hvisited : q ∈ w.visited := h.opened_visited q (by rw [hopened]; exact mem_cons_self)
  refine ⟨?_, ?_, ?_⟩
  · simpa only [opened, hid, ← hopened] using h.toReached
  · simpa only [whole, below, hpt, hid, hq] using h.covered
  · rintro _ ⟨⟩
    exact ⟨⟨r, by rw [hid, hr], (suspendRow_id w r).2⟩, hid ▸ h.suspendRow_fits hvisited hr⟩

theorem Inv.write {current : TenantData} (hpt : w.point = .write current) :
    Inv (t.replace current) D { w with point := .expand current.id } := by
  have hw := h.prepared current hpt
  refine ⟨?_, fun n r hr => ?_, ?_⟩
  · simpa only [opened, hpt] using h.congr (h.mixed.write hw (.inr rfl)) hw.parent
  · rw [fits_congr hw.parent]
    rcases hw.find_cases hr with ⟨rfl, he, -⟩ | ⟨hn, hr'⟩
    · exact .inl (he ▸ hw.fits)
    refine (h.covered n r hr').imp_right fun hc => ?_
    simp only [whole, below, hpt] at hc ⊢
    exact (hc.open_root hn).mono fun a m ha => hw.parent ▸ ha
  · rintro _ ⟨⟩

theorem Inv.expand {id : String} (hpt : w.point = .expand id) :
    ∃ visited queue, enqueueChildren w.visited w.queue (t.getChildTenants id) =
        .ok (visited, queue) ∧
      Inv t D { w with visited := visited, queue := queue, point := .pop } := by
  have hopened : w.opened = id :: w.queue := by rw [opened, hpt]
  have hmem : id ∈ w.opened := by rw [hopened]; exact mem_cons_self
  have hidv := h.opened_visited id hmem
  obtain ⟨r, hr⟩ := h.exists_row hidv
  have hid := TenantTable.find_ne hr
  have hnew : ∀ c ∈ (t.getChildTenants id).map (·.id), parentOf t c = some id ∧ c ∉ w.visited :=
    fun c hc => ⟨(mem_childIDs_iff hid).mp hc,
      h.child_not_visited hmem ((mem_childIDs_iff hid).mp hc)⟩
  have hnodup := t.nodup_getChildTenants id
  have hreached := h.toReached
  rw [hopened] at hreached
  refine ⟨_, _, enqueueChildren_eq_ok hnodup fun c hc => (hnew c.id (mem_map_of_mem hc)).2,
    hreached.pop.visit hidv (nodup_cons.mp hreached.opened_nodup).1 hnodup hnew,
    fun n r hr => ?_, ?_⟩
  · refine (h.covered n r hr).imp_right fun hc => ?_
    simp only [whole, below, hpt] at hc ⊢
    exact hc.list_children hid
  · rintro _ ⟨⟩

/-- What a step does to the table: nothing, or it writes a row of the walked subtree. -/
def Effect (D : String → Prop) (T : String) (t t' : TenantTable) : Prop :=
  t' = t ∨ ∃ current, Writable t (mark D T) current ∧ t' = t.replace current ∧
    (current.id = T ∨ Above (parentOf t) T current.id)

theorem Inv.step : (∃ t' w', step t w = (t', .running w') ∧ w'.Inv t' D ∧ w'.target = w.target ∧
        Effect D w.target t t') ∨
      ∃ result, step t w = (t, .returned (.ok result)) ∧ Settled t (mark D w.target) := by
  cases hpt : w.point with
  | pop =>
    cases hq : w.queue with
    | nil =>
      refine .inr ⟨w.result, by simp [SuspendWalk.step, hpt, hq], ?_⟩
      refine ⟨h.mixed.forest, h.mixed.marks_target, fun n r hr =>
        (h.covered n r hr).resolve_right fun hc => ?_⟩
      simp [Covered, whole, below, hpt, hq] at hc
    | cons q queue =>
      have hv := h.opened_visited q (by simp [opened, hpt, hq])
      obtain ⟨r, hr⟩ := h.exists_row hv
      refine .inl ⟨t, _, ?_, h.pop hpt hq hr, rfl, .inl rfl⟩
      simp [SuspendWalk.step, hpt, hq, TenantTable.getTenant_eq_ok.mpr hr]
  | write current =>
    have hw := h.prepared current hpt
    have hv := h.opened_visited current.id (by simp [opened, hpt])
    refine .inl ⟨_, _, ?_, h.write hpt, rfl, .inr ⟨current, hw, rfl, h.visited_below _ hv⟩⟩
    simp [SuspendWalk.step, hpt, hw.updateTenant]
  | expand id =>
    obtain ⟨visited, queue, hok, hinv⟩ := h.expand hpt
    exact .inl ⟨t, _, by simp [SuspendWalk.step, hpt, hok], hinv, rfl, .inl rfl⟩

end

theorem Effect.suspends (he : Effect D T t t') (h : Mixed t D T) : Suspends t t' := by
  rcases he with rfl | ⟨current, hw, rfl, hin⟩
  · exact .refl KeepsSuspended.refl t'
  refine hw.revises KeepsSuspended.refl fun r hr => ⟨fun hd => hw.fits.direct.mpr ?_,
    .inl (hw.fits.suspended_of_marked (.inr rfl) hin)⟩
  by_cases hT : current.id = T
  · exact .inr hT
  · exact .inl (((h.fits _ r hr).direct hT).mp hd)

def From (t₀ : TenantTable) (D : String → Prop) (T : String) (t : TenantTable)
    (w : SuspendWalk) : Prop :=
  w.Inv t D ∧ w.target = T ∧ Suspends t₀ t

theorem From.proceeds {t₀ : TenantTable} (t : TenantTable) (w : SuspendWalk) (h : From t₀ D T t w) :
    Proceeds step (From t₀ D T) (fun t result => (∃ r, result = .ok r) ∧
      Settled t (mark D T) ∧ Mixed t D T ∧ Suspends t₀ t) t w := by
  obtain ⟨hinv, rfl, hs⟩ := h
  rcases hinv.step with ⟨t', w', hstep, hinv', hT, he⟩ | ⟨result, hstep, hset⟩
  · have hs' := hs.trans KeepsSuspended.trans (he.suspends hinv.mixed)
    exact .inl ⟨t', w', hstep, hinv', hT, hs'⟩
  · exact .inr ⟨t, .ok result, hstep, ⟨result, rfl⟩, hset, hinv.mixed, hs⟩

theorem From.mixed {t₀ : TenantTable} (h : From t₀ D T t w) : Mixed t D T ∧ Suspends t₀ t := by
  obtain ⟨hinv, rfl, hs⟩ := h
  exact ⟨hinv.mixed, hs⟩

theorem From.start (h : Mixed t D T) : From t D T t (SuspendWalk.start T) :=
  ⟨Inv.start h, rfl, .refl KeepsSuspended.refl t⟩

theorem runWalk_mixed (h : Mixed t D T) (fuel : ℕ) : Mixed (runWalk step fuel t (start T)).1 D T ∧
      Suspends t (runWalk step fuel t (start T)).1 :=
  runWalk_state (P := fun t' => Mixed t' D T ∧ Suspends t t') From.proceeds
    (fun _ _ => From.mixed) (fun _ _ hq => hq.2.2) fuel t _ (From.start h)

end SuspendWalk

theorem suspendTenant_of_mixed {T : String} (h : Mixed t D T)
    (hroot : isProtectedRootTenant t T = false) :
    ∃ t' result, suspendTenant t T = (t', .returned (.ok result)) ∧ Settled t' (mark D T) ∧
      Suspends t t' := by
  obtain ⟨t', result, hrun⟩ := suspendTenant_returns t T
  have hwalk := hrun
  rw [suspendTenant, suspendTenantWithin, if_neg (by simp [hroot])] at hwalk
  obtain ⟨⟨r, rfl⟩, hset, -, hs⟩ :=
    runWalk_result SuspendWalk.From.proceeds _ t _ (SuspendWalk.From.start h) _ _ hwalk
  exact ⟨t', r, hrun, hset, hs⟩

end Cfgms.Tenant
