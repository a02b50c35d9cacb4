import Cfgms.Tenant.Provenance

/-! # Tables under a walk

While a walk with target `T` is under way every row fits the directly suspended tenants
without `T` or those with it. What the walk has still to reach is a part of the forest.
-/

namespace Cfgms.Tenant

open Forest

variable {t t' : TenantTable} {D : String → Prop} {n a T : String} {s s' : Standing}
  {r : TenantData}

section Mark

theorem fits_mark_iff (hn : n ≠ T) (h : ¬ Above (parentOf t) T n) :
    Fits t (mark D T) n s ↔ Fits t D n s := by
  exact fits_iff_of_outermost (or_iff_left hn) (outermost_mark_iff h _)

/-- The row fits the tenants directly suspended without `T` or with it. -/
def FitsEither (t : TenantTable) (D : String → Prop) (T n : String) (s : Standing) : Prop :=
  Fits t D n s ∨ Fits t (mark D T) n s

theorem FitsEither.direct (h : FitsEither t D T n s) (hn : n ≠ T) :
    s.directlySuspended = true ↔ D n := by
  rcases h with h | h
  · exact h.direct
  · rw [h.direct, mark, or_iff_left hn]

theorem FitsEither.status (h : FitsEither t D T n s) :
    s.status = .suspended ↔ s.directlySuspended = true ∨ s.cascadeSuspendedFrom ≠ none := by
  rcases h with h | h <;> exact h.status

theorem FitsEither.target_outermost (hf : IsForest t) (h : FitsEither t D T T s) :
    Outermost (parentOf t) D T s.cascadeSuspendedFrom := by
  rcases h with h | h
  · exact h.outermost
  · exact (outermost_mark_iff (hf.not_above_self T) _).mp h.outermost

theorem FitsEither.below_contained (hf : IsForest t) (h : FitsEither t D T n s)
    (hT : Above (parentOf t) T n) (ho : Outermost (parentOf t) D T (some a)) :
    s.cascadeSuspendedFrom = some a := by
  rcases h with h | h
  · exact h.outermost.unique (ho.below hT)
  · exact h.outermost.unique (ho.mark_below_some hf hT)

end Mark

/-! ## Coverage

The part of the forest that a walk has still to reach: the given subtrees, some of them
without their roots.
-/

def Covered (t : TenantTable) (whole below : List String) (n : String) : Prop :=
  (∃ q ∈ whole, q = n ∨ Above (parentOf t) q n) ∨ ∃ q ∈ below, Above (parentOf t) q n

variable {below whole : List String}

theorem Covered.descend {p : String} (h : Covered t whole below p)
    (hp : p = n ∨ Above (parentOf t) p n) : Covered t whole below n := by
  rcases hp with rfl | hp
  · exact h
  rcases h with ⟨q, hq, rfl | hqp⟩ | ⟨q, hq, hqp⟩
  · exact .inl ⟨q, hq, .inr hp⟩
  · exact .inl ⟨q, hq, .inr (hqp.trans hp)⟩
  · exact .inr ⟨q, hq, hqp.trans hp⟩

theorem Covered.mono (h : Covered t whole below n)
    (habove : ∀ a n, Above (parentOf t) a n → Above (parentOf t') a n) :
    Covered t' whole below n := by
  rcases h with ⟨q, hq, rfl | hqn⟩ | ⟨q, hq, hqn⟩
  · exact .inl ⟨q, hq, .inl rfl⟩
  · exact .inl ⟨q, hq, .inr (habove _ _ hqn)⟩
  · exact .inr ⟨q, hq, habove _ _ hqn⟩

theorem Covered.open_root {q : String}
    (h : Covered t (q :: whole) below n) (hn : n ≠ q) : Covered t whole (below ++ [q]) n := by
  rcases h with ⟨q', hq', hqn⟩ | ⟨q', hq', hqn⟩
  · rcases List.mem_cons.mp hq' with rfl | hq'
    · exact .inr ⟨q', by simp, hqn.resolve_left hn.symm⟩
    · exact .inl ⟨q', hq', hqn⟩
  · exact .inr ⟨q', List.mem_append_left _ hq', hqn⟩

theorem Covered.list_children {q : String} (h : Covered t whole (q :: below) n) (hq : q ≠ "") :
    Covered t (whole ++ (t.getChildTenants q).map (·.id)) below n := by
  rcases h with ⟨q', hq', hqn⟩ | ⟨q', hq', hqn⟩
  · exact .inl ⟨q', List.mem_append_left _ hq', hqn⟩
  rcases List.mem_cons.mp hq' with rfl | hq'
  · obtain ⟨c, hc, hcn⟩ := hqn.exists_child
    exact .inl ⟨c, List.mem_append_right _ ((mem_childIDs_iff hq).mpr hc), hcn⟩
  · exact .inr ⟨q', hq', hqn⟩

/-- Every row fits the marks without the target of a walk or with it. -/
structure Mixed (t : TenantTable) (D : String → Prop) (T : String) : Prop where
  forest : IsForest t
  marks : MarksRows t D
  unmarked : ¬ D T
  target : t.find T ≠ none
  fits : ∀ n r, t.find n = some r → FitsEither t D T n r.standing

theorem Mixed.marks_target (h : Mixed t D T) : MarksRows t (mark D T) := by
  rintro n (hD | rfl)
  · exact h.marks n hD
  · exact h.target

theorem Settled.mixed (h : Settled t D) (hT : t.find T ≠ none) :
    Mixed t (fun n => D n ∧ n ≠ T) T := by
  refine ⟨h.forest, fun n hD => h.marks n hD.1, fun hD => hD.2 rfl, hT, fun n r hr => ?_⟩
  have hfit := h.fits n r hr
  by_cases hD : D T
  · right
    have he : mark (fun n => D n ∧ n ≠ T) T = D := by
      funext m
      by_cases hm : m = T
      · simp [mark, hm, hD]
      · simp [mark, hm]
    rwa [he]
  · left
    have he : (fun n => D n ∧ n ≠ T) = D := by
      funext m
      by_cases hm : m = T
      · simp [hm, hD]
      · simp [hm]
    rwa [he]

theorem Mixed.same (h : Mixed t D T) (hs : SameStandings t t') : Mixed t' D T where
  forest := by
    rw [IsForest, hs.parent]
    exact h.forest
  marks n hD := hs.present n (h.marks n hD)
  unmarked := h.unmarked
  target := hs.present T h.target
  fits n r' hr' := by
    obtain ⟨r, hr, -, he⟩ := hs.row n r' hr'
    rw [FitsEither, fits_congr hs.parent, fits_congr hs.parent, he]
    exact h.fits n r hr

/-- The row can be written over its old version, and then fits the marks. -/
structure Writable (t : TenantTable) (D : String → Prop) (current : TenantData) : Prop where
  row : ∃ r, t.find current.id = some r ∧ current.parentID = r.parentID
  fits : Fits t D current.id current.standing

namespace Writable

variable {current : TenantData}

variable (h : Writable t D current)
include h

theorem updateTenant : t.updateTenant current = .ok (t.replace current) := by
  obtain ⟨r, hr, -⟩ := h.row
  exact TenantTable.updateTenant_eq_ok.mpr ⟨⟨r, hr⟩, rfl⟩

theorem parent : parentOf (t.replace current) = parentOf t := by
  obtain ⟨r, hr, hp⟩ := h.row
  exact funext (parentOf_replace hr hp)

theorem present (hn : t.find n ≠ none) : (t.replace current).find n ≠ none := by
  obtain ⟨r, hr, -⟩ := h.row
  rw [TenantTable.find_replace hr]
  split
  · simp
  · exact hn

theorem find_cases (hr : (t.replace current).find n = some r) :
    n = current.id ∧ r.standing = current.standing ∧ r.parentID = current.parentID ∨
      n ≠ current.id ∧ t.find n = some r := by
  obtain ⟨r₀, hr₀, -⟩ := h.row
  rw [TenantTable.find_replace hr₀] at hr
  by_cases hn : n = current.id
  · rw [if_pos hn] at hr
    cases hr
    exact .inl ⟨hn, rfl, rfl⟩
  · rw [if_neg hn] at hr
    exact .inr ⟨hn, hr⟩

theorem same (hs : SameStandings t t') : Writable t' D current := by
  obtain ⟨r, hr, hp⟩ := h.row
  obtain ⟨r', hr', hp', -⟩ := hs.of_find hr
  exact ⟨⟨r', hr', hp.trans hp'.symm⟩, (fits_congr hs.parent).mpr h.fits⟩

theorem revises {R : String → Standing → Standing → Prop} (hrefl : ∀ n s, R n s s)
    (hR : ∀ r, t.find current.id = some r → R current.id r.standing current.standing) :
    Revises R t (t.replace current) := by
  obtain ⟨r, hr, hp⟩ := h.row
  exact revises_replace hrefl hr hp (hR r hr)

theorem sameParents : SameParents t (t.replace current) :=
  h.revises (R := fun _ _ _ => True) (fun _ _ => trivial) fun _ _ => trivial

end Writable

theorem Mixed.write {D' : String → Prop} {current : TenantData} (h : Mixed t D T)
    (hw : Writable t D' current) (hD' : D' = D ∨ D' = mark D T) :
    Mixed (t.replace current) D T where
  forest := by
    rw [IsForest, hw.parent]
    exact h.forest
  marks n hD := hw.present (h.marks n hD)
  unmarked := h.unmarked
  target := hw.present h.target
  fits n r hr := by
    rw [FitsEither, fits_congr hw.parent, fits_congr hw.parent]
    rcases hw.find_cases hr with ⟨rfl, he, -⟩ | ⟨-, hr'⟩
    · rw [he]
      rcases hD' with rfl | rfl
      · exact .inl hw.fits
      · exact .inr hw.fits
    · exact h.fits n r hr'

section Growth

variable {c : TenantData}

variable (h : Mixed t D T)
include h

variable (hg : Grows t t' c)
include hg

theorem Mixed.ground (_ : c.parentID ≠ "") :
    ¬ D c.parentID ∧ Outermost (parentOf t) D c.parentID none := by
  cases hr : t.find c.parentID with
  | none => exact Grows.ground_of_missing h.marks hr
  | some r =>
    rcases h.fits _ r hr with hfit | hfit
    · exact hfit.unsuspended (hg.ground r hr)
    · obtain ⟨hD, ho⟩ := hfit.unsuspended (hg.ground r hr)
      exact ⟨fun h => hD (.inl h), fun a ha h => ho a ha (.inl h)⟩

/-- A tenant created outside the walked subtree changes nothing, and one created inside
hangs under a row that the walk has not reached. -/
theorem Mixed.grows_cases : ((∀ n s, Fits t' (mark D T) n s ↔ Fits t (mark D T) n s) ∧
      Fits t' (mark D T) c.id c.standing) ∨
    (parentOf t' c.id = some c.parentID ∧
      (∃ r, t.find c.parentID = some r ∧ ¬ Fits t (mark D T) c.parentID r.standing) ∧
      ∀ n s, Fits t (mark D T) n s →
        (n = c.id ∨ Above (parentOf t) c.id n) ∧ ¬ (n = T ∨ Above (parentOf t) T n) ∧
          Fits t' D n s ∨ Fits t' (mark D T) n s) := by
  by_cases hin : c.parentID ≠ "" ∧ (T = c.parentID ∨ Above (parentOf t) T c.parentID)
  · right
    obtain ⟨hp, hin⟩ := hin
    have hnew := hg.parentOf_new hp
    have hTnew : T ≠ c.id := fun he => h.target (he ▸ hg.new)
    refine ⟨hnew, ?_, fun n s hfit => ?_⟩
    · obtain ⟨r, hr⟩ : ∃ r, t.find c.parentID = some r := by
        rcases hin with he | ha
        · exact Option.ne_none_iff_exists'.mp (he ▸ h.target)
        · exact exists_row_of_above ha
      refine ⟨r, hr, fun hfit => ?_⟩
      obtain ⟨hD, ho⟩ := hfit.unsuspended (hg.ground r hr)
      rcases hin with he | ha
      · exact hD (.inr he.symm)
      · exact ho T ha (.inr rfl)
    · by_cases hbelow : n = c.id ∨ Above (parentOf t) c.id n
      · -- the target is not above the new subtree, or the new edge would close a cycle
        have hT' := hin.imp_right (hg.above _ _)
        have hTc : Above (parentOf t') T c.id := by
          rcases hT' with he | ha
          · exact he ▸ .parent hnew
          · exact .step hnew ha
        have hcT : ¬ Above (parentOf t) c.id T := fun ha =>
          hg.forest.not_above_self T (hTc.trans (hg.above _ _ ha))
        have hTn : n ≠ T ∧ ¬ Above (parentOf t) T n := by
          rcases hbelow with rfl | hcn
          · exact ⟨hTnew.symm, not_above_of_root (parentOf_of_find hg.new)⟩
          refine ⟨fun he => hcT (he ▸ hcn), fun hTn => ?_⟩
          rcases hTn.chain hcn with he | ha | ha
          · exact hTnew he
          · exact not_above_of_root (parentOf_of_find hg.new) ha
          · exact hcT ha
        refine .inl ⟨hbelow, not_or.mpr hTn, ?_⟩
        rw [hg.fits_iff (h.ground hg)]
        exact (fits_mark_iff hTn.1 hTn.2).mp hfit
      · rw [not_or] at hbelow
        exact .inr ((hg.fits_iff_of_not_below hbelow.1 hbelow.2).mpr hfit)
  · left
    have hground : c.parentID ≠ "" →
        ¬ mark D T c.parentID ∧ Outermost (parentOf t) (mark D T) c.parentID none := by
      intro hp
      obtain ⟨hD, ho⟩ := h.ground hg hp
      have hout : ¬ (T = c.parentID ∨ Above (parentOf t) T c.parentID) := fun hT => hin ⟨hp, hT⟩
      rw [not_or] at hout
      refine ⟨fun hm => hm.elim hD fun he => hout.1 he.symm, ?_⟩
      exact (outermost_mark_iff hout.2 none).mpr ho
    exact ⟨fun n s => hg.fits_iff hground, hg.fits_new h.marks_target hground⟩

theorem Mixed.grows : Mixed t' D T := by
  refine ⟨hg.forest, fun n hD => hg.present (h.marks n hD), h.unmarked, hg.present h.target,
    hg.forall_rows (.inl (hg.fits_new h.marks (h.ground hg))) fun n r hr => ?_⟩
  rcases h.fits n r hr with hfit | hfit
  · exact .inl ((hg.fits_iff (h.ground hg)).mpr hfit)
  rcases h.grows_cases hg with ⟨hiff, -⟩ | ⟨-, -, hcases⟩
  · exact .inr ((hiff n _).mpr hfit)
  · exact (hcases n _ hfit).imp (·.2.2) id

variable {whole below : List String}

theorem Mixed.covered_grows (hcov : ∀ n r, t.find n = some r →
      Fits t (mark D T) n r.standing ∨ Covered t whole below n) :
    ∀ n r, t'.find n = some r → Fits t' (mark D T) n r.standing ∨ Covered t' whole below n := by
  rcases h.grows_cases hg with ⟨hiff, hnew⟩ | ⟨hp, ⟨rp, hrp, hnot⟩, hcases⟩
  · exact hg.forall_rows (.inl hnew) fun n r hr =>
      (hcov n r hr).imp (hiff n _).mpr fun hc => hc.mono hg.above
  · have hpar : Covered t' whole below c.parentID :=
      ((hcov _ rp hrp).resolve_left hnot).mono hg.above
    have hsub : ∀ m, m = c.id ∨ Above (parentOf t) c.id m → Covered t' whole below m := by
      intro m hm
      refine hpar.descend (.inr ?_)
      rcases hm with rfl | hm
      · exact .parent hp
      · exact Above.trans (.parent hp) (hg.above _ _ hm)
    refine hg.forall_rows (.inr (hsub _ (.inl rfl))) fun n r hr => ?_
    rcases hcov n r hr with hfit | hc
    · exact (hcases n _ hfit).symm.imp id fun hlow => hsub n hlow.1
    · exact .inr (hc.mono hg.above)

theorem Mixed.uncovered_grows
    (hcov : ∀ n r, t.find n = some r → Fits t D n r.standing ∨ Covered t whole below n) :
    ∀ n r, t'.find n = some r → Fits t' D n r.standing ∨ Covered t' whole below n := by
  exact hg.forall_rows (.inl (hg.fits_new h.marks (h.ground hg))) fun n r hr =>
    (hcov n r hr).imp (hg.fits_iff (h.ground hg)).mpr fun hc => hc.mono hg.above

end Growth

section Reached

open List

/-- The visited tenants are closed upwards as far as the target, and those that are opened have no
visited children yet. -/
structure Reached (t : TenantTable) (D : String → Prop) (T : String)
    (visited opened : List String) : Prop where
  mixed : Mixed t D T
  target_visited : T ∈ visited
  visited_nodup : visited.Nodup
  visited_below : ∀ v ∈ visited, v = T ∨ Above (parentOf t) T v
  visited_parent : ∀ v ∈ visited, v ≠ T → ∃ p, parentOf t v = some p ∧ p ∈ visited ∧ p ∉ opened
  opened_visited : ∀ q ∈ opened, q ∈ visited
  opened_nodup : opened.Nodup

variable {visited opened : List String} {p q : String}

theorem Reached.start (h : Mixed t D T) (hopened : opened.Sublist [T]) :
    Reached t D T [T] opened where
  mixed := h
  target_visited := mem_singleton_self T
  visited_nodup := nodup_singleton T
  visited_below _ hv := .inl (mem_singleton.mp hv)
  visited_parent _ hv hne := absurd (mem_singleton.mp hv) hne
  opened_visited _ hq := hopened.mem hq
  opened_nodup := (nodup_singleton T).sublist hopened

variable (h : Reached t D T visited opened)
include h

theorem Reached.exists_row (hn : n ∈ visited) : ∃ r, t.find n = some r := by
  rcases h.visited_below n hn with rfl | ha
  · exact Option.ne_none_iff_exists'.mp h.mixed.target
  · exact exists_row_of_above ha

theorem Reached.congr (hmixed : Mixed t' D T) (hparent : parentOf t' = parentOf t) :
    Reached t' D T visited opened :=
  { h with
    mixed := hmixed
    visited_below := hparent ▸ h.visited_below
    visited_parent := hparent ▸ h.visited_parent }

theorem Reached.grows {c : TenantData} (hg : Grows t t' c) : Reached t' D T visited opened :=
  { h with
    mixed := h.mixed.grows hg
    visited_below v hv := (h.visited_below v hv).imp_right (hg.above _ _)
    visited_parent v hv hne := by
      obtain ⟨p, hp, hpv⟩ := h.visited_parent v hv hne
      exact ⟨p, hg.parentOf_old v p hp, hpv⟩ }

theorem Reached.perm {opened' : List String} (hperm : opened'.Perm opened) :
    Reached t D T visited opened' :=
  { h with
    visited_parent := by simpa only [hperm.mem_iff] using h.visited_parent
    opened_visited := fun q hq => h.opened_visited q (hperm.mem_iff.mp hq)
    opened_nodup := hperm.nodup_iff.mpr h.opened_nodup }

theorem Reached.child_not_visited (hq : q ∈ opened) (hc : parentOf t n = some q) :
    n ∉ visited := by
  intro hv
  by_cases hT : n = T
  · subst hT
    rcases h.visited_below q (h.opened_visited q hq) with he | ha
    · exact h.mixed.forest.not_above_self _ (.parent (he ▸ hc))
    · exact h.mixed.forest.not_above_self _ (ha.trans (.parent hc))
  · obtain ⟨p, hp, -, hnot⟩ := h.visited_parent n hv hT
    cases hc.symm.trans hp
    exact hnot hq

theorem Reached.child_below (hp : p ∈ visited) (hc : parentOf t n = some p) :
    Above (parentOf t) T n := by
  rcases h.visited_below p hp with rfl | ha
  · exact .parent hc
  · exact ha.trans (.parent hc)

omit h in
theorem Reached.pop (h : Reached t D T visited (q :: opened)) : Reached t D T visited opened :=
  { h with
    visited_parent v hv hne := by
      obtain ⟨p, hp, hpv, hnot⟩ := h.visited_parent v hv hne
      exact ⟨p, hp, hpv, fun hmem => hnot (mem_cons_of_mem q hmem)⟩
    opened_visited q' hq' := h.opened_visited q' (mem_cons_of_mem q hq')
    opened_nodup := (nodup_cons.mp h.opened_nodup).2 }

/-- Children of a tenant that is not opened any more are visited and opened. -/
theorem Reached.visit {cs : List String} (hp : p ∈ visited) (hclosed : p ∉ opened)
    (hnodup : cs.Nodup) (hcs : ∀ c ∈ cs, parentOf t c = some p ∧ c ∉ visited) :
    Reached t D T (cs.reverse ++ visited) (opened ++ cs) := by
  have hstill : ∀ p ∈ visited, p ∉ opened → p ∈ cs.reverse ++ visited ∧ p ∉ opened ++ cs := by
    intro p hp hclosed
    rw [mem_append, mem_append, not_or]
    exact ⟨.inr hp, hclosed, fun hmem => (hcs p hmem).2 hp⟩
  refine ⟨h.mixed, mem_append_right _ h.target_visited, ?_, fun v hv => ?_, fun v hv hT => ?_,
    fun q hq => ?_, ?_⟩
  · exact List.Nodup.append (nodup_reverse.mpr hnodup) h.visited_nodup fun c hc hcv =>
      (hcs c (mem_reverse.mp hc)).2 hcv
  · rcases mem_append.mp hv with hv | hv
    · exact .inr (h.child_below hp (hcs v (mem_reverse.mp hv)).1)
    · exact h.visited_below v hv
  · rcases mem_append.mp hv with hv | hv
    · exact ⟨p, (hcs v (mem_reverse.mp hv)).1, hstill p hp hclosed⟩
    · obtain ⟨p', hp', hpv', hclosed'⟩ := h.visited_parent v hv hT
      exact ⟨p', hp', hstill p' hpv' hclosed'⟩
  · rcases mem_append.mp hq with hq | hq
    · exact mem_append_right _ (h.opened_visited q hq)
    · exact mem_append_left _ (mem_reverse.mpr hq)
  · exact List.Nodup.append h.opened_nodup hnodup fun c hc hcc =>
      (hcs c hcc).2 (h.opened_visited c hc)

end Reached

end Cfgms.Tenant
