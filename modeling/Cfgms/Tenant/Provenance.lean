import Cfgms.Forest.Outermost
import Cfgms.Tenant.Walk

/-! # Suspension provenance

What a row says about suspension fits a set of directly suspended tenants when the row is
suspended exactly if it or an ancestor is in the set, and names the outermost such
ancestor.
-/

namespace Cfgms.Tenant

open Forest

/-- The part of a row that suspending and restoring is about. -/
structure Standing where
  status : TenantStatus
  directlySuspended : Bool
  cascadeSuspendedFrom : Option String
  deriving DecidableEq

def TenantData.standing (r : TenantData) : Standing :=
  ⟨r.status, r.directlySuspended, r.cascadeSuspendedFrom⟩

/-- The parent that a row names, whether or not that parent has a row. -/
def parentOf (t : TenantTable) (n : String) : Option String :=
  match t.find n with
  | none => none
  | some r => if r.parentID = "" then none else some r.parentID

def IsForest (t : TenantTable) : Prop := Grounded (parentOf t)

/-- The standing is the one that the directly suspended tenants `D` impose on `n`. -/
structure Fits (t : TenantTable) (D : String → Prop) (n : String) (s : Standing) : Prop where
  direct : s.directlySuspended = true ↔ D n
  outermost : Outermost (parentOf t) D n s.cascadeSuspendedFrom
  status : s.status = .suspended ↔ s.directlySuspended = true ∨ s.cascadeSuspendedFrom ≠ none

/-- Only tenants that have a row are directly suspended. -/
def MarksRows (t : TenantTable) (D : String → Prop) : Prop := ∀ n, D n → t.find n ≠ none

/-- No walk is under way: every row fits the directly suspended tenants. -/
structure Settled (t : TenantTable) (D : String → Prop) : Prop where
  forest : IsForest t
  marks : MarksRows t D
  fits : ∀ n r, t.find n = some r → Fits t D n r.standing

variable {t t' : TenantTable} {D : String → Prop} {n a : String} {s s' : Standing}
  {r : TenantData}

theorem parentOf_eq_some {p : String} :
    parentOf t n = some p ↔ p ≠ "" ∧ ∃ r, t.find n = some r ∧ r.parentID = p := by
  unfold parentOf
  cases t.find n with
  | none => simp
  | some r =>
    by_cases hp : r.parentID = ""
    · simp only [hp, if_true, Option.some.injEq, exists_eq_left']
      exact ⟨by simp, fun h => absurd h.2.symm h.1⟩
    · simp only [hp, if_false, Option.some.injEq, exists_eq_left']
      exact ⟨fun h => ⟨h ▸ hp, h⟩, And.right⟩

theorem parentOf_of_find (h : t.find n = none) : parentOf t n = none := by
  simp [parentOf, h]

theorem mem_childIDs_iff {p : String} (hp : p ≠ "") :
    n ∈ (t.getChildTenants p).map (·.id) ↔ parentOf t n = some p := by
  rw [parentOf_eq_some, List.mem_map]
  constructor
  · rintro ⟨c, hc, rfl⟩
    obtain ⟨hf, hcp⟩ := (TenantTable.mem_getChildTenants hp).mp hc
    exact ⟨hp, c, hf, hcp⟩
  · rintro ⟨-, c, hf, hcp⟩
    have he := TenantTable.find_id hf
    exact ⟨c, (TenantTable.mem_getChildTenants hp).mpr ⟨he ▸ hf, hcp⟩, he⟩

theorem exists_row_of_above (h : Above (parentOf t) a n) : ∃ r, t.find n = some r := by
  obtain ⟨p, hp, -⟩ := above_iff.mp h
  obtain ⟨-, r, hr, -⟩ := parentOf_eq_some.mp hp
  exact ⟨r, hr⟩

theorem Fits.unique (h : Fits t D n s) (h' : Fits t D n s')
    (hstatus : s.status ≠ .suspended → s'.status ≠ .suspended → s.status = s'.status) :
    s = s' := by
  have hd : s.directlySuspended = s'.directlySuspended := by
    rw [Bool.eq_iff_iff, h.direct, h'.direct]
  have hc := h.outermost.unique h'.outermost
  have hiff : s.status = .suspended ↔ s'.status = .suspended := by
    rw [h.status, h'.status, hd, hc]
  have hs : s.status = s'.status := by
    by_cases hsusp : s.status = .suspended
    · rw [hsusp, hiff.mp hsusp]
    · exact hstatus hsusp (mt hiff.mpr hsusp)
  cases s
  cases s'
  simp_all

theorem Fits.unsuspended (h : Fits t D n s) (hs : s.status ≠ .suspended) :
    ¬ D n ∧ Outermost (parentOf t) D n none := by
  rw [ne_eq, h.status, not_or, not_not] at hs
  refine ⟨fun hD => hs.1 (h.direct.mpr hD), ?_⟩
  rw [← hs.2]
  exact h.outermost

theorem Fits.suspended_of_marked (h : Fits t D n s) (ha : D a)
    (hin : n = a ∨ Above (parentOf t) a n) : s.status = .suspended := by
  by_contra hs
  obtain ⟨hD, ho⟩ := h.unsuspended hs
  rcases hin with rfl | habove
  · exact hD ha
  · exact ho a habove ha

/-- The marks of one table, read off its rows. -/
def DirectlySuspended (t : TenantTable) (n : String) : Prop :=
  ∃ r, t.find n = some r ∧ r.directlySuspended = true

theorem Settled.direct_iff (h : Settled t D) (n : String) : D n ↔ DirectlySuspended t n := by
  constructor
  · intro hD
    obtain ⟨r, hr⟩ := Option.ne_none_iff_exists'.mp (h.marks n hD)
    exact ⟨r, hr, (h.fits n r hr).direct.mpr hD⟩
  · rintro ⟨r, hr, hd⟩
    exact (h.fits n r hr).direct.mp hd

theorem Settled.directlySuspended (h : Settled t D) : Settled t (DirectlySuspended t) := by
  have he : D = DirectlySuspended t := funext fun n => propext (h.direct_iff n)
  exact he ▸ h

def freshStanding : Standing := ⟨.active, false, none⟩

theorem settled_of_fresh (hf : IsForest t)
    (h : ∀ n r, t.find n = some r → r.standing = freshStanding) : Settled t fun _ => False := by
  refine ⟨hf, fun n hn => hn.elim, fun n r hr => ?_⟩
  rw [h n r hr]
  refine ⟨?_, fun a _ ha => ha.elim, ?_⟩
  all_goals simp [freshStanding]

theorem isForest_of_lt (f : String → ℕ) (h : ∀ r ∈ t.rows, f r.parentID < f r.id) : IsForest t := by
  refine Subrelation.wf (r := fun p n => f p < f n) (fun {p n} hp => ?_) (measure f).wf
  obtain ⟨-, r, hr, rfl⟩ := parentOf_eq_some.mp hp
  obtain ⟨hmem, rfl⟩ := TenantTable.find_eq_some_iff.mp hr
  exact h r hmem

def threeLevels : TenantTable where
  rows :=
    [⟨"rab", "rab", "", "ra", [], .active, false, none, "label-3"⟩,
      ⟨"ra", "ra", "", "r", [], .active, false, none, "label-2"⟩,
      ⟨"r", "r", "", "", [], .active, false, none, "label-1"⟩]
  nodup := by decide
  id_ne := by decide

theorem isForest_threeLevels : IsForest threeLevels := isForest_of_lt String.length (by decide)

theorem fresh_threeLevels (n : String) (r : TenantData) (h : threeLevels.find n = some r) :
    r.standing = freshStanding := by
  have hall : ∀ r ∈ threeLevels.rows, r.standing = freshStanding := by decide
  exact hall r (TenantTable.find_eq_some_iff.mp h).1

theorem settled_threeLevels : Settled threeLevels (DirectlySuspended threeLevels) :=
  (settled_of_fresh isForest_threeLevels fresh_threeLevels).directlySuspended

/-- The tables hold the same tenants under the same parents, with related standings. -/
structure Revises (R : String → Standing → Standing → Prop) (t t' : TenantTable) : Prop where
  row : ∀ n r', t'.find n = some r' →
    ∃ r, t.find n = some r ∧ r'.parentID = r.parentID ∧ R n r.standing r'.standing
  present : ∀ n, t.find n ≠ none → t'.find n ≠ none

namespace Revises

variable {R : String → Standing → Standing → Prop} {t'' : TenantTable}

theorem refl (hR : ∀ n s, R n s s) (t : TenantTable) : Revises R t t :=
  ⟨fun n r hr => ⟨r, hr, rfl, hR n _⟩, fun _ hn => hn⟩

theorem trans (hR : ∀ n s s' s'', R n s s' → R n s' s'' → R n s s'') (h : Revises R t t')
    (h' : Revises R t' t'') : Revises R t t'' := by
  refine ⟨fun n r'' hr'' => ?_, fun n hn => h'.present n (h.present n hn)⟩
  obtain ⟨r', hr', hp', hs'⟩ := h'.row n r'' hr''
  obtain ⟨r, hr, hp, hs⟩ := h.row n r' hr'
  exact ⟨r, hr, hp'.trans hp, hR n _ _ _ hs hs'⟩

variable (h : Revises R t t')
include h

theorem find_eq_none : t'.find n = none ↔ t.find n = none := by
  constructor
  · intro hn
    by_contra hne
    exact h.present n hne hn
  · intro hn
    by_contra hne
    obtain ⟨r', hr'⟩ := Option.ne_none_iff_exists'.mp hne
    obtain ⟨r, hr, -⟩ := h.row n r' hr'
    rw [hn] at hr
    cases hr

theorem of_find (hr : t.find n = some r) :
    ∃ r', t'.find n = some r' ∧ r'.parentID = r.parentID ∧ R n r.standing r'.standing := by
  obtain ⟨r', hr'⟩ := Option.ne_none_iff_exists'.mp (h.present n (by simp [hr]))
  obtain ⟨r₀, hr₀, hp, hs⟩ := h.row n r' hr'
  cases hr.symm.trans hr₀
  exact ⟨r', hr', hp, hs⟩

theorem parent : parentOf t' = parentOf t := by
  funext n
  unfold parentOf
  cases hr' : t'.find n with
  | none => rw [h.find_eq_none.mp hr']
  | some r' =>
    obtain ⟨r, hr, hp, -⟩ := h.row n r' hr'
    simp [hr, hp]

end Revises

variable {R : String → Standing → Standing → Prop} {td : TenantData}

theorem revises_replace
    (hrefl : ∀ n s, R n s s) (hr : t.find td.id = some r) (hp : td.parentID = r.parentID)
    (hR : R td.id r.standing td.standing) : Revises R t (t.replace td) := by
  have hfind := TenantTable.find_replace hr
  refine ⟨fun n r' hr' => ?_, fun n hn => ?_⟩
  · rw [hfind] at hr'
    by_cases hn : n = td.id
    · rw [if_pos hn] at hr'
      cases hr'
      exact ⟨r, hn ▸ hr, hp, hn ▸ hR⟩
    · rw [if_neg hn] at hr'
      exact ⟨r', hr', rfl, hrefl n _⟩
  · rw [hfind]
    split
    · simp
    · exact hn

/-- The two tables agree on every parent and every standing. -/
abbrev SameStandings : TenantTable → TenantTable → Prop := Revises fun _ s s' => s' = s

theorem SameStandings.refl (t : TenantTable) : SameStandings t t :=
  Revises.refl (R := fun _ s s' => s' = s) (fun _ _ => rfl) t

theorem sameStandings_replace (hr : t.find td.id = some r)
    (hp : td.parentID = r.parentID) (hs : td.standing = r.standing) :
    SameStandings t (t.replace td) :=
  revises_replace (R := fun _ s s' => s' = s) (fun _ _ => rfl) hr hp hs

abbrev SameParents : TenantTable → TenantTable → Prop := Revises fun _ _ _ => True

theorem Revises.sameParents (h : Revises R t t') : SameParents t t' := by
  refine ⟨fun n r' hr' => ?_, h.present⟩
  obtain ⟨r, hr, hp, -⟩ := h.row n r' hr'
  exact ⟨r, hr, hp, trivial⟩

theorem SameParents.refl (t : TenantTable) : SameParents t t :=
  Revises.refl (R := fun _ _ _ => True) (fun _ _ => trivial) t

/-- What was suspended stays so, and no status changes otherwise. -/
def KeepsSuspended (_ : String) (s s' : Standing) : Prop :=
  (s.directlySuspended = true → s'.directlySuspended = true) ∧
    (s'.status = .suspended ∨ s'.status = s.status)

abbrev Suspends : TenantTable → TenantTable → Prop := Revises KeepsSuspended

theorem KeepsSuspended.refl (n : String) (s : Standing) : KeepsSuspended n s s :=
  ⟨id, .inr rfl⟩

theorem KeepsSuspended.trans (n : String) (s s' s'' : Standing) (h : KeepsSuspended n s s')
    (h' : KeepsSuspended n s' s'') : KeepsSuspended n s s'' := by
  refine ⟨h'.1 ∘ h.1, ?_⟩
  rcases h'.2 with hs | hs
  · exact .inl hs
  · rw [hs]
    exact h.2

/-- Apart from the target a status changes only from suspended to active. -/
def LapsesSuspension (T n : String) (s s' : Standing) : Prop :=
  n = T ∨ s'.status = s.status ∨ s.status = .suspended ∧ s'.status = .active

abbrev Restores (T : String) : TenantTable → TenantTable → Prop := Revises (LapsesSuspension T)

theorem LapsesSuspension.refl (T n : String) (s : Standing) : LapsesSuspension T n s s :=
  .inr (.inl rfl)

theorem LapsesSuspension.unsuspended {T : String} (h : LapsesSuspension T n s s') (hn : n ≠ T)
    (hs : s'.status ≠ .suspended) :
    s'.status = if s.status = .suspended then .active else s.status := by
  rcases h with hT | he | ⟨hs, ha⟩
  · exact absurd hT hn
  · rw [← he, if_neg hs]
  · rw [if_pos hs, ha]

theorem LapsesSuspension.trans (T n : String) (s s' s'' : Standing)
    (h : LapsesSuspension T n s s') (h' : LapsesSuspension T n s' s'') :
    LapsesSuspension T n s s'' := by
  rcases h' with hT | hs' | ⟨hs', ha'⟩
  · exact .inl hT
  · unfold LapsesSuspension
    rw [hs']
    exact h
  · rcases h with hT | hs | ⟨-, ha⟩
    · exact .inl hT
    · exact .inr (.inr ⟨hs.symm.trans hs', ha'⟩)
    · rw [ha] at hs'
      cases hs'

theorem fits_iff_of_outermost {D' : String → Prop} (hD : D' n ↔ D n)
    (h : Outermost (parentOf t') D' n s.cascadeSuspendedFrom ↔
      Outermost (parentOf t) D n s.cascadeSuspendedFrom) : Fits t' D' n s ↔ Fits t D n s := by
  constructor
  · rintro ⟨hd, ho, hs⟩
    exact ⟨hd.trans hD, h.mp ho, hs⟩
  · rintro ⟨hd, ho, hs⟩
    exact ⟨hd.trans hD.symm, h.mpr ho, hs⟩

theorem fits_congr (h : parentOf t' = parentOf t) : Fits t' D n s ↔ Fits t D n s :=
  fits_iff_of_outermost Iff.rfl (by rw [h])

theorem Settled.same (h : Settled t D) (hs : SameStandings t t') : Settled t' D where
  forest := by
    rw [IsForest, hs.parent]
    exact h.forest
  marks n hD := hs.present n (h.marks n hD)
  fits n r' hr' := by
    obtain ⟨r, hr, -, he⟩ := hs.row n r' hr'
    rw [fits_congr hs.parent, he]
    exact h.fits n r hr

theorem parentOf_replace (hr : t.find td.id = some r)
    (hp : td.parentID = r.parentID) (n : String) : parentOf (t.replace td) n = parentOf t n := by
  unfold parentOf
  rw [TenantTable.find_replace hr]
  by_cases hn : n = td.id
  · rw [if_pos hn, hn, hr]
    simp [hp]
  · rw [if_neg hn]

/-- A tenant with the given ID and parent closes no cycle of parents. -/
def Joins (t : TenantTable) (id parentID : String) : Prop :=
  parentID ≠ "" → parentID ≠ id ∧ ¬ Above (parentOf t) id parentID

theorem IsForest.insert {c : TenantData} (hf : IsForest t) (hnew : t.find c.id = none)
    (hfind : ∀ n, t'.find n = if n = c.id then some c else t.find n)
    (hj : Joins t c.id c.parentID) : IsForest t' := by
  have hsame : ∀ n, n ≠ c.id → parentOf t' n = parentOf t n := by
    intro n hn
    simp [parentOf, hfind, hn]
  by_cases hp : c.parentID = ""
  · have heq : parentOf t' = parentOf t := by
      funext n
      by_cases hn : n = c.id
      · rw [hn, parentOf_of_find hnew]
        simp [parentOf, hfind, hp]
      · exact hsame n hn
    rwa [IsForest, heq]
  · obtain ⟨hne, hfree⟩ := hj hp
    exact Grounded.graft hf hsame (by simp [parentOf, hfind, hp]) hne hfree

/-- The second table has one row more, under a parent that is not suspended. -/
structure Grows (t t' : TenantTable) (c : TenantData) : Prop where
  new : t.find c.id = none
  find : ∀ n, t'.find n = if n = c.id then some c else t.find n
  standing : c.standing = freshStanding
  forest : IsForest t'
  ground : ∀ r, t.find c.parentID = some r → r.status ≠ .suspended

namespace Grows

variable {c : TenantData}

variable (h : Grows t t' c)
include h

theorem find_of_find (hr : t.find n = some r) : t'.find n = some r := by
  rw [h.find, if_neg, hr]
  rintro rfl
  rw [h.new] at hr
  cases hr

theorem parentOf_of_ne (hn : n ≠ c.id) : parentOf t' n = parentOf t n := by
  simp [parentOf, h.find, hn]

theorem parentOf_old (n p : String) (hp : parentOf t n = some p) : parentOf t' n = some p := by
  rw [h.parentOf_of_ne, hp]
  rintro rfl
  rw [parentOf_of_find h.new] at hp
  cases hp

theorem above (a n : String) (ha : Above (parentOf t) a n) : Above (parentOf t') a n :=
  ha.graft h.parentOf_old

theorem parentOf_new (hp : c.parentID ≠ "") : parentOf t' c.id = some c.parentID := by
  simp [parentOf, h.find, hp]

theorem fits_iff
    (hp : c.parentID ≠ "" → ¬ D c.parentID ∧ Outermost (parentOf t) D c.parentID none) :
    Fits t' D n s ↔ Fits t D n s := by
  by_cases hroot : c.parentID = ""
  · refine fits_congr (funext fun m => ?_)
    by_cases hm : m = c.id
    · subst hm
      rw [parentOf_of_find h.new]
      simp [parentOf, h.find, hroot]
    · exact h.parentOf_of_ne hm
  · obtain ⟨hD, hclear⟩ := hp hroot
    exact fits_iff_of_outermost Iff.rfl (outermost_graft_iff (parentOf_of_find h.new)
      (fun m hm => h.parentOf_of_ne hm) (h.parentOf_new hroot) hD hclear n _)

/-- Away from the new subtree nothing changes, whatever the marks. -/
theorem fits_iff_of_not_below (hn : n ≠ c.id)
    (hbelow : ¬ Above (parentOf t) c.id n) : Fits t' D n s ↔ Fits t D n s := by
  refine fits_iff_of_outermost Iff.rfl (outermost_prune_iff
    (K := fun m => m ≠ c.id ∧ ¬ Above (parentOf t) c.id m) (fun m hm => h.parentOf_of_ne hm.1)
    ?_ (fun _ _ => Iff.rfl) ⟨hn, hbelow⟩ _)
  rintro m p ⟨-, hm⟩ hp
  exact ⟨fun he => hm (he ▸ .parent hp), fun ha => hm (.step hp ha)⟩

theorem present (hn : t.find n ≠ none) : t'.find n ≠ none := by
  obtain ⟨r, hr⟩ := Option.ne_none_iff_exists'.mp hn
  simp [h.find_of_find hr]

theorem forall_rows {P : String → TenantData → Prop} (hnew : P c.id c)
    (hold : ∀ n r, t.find n = some r → P n r) (n : String) (r : TenantData)
    (hr : t'.find n = some r) : P n r := by
  rw [h.find] at hr
  split_ifs at hr with hn
  · cases hr
    exact hn ▸ hnew
  · exact hold n r hr

omit h in
theorem ground_of_missing (hD : MarksRows t D) (hmiss : t.find c.parentID = none) :
    ¬ D c.parentID ∧ Outermost (parentOf t) D c.parentID none :=
  ⟨fun h => hD _ h hmiss, fun _ ha => absurd ha (not_above_of_root (parentOf_of_find hmiss))⟩

theorem fits_new (hD : MarksRows t D)
    (hp : c.parentID ≠ "" → ¬ D c.parentID ∧ Outermost (parentOf t) D c.parentID none) :
    Fits t' D c.id c.standing := by
  rw [h.fits_iff hp, h.standing]
  refine ⟨?_, fun a ha => absurd ha (not_above_of_root (parentOf_of_find h.new)), ?_⟩
  · simp only [freshStanding, Bool.false_eq_true, false_iff]
    exact fun hDc => hD _ hDc h.new
  · simp [freshStanding]

end Grows

theorem Settled.grows {c : TenantData} (h : Settled t D) (hg : Grows t t' c) : Settled t' D := by
  have hp : c.parentID ≠ "" → ¬ D c.parentID ∧ Outermost (parentOf t) D c.parentID none := by
    intro _
    cases hr : t.find c.parentID with
    | none => exact Grows.ground_of_missing h.marks hr
    | some r => exact (h.fits _ r hr).unsuspended (hg.ground r hr)
  exact ⟨hg.forest, fun n hD => hg.present (h.marks n hD), hg.forall_rows
    (hg.fits_new h.marks hp) fun n r hr => (hg.fits_iff hp).mpr (h.fits n r hr)⟩

/-- The second table lacks some tenants of the first, together with all that are below them. -/
structure Prunes (t t' : TenantTable) (ids : List String) : Prop where
  find : ∀ n, t'.find n = if n ∈ ids then none else t.find n
  below : ∀ n p, parentOf t n = some p → p ∈ ids → n ∈ ids

namespace Prunes

variable {ids : List String}

variable (h : Prunes t t' ids)
include h

theorem parentOf_kept (hn : n ∉ ids) : parentOf t' n = parentOf t n := by
  simp [parentOf, h.find, hn]

theorem not_mem_of_parent {p : String} (hp : parentOf t' n = some p) : n ∉ ids := by
  intro hn
  simp [parentOf, h.find, hn] at hp

theorem isForest (hf : IsForest t) : IsForest t' :=
  Grounded.prune hf fun _ _ hp => (h.parentOf_kept (h.not_mem_of_parent hp)).symm.trans hp

theorem settled (hs : Settled t D) : Settled t' fun n => D n ∧ n ∉ ids := by
  refine ⟨h.isForest hs.forest, fun n hn => ?_, fun n r hr => ?_⟩
  · rw [h.find, if_neg hn.2]
    exact hs.marks n hn.1
  · rw [h.find] at hr
    split_ifs at hr with hn
    refine (fits_iff_of_outermost (and_iff_left hn) ?_).mpr (hs.fits n r hr)
    exact outermost_prune_iff (K := (· ∉ ids)) (fun _ => h.parentOf_kept)
      (fun m p hm hp hmem => hm (h.below m p hp hmem)) (fun _ => and_iff_left) hn _

end Prunes

end Cfgms.Tenant
