import Cfgms.Tenant.Mixed
import Cfgms.Tenant.Termination

/-! # The restore walk

The walk carries with every queued tenant the ancestor that still contains its children, which a
child of the target is given. Whatever does not fit the remaining marks yet lies below the queue
or among the children still to be handled.
-/

namespace Cfgms.Tenant

open Forest List

/-- The ancestor that contains the children of a tenant with the given standing. -/
def Standing.childProvenance (n : String) (s : Standing) : Option String :=
  match s.cascadeSuspendedFrom with
  | some a => some a
  | none => if s.status = .suspended then some n else none

/-- The carried ancestor is the one the marks impose on the children of `p`. -/
def Carries (t : TenantTable) (D : String → Prop) (p : String) (carrier : Option String) : Prop :=
  ∃ s, Fits t D p s ∧ carrier = s.childProvenance p

variable {t t' : TenantTable} {D : String → Prop} {n p q T : String} {s : Standing}
  {r : TenantData} {carrier : Option String}

theorem Carries.outermost (h : Carries t D p carrier) (hp : parentOf t n = some p) :
    Outermost (parentOf t) D n carrier := by
  obtain ⟨s, hfit, rfl⟩ := h
  have hout := hfit.outermost
  unfold Standing.childProvenance
  cases hc : s.cascadeSuspendedFrom with
  | some a => exact (hc ▸ hout).child_of_some hp
  | none =>
    rw [hc] at hout
    have hstatus : s.status = .suspended ↔ D p := by
      rw [hfit.status, hc, ← hfit.direct]
      simp
    by_cases hD : D p
    · simpa [hstatus.mpr hD] using hout.child_of_marked hp hD
    · simpa [mt hstatus.mp hD] using hout.child_of_unmarked hp hD

theorem Carries.congr (h : Carries t D p carrier) (hp : parentOf t' = parentOf t) :
    Carries t' D p carrier := by
  obtain ⟨s, hfit, he⟩ := h
  exact ⟨s, (fits_congr hp).mpr hfit, he⟩

theorem FitsEither.of_not_cascaded (hf : IsForest t) (h : FitsEither t D T n s)
    (hT : Above (parentOf t) T n) (hc : s.cascadeSuspendedFrom ≠ some T) : Fits t D n s := by
  have hne : n ≠ T := by
    rintro rfl
    exact hf.not_above_self n hT
  rcases id h with hlow | hhigh
  · exact hlow
  obtain ⟨o, ho⟩ := exists_outermost hf D T
  cases o with
  | none => exact absurd (hhigh.outermost.unique (ho.mark_below_none hf hT)) hc
  | some a =>
    refine ⟨h.direct hne, ?_, h.status⟩
    rw [h.below_contained hf hT ho]
    exact ho.below hT

namespace RestoreWalk

def queued (w : RestoreWalk) : List String := w.queue.map Prod.fst

def pending (w : RestoreWalk) : Option TenantData :=
  match w.point with
  | .writeTarget existing => some existing
  | .writeChild _ child _ => some child
  | _ => none

/-- Tenants that were visited and whose children are still to be listed. -/
def opened (w : RestoreWalk) : List String := (w.pending.map (·.id)).toList ++ w.queued

def listedCarrier (w : RestoreWalk) : Option String :=
  match w.point with
  | .children suspendedAncestor _ => suspendedAncestor
  | .writeChild suspendedAncestor _ _ => suspendedAncestor
  | _ => none

def atTarget (w : RestoreWalk) : Bool :=
  match w.point with
  | .get => true
  | .writeTarget _ => true
  | _ => false

/-- The subtrees that the walk has still to handle. -/
def whole (w : RestoreWalk) : List String :=
  match w.point with
  | .get => [w.target]
  | .writeTarget _ => [w.target]
  | .pop => []
  | .children _ children => children.map (·.id)
  | .writeChild _ child children => child.id :: children.map (·.id)

/-- A listed child is a row as the walk read it, below a tenant that is already expanded. -/
structure Listing (t : TenantTable) (D : String → Prop) (w : RestoreWalk) : Prop where
  row : ∀ c ∈ w.listed, ∃ r, t.find c.id = some r ∧ r.standing = c.standing ∧
    r.parentID = c.parentID
  parent : w.listed ≠ [] → ∃ p ∈ w.visited, p ∉ w.opened ∧ Carries t D p w.listedCarrier ∧
    ∀ c ∈ w.listed, parentOf t c.id = some p
  nodup : (w.listed.map (·.id)).Nodup
  unvisited : ∀ c ∈ w.listed, c.id ∉ w.visited

structure Inv (t : TenantTable) (D : String → Prop) (w : RestoreWalk) : Prop
    extends Reached t D w.target w.visited w.opened where
  carried : ∀ e ∈ w.queue, Carries t D e.1 e.2
  listing : w.Listing t D
  covered : ∀ n r, t.find n = some r → Fits t D n r.standing ∨ Covered t w.whole w.queued n
  prepared : ∀ current, w.pending = some current → Writable t D current
  at_target : w.atTarget = true → w.queue = [] ∧ w.visited = [w.target] ∧
    ∀ current, w.pending = some current → current.id = w.target

variable {w w' : RestoreWalk}

theorem Listing.nil (h : w.listed = []) : w.Listing t D := by
  refine ⟨?_, fun hne => absurd h hne, ?_, ?_⟩
  all_goals
    rw [h]
    simp

theorem Inv.start (h : Mixed t D T) : (RestoreWalk.start T).Inv t D where
  toReached := .start h (nil_sublist _)
  carried e he := absurd he not_mem_nil
  listing := Listing.nil rfl
  covered n r hr := by
    by_cases hn : n = T ∨ Above (parentOf t) T n
    · exact .inr (.inl ⟨T, mem_singleton_self T, hn.imp_left Eq.symm⟩)
    rw [not_or] at hn
    rcases h.fits n r hr with hfit | hfit
    · exact .inl hfit
    · exact .inl ((fits_mark_iff hn.1 hn.2).mp hfit)
  prepared := by
    rintro current ⟨⟩
  at_target _ := by
    refine ⟨rfl, rfl, ?_⟩
    rintro current ⟨⟩

theorem Inv.same (h : w.Inv t D) (hs : SameStandings t t') : w.Inv t' D := by
  have hparent := hs.parent
  refine ⟨h.toReached.congr (h.mixed.same hs) hparent,
    fun e he => (h.carried e he).congr hparent, ⟨fun c hc => ?_, fun hne => ?_,
      h.listing.nodup, h.listing.unvisited⟩, fun n r' hr' => ?_,
    fun current hc => (h.prepared current hc).same hs, h.at_target⟩
  · obtain ⟨r, hr, hst, hp⟩ := h.listing.row c hc
    obtain ⟨r', hr', hp', hst'⟩ := hs.of_find hr
    exact ⟨r', hr', hst'.trans hst, hp'.trans hp⟩
  · obtain ⟨p, hp, hpq, hcar, hpar⟩ := h.listing.parent hne
    refine ⟨p, hp, hpq, hcar.congr hparent, ?_⟩
    rw [hparent]
    exact hpar
  · obtain ⟨r, hr, -, he⟩ := hs.row n r' hr'
    rw [he, fits_congr hs.parent]
    refine (h.covered n r hr).imp_right fun hc => hc.mono fun a m ha => ?_
    rwa [hparent]

theorem Inv.grows {c : TenantData} (h : w.Inv t D) (hg : Grows t t' c) : w.Inv t' D := by
  have hfits : ∀ n s, Fits t' D n s ↔ Fits t D n s := fun n s => hg.fits_iff (h.mixed.ground hg)
  have hcarries : ∀ p carrier, Carries t D p carrier → Carries t' D p carrier := by
    rintro p carrier ⟨s, hfit, he⟩
    exact ⟨s, (hfits p s).mpr hfit, he⟩
  refine ⟨h.toReached.grows hg, fun e he => hcarries _ _ (h.carried e he),
    ⟨fun c' hc' => ?_, fun hne => ?_, h.listing.nodup, h.listing.unvisited⟩,
    h.mixed.uncovered_grows hg h.covered, fun current hc => ?_, h.at_target⟩
  · obtain ⟨r, hr, hst⟩ := h.listing.row c' hc'
    exact ⟨r, hg.find_of_find hr, hst⟩
  · obtain ⟨p, hp, hpq, hcar, hpar⟩ := h.listing.parent hne
    exact ⟨p, hp, hpq, hcarries _ _ hcar, fun c' hc' => hg.parentOf_old _ _ (hpar c' hc')⟩
  · obtain ⟨⟨r, hr, hp⟩, hfit⟩ := h.prepared current hc
    exact ⟨⟨r, hg.find_of_find hr, hp⟩, (hfits _ _).mpr hfit⟩

theorem restoreTarget_fits (hf : IsForest t) (hD : ¬ D T) (h : FitsEither t D T T r.standing) :
    Fits t D T (restoreTarget r).standing := by
  have hout := h.target_outermost hf
  have hstatus := h.status
  unfold restoreTarget
  by_cases hc : r.cascadeSuspendedFrom = none
  · simp only [hc, if_true]
    exact ⟨by simpa [TenantData.standing] using hD, hc ▸ hout, by simp [TenantData.standing]⟩
  simp only [hc, if_false]
  refine ⟨by simpa [TenantData.standing] using hD, hout, ?_⟩
  have hs : r.status = .suspended := hstatus.mpr (.inr hc)
  simp [TenantData.standing, hs, hc]

theorem restoreChild_standing (w : RestoreWalk) (carrier : Option String) (child : TenantData) :
    (w.restoreChild carrier child).1.standing =
      ⟨if child.directlySuspended ∨ carrier ≠ none then .suspended else .active,
        child.directlySuspended, carrier⟩ := by
  unfold restoreChild
  split <;> simp_all [TenantData.standing]

theorem restoreTarget_id (r : TenantData) :
    (restoreTarget r).id = r.id ∧ (restoreTarget r).parentID = r.parentID := by
  unfold restoreTarget
  dsimp only
  split <;> exact ⟨rfl, rfl⟩

section

variable (h : w.Inv t D)
include h

theorem Inv.get (hpt : w.point = .get) (hr : t.find w.target = some r) :
    Inv t D { w with point := .writeTarget (restoreTarget r) } := by
  have hid : (restoreTarget r).id = w.target :=
    (restoreTarget_id r).1.trans (TenantTable.find_id hr)
  obtain ⟨hq, hv, -⟩ := h.at_target (by simp [atTarget, hpt])
  have hopened : opened { w with point := .writeTarget (restoreTarget r) } = [w.target] := by
    simp [opened, pending, queued, hq, hid]
  refine ⟨?_, h.carried, Listing.nil rfl, ?_, ?_, fun _ => ⟨hq, hv, ?_⟩⟩
  · rw [hopened]
    exact hv ▸ .start h.mixed (.refl _)
  · simpa only [whole, hpt, queued] using h.covered
  · rintro _ ⟨⟩
    refine ⟨⟨r, by rw [hid, hr], (restoreTarget_id r).2⟩, ?_⟩
    rw [hid]
    exact restoreTarget_fits h.mixed.forest h.mixed.unmarked (h.mixed.fits _ r hr)
  · rintro _ ⟨⟩
    exact hid

theorem Inv.pop {queue : List (String × Option String)} (hpt : w.point = .pop)
    (hq : w.queue = (q, carrier) :: queue) :
    Inv t D { w with queue := queue, point := .children carrier (t.getChildTenants q) } := by
  have hopened : w.opened = q :: queue.map Prod.fst := by simp [opened, pending, hpt, queued, hq]
  have hmem : q ∈ w.opened := by rw [hopened]; exact mem_cons_self
  have hreached := h.toReached
  rw [hopened] at hreached
  obtain ⟨r, hr⟩ := h.exists_row (h.opened_visited q hmem)
  have hid := TenantTable.find_ne hr
  have hparent : ∀ c ∈ t.getChildTenants q, parentOf t c.id = some q := fun c hc =>
    (mem_childIDs_iff hid).mp (mem_map_of_mem hc)
  refine ⟨hreached.pop, fun e he => h.carried e ?_,
    ⟨fun c hc => ⟨c, ?_, rfl, rfl⟩, fun _ => ⟨q, h.opened_visited q hmem,
      (nodup_cons.mp hreached.opened_nodup).1, ?_, hparent⟩, t.nodup_getChildTenants q,
      fun c hc => h.child_not_visited hmem (hparent c hc)⟩,
    fun n r hr => (h.covered n r hr).imp_right fun hc => ?_, ?_, ?_⟩
  · rw [hq]
    exact mem_cons_of_mem _ he
  · exact ((TenantTable.mem_getChildTenants hid).mp hc).1
  · exact h.carried (q, carrier) (by rw [hq]; exact mem_cons_self)
  · simp only [whole, hpt, queued, hq, map_cons] at hc
    exact hc.list_children hid
  · rintro _ ⟨⟩
  · rintro ⟨⟩

theorem Inv.children_nil (hpt : w.point = .children carrier []) :
    Inv t D { w with point := .pop } := by
  refine ⟨?_, h.carried, Listing.nil rfl, ?_, ?_, ?_⟩
  · simpa only [opened, pending, queued, hpt] using h.toReached
  · simpa only [whole, hpt, queued, map_nil] using h.covered
  · rintro _ ⟨⟩
  · rintro ⟨⟩

variable {child current : TenantData} {children : List TenantData}

/-- The next listed child is visited and the row that is to stand for it is prepared. -/
theorem Inv.visit
    (hpt : w.point = .children carrier (child :: children)) (hid : current.id = child.id)
    (hw : Writable t D current) (result : CascadeRestoreResult) :
    Inv t D { w with
      visited := child.id :: w.visited
      result := result
      point := .writeChild carrier current children } := by
  have hlisted : w.listed = child :: children := by simp [listed, hpt]
  have hmem : child ∈ w.listed := by rw [hlisted]; exact mem_cons_self
  have hsub : ∀ c ∈ children, c ∈ w.listed := fun c hc => by
    rw [hlisted]
    exact mem_cons_of_mem child hc
  obtain ⟨p, hpv, hpq, hcar, hpar⟩ := h.listing.parent (by simp [hlisted])
  have hnodup := h.listing.nodup
  rw [hlisted, map_cons, nodup_cons] at hnodup
  have hnew := h.listing.unvisited child hmem
  have hopened : (opened { w with
      visited := child.id :: w.visited
      result := result
      point := .writeChild carrier current children }).Perm (w.opened ++ [child.id]) := by
    simpa [opened, pending, queued, hid, hpt] using (perm_append_singleton _ _).symm
  refine ⟨(h.toReached.visit hpv hpq (nodup_singleton child.id) ?_).perm hopened, h.carried,
    ⟨fun c hc => h.listing.row c (hsub c hc), fun _ => ?_, hnodup.2, fun c hc => ?_⟩, ?_, ?_, ?_⟩
  · rintro c hc
    rw [mem_singleton.mp hc]
    exact ⟨hpar child hmem, hnew⟩
  · refine ⟨p, mem_cons_of_mem _ hpv, ?_, ?_, fun c hc => hpar c (hsub c hc)⟩
    · rw [hopened.mem_iff, mem_append, mem_singleton, not_or]
      exact ⟨hpq, fun he => hnew (he ▸ hpv)⟩
    · simpa only [listedCarrier, hpt] using hcar
  · rw [mem_cons, not_or]
    refine ⟨fun he => hnodup.1 (he ▸ mem_map_of_mem hc), ?_⟩
    exact h.listing.unvisited c (hsub c hc)
  · simpa only [whole, hpt, hid, map_cons, queued] using h.covered
  · rintro _ ⟨⟩
    exact hw
  · rintro ⟨⟩

theorem Inv.whole_eq (hp : w.pending = some current) :
    w.whole = current.id :: w.listed.map (·.id) := by
  cases hpt : w.point with
  | writeTarget existing =>
    have hT := (h.at_target (by simp [atTarget, hpt])).2.2 current hp
    simp [whole, listed, hpt, hT]
  | writeChild carrier child children =>
    simp only [pending, hpt] at hp
    cases hp
    simp [whole, listed, hpt]
  | get | pop | children => simp [pending, hpt] at hp

/-- Once the row that stands for a tenant is in the table, the tenant is queued. -/
theorem Inv.enqueue (hp : w.pending = some current)
    (hmixed : Mixed t' D w.target) (hparent : parentOf t' = parentOf t)
    (hpresent : ∀ n, t.find n ≠ none → t'.find n ≠ none)
    (hrows : ∀ n r, t'.find n = some r →
      n = current.id ∧ r.standing = current.standing ∨ n ≠ current.id ∧ t.find n = some r) :
    Inv t' D { w with
      queue := w.queue ++ [(current.id, childProvenanceAfterRestore current)]
      point := .children w.listedCarrier w.listed } := by
  have hw := h.prepared current hp
  have hqueued : (w.queue ++ [(current.id, childProvenanceAfterRestore current)]).map Prod.fst =
      w.queued ++ [current.id] := by simp [queued]
  have hopened : w.opened = current.id :: w.queued := by simp [opened, hp]
  have hperm : List.Perm (opened { w with
      queue := w.queue ++ [(current.id, childProvenanceAfterRestore current)]
      point := .children w.listedCarrier w.listed }) w.opened := by
    rw [hopened]
    simp only [opened, pending, queued, hqueued, Option.map_none, Option.toList_none,
      nil_append]
    exact perm_append_singleton _ _
  have hv : current.id ∈ w.visited := h.opened_visited _ (by rw [hopened]; exact mem_cons_self)
  refine ⟨(h.toReached.congr hmixed hparent).perm hperm, fun e he => ?_,
    ⟨fun c hc => ?_, fun hne => ?_, h.listing.nodup, h.listing.unvisited⟩, fun n r hr => ?_, ?_, ?_⟩
  · rcases mem_append.mp he with he | he
    · exact (h.carried e he).congr hparent
    · rw [mem_singleton.mp he]
      refine Carries.congr ⟨_, hw.fits, ?_⟩ hparent
      cases current.cascadeSuspendedFrom <;> rfl
  · obtain ⟨r, hr, hst⟩ := h.listing.row c hc
    obtain ⟨r', hr'⟩ := Option.ne_none_iff_exists'.mp (hpresent c.id (by simp [hr]))
    rcases hrows _ _ hr' with ⟨he, -⟩ | ⟨-, hr₀⟩
    · exact absurd (he ▸ hv) (h.listing.unvisited c hc)
    · cases hr.symm.trans hr₀
      exact ⟨r, hr', hst⟩
  · obtain ⟨p, hpv, hpq, hcar, hpar⟩ := h.listing.parent hne
    refine ⟨p, hpv, mt hperm.mem_iff.mp hpq, hcar.congr hparent, ?_⟩
    rw [hparent]
    exact hpar
  · rw [fits_congr hparent]
    rcases hrows n r hr with ⟨rfl, he⟩ | ⟨hn, hr'⟩
    · exact .inl (he ▸ hw.fits)
    refine (h.covered n r hr').imp_right fun hc => ?_
    rw [h.whole_eq hp] at hc
    simp only [whole, queued, hqueued]
    exact (hc.open_root hn).mono fun a m ha => hparent ▸ ha
  · rintro _ ⟨⟩
  · rintro ⟨⟩

theorem Inv.write (hp : w.pending = some current) :
    Inv (t.replace current) D { w with
      queue := w.queue ++ [(current.id, childProvenanceAfterRestore current)]
      point := .children w.listedCarrier w.listed } := by
  have hw := h.prepared current hp
  refine h.enqueue hp (h.mixed.write hw (.inl rfl)) hw.parent (fun n => hw.present)
    fun n r hr => ?_
  exact (hw.find_cases hr).imp_left fun hc => ⟨hc.1, hc.2.1⟩

end

section Child

variable (h : w.Inv t D) (hpt : w.point = .children carrier (child :: children))
include h hpt

theorem Inv.next : (∃ r, t.find child.id = some r ∧ r.standing = child.standing ∧
        r.parentID = child.parentID) ∧
      Above (parentOf t) w.target child.id ∧ Outermost (parentOf t) D child.id carrier ∧
      FitsEither t D w.target child.id child.standing := by
  have hmem : child ∈ w.listed := by simp [RestoreWalk.listed, hpt]
  obtain ⟨r, hr, hst, hp⟩ := h.listing.row child hmem
  obtain ⟨p, hpv, -, hcar, hpar⟩ := h.listing.parent (ne_nil_of_mem hmem)
  have hparent := hpar child hmem
  refine ⟨⟨r, hr, hst, hp⟩, h.child_below hpv hparent, ?_, hst ▸ h.mixed.fits _ r hr⟩
  simpa [listedCarrier, hpt] using hcar.outermost hparent

theorem Inv.skip (hc : child.cascadeSuspendedFrom ≠ some w.target) :
    Inv t D { w with
      visited := child.id :: w.visited
      queue := w.queue ++ [(child.id, childProvenanceAfterRestore child)]
      point := .children carrier children } := by
  obtain ⟨⟨r, hr, hst, hp⟩, habove, -, hfit⟩ := h.next hpt
  have hw : Writable t D child :=
    ⟨⟨r, hr, hp.symm⟩, hfit.of_not_cascaded h.mixed.forest habove hc⟩
  refine (h.visit hpt rfl hw w.result).enqueue rfl h.mixed rfl (fun n hn => hn) fun n r' hr' => ?_
  by_cases hn : n = child.id
  · subst hn
    cases hr.symm.trans hr'
    exact .inl ⟨rfl, hst⟩
  · exact .inr ⟨hn, hr'⟩

theorem Inv.cascade : Inv t D { w with
      visited := child.id :: w.visited
      result := (w.restoreChild carrier child).2
      point := .writeChild carrier (w.restoreChild carrier child).1 children } := by
  obtain ⟨⟨r, hr, -, hp⟩, habove, hout, hfit⟩ := h.next hpt
  have hid := restoreChild_id w carrier child
  have hne : child.id ≠ w.target := fun he => h.mixed.forest.not_above_self _ (he ▸ habove)
  have hparent : (w.restoreChild carrier child).1.parentID = r.parentID := by
    unfold restoreChild
    dsimp only
    split <;> exact hp.symm
  refine h.visit hpt hid ⟨⟨r, by rw [hid, hr], hparent⟩, ?_⟩ _
  rw [hid, restoreChild_standing]
  refine ⟨hfit.direct hne, hout, ?_⟩
  by_cases hs : child.directlySuspended = true ∨ carrier ≠ none <;> simp [hs]

end Child

/-- What the walk writes is suspended or active, and apart from the target it was suspended
before. -/
structure Ready (t : TenantTable) (w : RestoreWalk) : Prop where
  pending : ∀ current, w.pending = some current → current.status ≠ .deleted ∧
    (current.id = w.target ∨ ∃ r, t.find current.id = some r ∧ r.status = .suspended)
  target : w.atTarget = true ∨ ∀ r, t.find w.target = some r → r.status ≠ .deleted

theorem restoreTarget_status (r : TenantData) (h : FitsEither t D T n r.standing) :
    (restoreTarget r).status ≠ .deleted := by
  unfold restoreTarget
  by_cases hc : r.cascadeSuspendedFrom = none
  · simp [hc]
  · have hs : r.status = .suspended := h.status.mpr (.inr hc)
    simp [hc, hs]

theorem restoreChild_status (w : RestoreWalk) (carrier : Option String) (child : TenantData) :
    (w.restoreChild carrier child).1.status ≠ .deleted := by
  have hst := congrArg Standing.status (restoreChild_standing w carrier child)
  simp only [TenantData.standing] at hst
  rw [hst]
  split <;> simp

theorem Ready.write (hready : w.Ready t) (h : w.Inv t D)
    (hp : w.pending = some current) :
    (∀ r, (t.replace current).find w.target = some r → r.status ≠ .deleted) ∧
      Restores w.target t (t.replace current) := by
  have hw := h.prepared current hp
  obtain ⟨halive, hbefore⟩ := hready.pending current hp
  constructor
  · intro r hr
    rcases hw.find_cases hr with ⟨-, he, -⟩ | ⟨hne, hr'⟩
    · rw [show r.status = current.status from congrArg Standing.status he]
      exact halive
    rcases hready.target with hat | htarget
    · exact absurd ((h.at_target hat).2.2 current hp).symm hne
    · exact htarget r hr'
  · refine hw.revises (LapsesSuspension.refl _) fun r hr => ?_
    rcases hbefore with hT | ⟨r₀, hr₀, hs⟩
    · exact .inl hT
    cases hr.symm.trans hr₀
    cases hc : current.status with
    | active => exact .inr (.inr ⟨hs, hc⟩)
    | suspended => exact .inr (.inl (hc.trans hs.symm))
    | deleted => exact absurd hc halive

theorem Inv.step (h : w.Inv t D) :
    (∃ t' w', step t w = (t', .running w') ∧ w'.Inv t' D ∧ w'.target = w.target ∧
        SameParents t t' ∧ (w.Ready t → w'.Ready t' ∧ Restores w.target t t')) ∨
      ∃ result, step t w = (t, .returned (.ok result)) ∧ Settled t D ∧ w.atTarget = false := by
  have hsame : Restores w.target t t := .refl (LapsesSuspension.refl _) t
  have hrefl := SameParents.refl t
  -- past the target, a step that prepares no write stays ready
  have hidle : ∀ {w' : RestoreWalk}, w.atTarget = false → w'.target = w.target →
      w'.pending = none → w.Ready t → w'.Ready t ∧ Restores w.target t t := by
    intro w' hat htarget hnone hready
    refine ⟨⟨fun _ h => by simp [hnone] at h, .inr ?_⟩, hsame⟩
    simpa [hat, htarget] using hready.target
  cases hpt : w.point with
  | get =>
    obtain ⟨r, hr⟩ := Option.ne_none_iff_exists'.mp h.mixed.target
    refine .inl ⟨t, _, ?_, h.get hpt hr, rfl, hrefl, fun _ => ⟨⟨?_, .inl rfl⟩, hsame⟩⟩
    · simp [RestoreWalk.step, hpt, TenantTable.getTenant_eq_ok.mpr hr]
    · rintro _ ⟨⟩
      refine ⟨restoreTarget_status r (h.mixed.fits _ r hr), .inl ?_⟩
      exact (restoreTarget_id r).1.trans (TenantTable.find_id hr)
  | writeTarget existing =>
    have hp : w.pending = some existing := by simp [pending, hpt]
    obtain ⟨hq, -, hT⟩ := h.at_target (by simp [atTarget, hpt])
    have hw := h.prepared existing hp
    have hnil : RestorePoint.children w.listedCarrier w.listed = .children none [] := by
      simp [listed, listedCarrier, hpt]
    have hinv := (h.write hp).children_nil hnil
    refine .inl ⟨_, _, ?_, hinv, rfl, hw.sameParents, fun hready =>
      ⟨⟨?_, .inr (hready.write h hp).1⟩, (hready.write h hp).2⟩⟩
    · simp [RestoreWalk.step, hpt, hw.updateTenant, hq, hT existing hp]
    · rintro _ ⟨⟩
  | pop =>
    cases hq : w.queue with
    | nil =>
      refine .inr ⟨w.result, by simp [RestoreWalk.step, hpt, hq], ?_, by simp [atTarget, hpt]⟩
      refine ⟨h.mixed.forest, h.mixed.marks, fun n r hr =>
        (h.covered n r hr).resolve_right fun hc => ?_⟩
      simp [Covered, whole, queued, hpt, hq] at hc
    | cons e queue =>
      refine .inl ⟨t, _, ?_, h.pop hpt hq, rfl, hrefl, hidle (by simp [atTarget, hpt]) rfl rfl⟩
      simp [RestoreWalk.step, hpt, hq]
  | children carrier children =>
    cases children with
    | nil =>
      refine .inl ⟨t, _, ?_, h.children_nil hpt, rfl, hrefl,
        hidle (by simp [atTarget, hpt]) rfl rfl⟩
      simp [RestoreWalk.step, hpt]
    | cons child children =>
      have hnew : child.id ∉ w.visited :=
        h.listing.unvisited child (by simp [listed, hpt])
      by_cases hc : child.cascadeSuspendedFrom = some w.target
      · refine .inl ⟨t, _, ?_, h.cascade hpt, rfl, hrefl, fun hready => ⟨⟨?_, ?_⟩, hsame⟩⟩
        · simp [RestoreWalk.step, hpt, hnew, hc, restoreChild_id w carrier child]
        · rintro _ ⟨⟩
          obtain ⟨⟨r, hr, hst, -⟩, -, -, hfit⟩ := h.next hpt
          refine ⟨restoreChild_status w carrier child, .inr ⟨r, ?_, ?_⟩⟩
          · rw [restoreChild_id w carrier child, hr]
          · have hs : child.standing.status = .suspended :=
              hfit.status.mpr (.inr (by simp [TenantData.standing, hc]))
            rw [← hst] at hs
            exact hs
        · simpa [atTarget, hpt] using hready.target
      · refine .inl ⟨t, _, ?_, h.skip hpt hc, rfl, hrefl, hidle (by simp [atTarget, hpt]) rfl rfl⟩
        simp [RestoreWalk.step, hpt, hnew, hc]
  | writeChild carrier child children =>
    have hp : w.pending = some child := by simp [pending, hpt]
    have hw := h.prepared child hp
    refine .inl ⟨_, _, ?_, h.write hp, rfl, hw.sameParents, fun hready =>
      ⟨⟨?_, .inr (hready.write h hp).1⟩, (hready.write h hp).2⟩⟩
    · simp [RestoreWalk.step, hpt, hw.updateTenant, listed, listedCarrier]
    · rintro _ ⟨⟩

def From (t₀ : TenantTable) (D : String → Prop) (T : String) (t : TenantTable)
    (w : RestoreWalk) : Prop :=
  w.Inv t D ∧ w.target = T ∧ w.Ready t ∧ Restores T t₀ t

/-- The walk is over and its target has not been left deleted. -/
structure Finished (t₀ : TenantTable) (D : String → Prop) (T : String) (t : TenantTable) :
    Prop where
  settled : Settled t D
  mixed : Mixed t D T
  restores : Restores T t₀ t
  target : ∀ r, t.find T = some r → r.status ≠ .deleted

theorem From.proceeds {t₀ : TenantTable} (t : TenantTable) (w : RestoreWalk)
    (h : From t₀ D T t w) :
    Proceeds step (From t₀ D T) (fun t result => (∃ r, result = .ok r) ∧ Finished t₀ D T t)
      t w := by
  obtain ⟨hinv, rfl, hready, hs⟩ := h
  rcases hinv.step with ⟨t', w', hstep, hinv', hT, -, he⟩ | ⟨result, hstep, hset, hat⟩
  · obtain ⟨hready', hres⟩ := he hready
    exact .inl ⟨t', w', hstep, ⟨hinv', hT, hready', hs.trans (LapsesSuspension.trans _) hres⟩⟩
  · refine .inr ⟨t, .ok result, hstep, ⟨result, rfl⟩, hset, hinv.mixed, hs, ?_⟩
    exact hready.target.resolve_left (by simp [hat])

theorem From.mixed {t₀ : TenantTable} (h : From t₀ D T t w) :
    Mixed t D T ∧ Restores T t₀ t := by
  obtain ⟨hinv, rfl, -, hs⟩ := h
  exact ⟨hinv.mixed, hs⟩

theorem From.start (h : Mixed t D T) : From t D T t (RestoreWalk.start T) := by
  refine ⟨Inv.start h, rfl, ⟨?_, .inl rfl⟩, .refl (LapsesSuspension.refl T) t⟩
  rintro _ ⟨⟩

theorem runWalk_mixed (h : Mixed t D T) (fuel : ℕ) :
    Mixed (runWalk step fuel t (start T)).1 D T ∧
      Restores T t (runWalk step fuel t (start T)).1 :=
  runWalk_state (P := fun t' => Mixed t' D T ∧ Restores T t t') From.proceeds
    (fun _ _ => From.mixed) (fun _ _ hf => ⟨hf.2.mixed, hf.2.restores⟩) fuel t _ (From.start h)

end RestoreWalk

theorem restoreTenant_of_mixed (h : Mixed t D T) :
    ∃ t' result, restoreTenant t T = (t', .returned (.ok result)) ∧
      RestoreWalk.Finished t D T t' := by
  obtain ⟨t', result, hrun⟩ := restoreTenant_returns t T
  obtain ⟨⟨r, rfl⟩, hfin⟩ :=
    runWalk_result RestoreWalk.From.proceeds _ t _ (RestoreWalk.From.start h) _ _ hrun
  exact ⟨t', r, hrun, hfin⟩

end Cfgms.Tenant
