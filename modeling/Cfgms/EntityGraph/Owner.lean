import Cfgms.EntityGraph.Assertions
import Mathlib.Data.List.Chain

/-! # Owners

A directory or M365 subject that has an owner is written by the owner only. The check compares the
writer's tenant with the owner in the index, which is the attribute `owning_tenant` of the winning
source. The two agree as long as every observation that gets through names the owner there.
-/

namespace Cfgms.EntityGraph

open Ordered Fallible List Table EntityGraph.Graph

def claimedTenant (payload : Option Payload) : String := extractString payload "owning_tenant"

/-- The kinds that the owner check looks at, or that do not write a row. -/
def checkedKind : ObservationKind → Bool
  | .desiredState | .other _ => false
  | _ => true

/-- The observation is of a checked kind, and a state or presence names the owner, or some tenant
where there is no owner. -/
def NamesOwner (g : Graph) (obs : Observation) : Prop :=
  checkedKind obs.kind ∧ (ownerImmutableKind obs.kind → claimedTenant obs.payload ≠ "" ∧
    (g.owner obs.subject ≠ "" → claimedTenant obs.payload = g.owner obs.subject))

/-- An observation of the subject that gets through names the owner. -/
def Proper (x : String) (e : Entry) : Prop :=
  match e.arrival with
  | .observed obs t =>
    obs.subject = x → e.before.ownerRejected obs t = false → e.before.isRepeated obs = false →
      NamesOwner e.before obs
  | .retracted _ _ _ _ => True

/-- The owner stays from one state to the next, as long as some source asserts the subject. -/
def KeepsOwner (x : String) (g g' : Graph) : Prop :=
  g.owner x ≠ "" → g'.Asserted x → g'.owner x = g.owner x

structure Agreed (x : String) (g : Graph) : Prop where
  counted : ∀ r ∈ g.current.rows, r.subject = x → r.kind ≠ .desiredState ∧ r.payload ∈ g.contents
  claimed : ∀ r ∈ g.current.rows, r.subject = x → claimedTenant r.payload = g.owner x
  owned : g.Asserted x → g.owner x ≠ ""

structure Untouched (x : String) (g g' : Graph) : Prop where
  owner : g'.owner x = g.owner x
  rows : ∀ r, r.subject = x → (r ∈ g'.current.rows ↔ r ∈ g.current.rows)
  contents : g.contents ⊆ g'.contents

namespace Untouched

variable {x y : String} {g g' g'' : Graph}

theorem refl (g : Graph) : Untouched x g g := ⟨rfl, fun _ _ => Iff.rfl, List.Subset.refl _⟩

section

variable (h : Untouched x g g')
include h

theorem trans (h' : Untouched x g' g'') : Untouched x g g'' where
  owner := h'.owner.trans h.owner
  rows r hr := (h'.rows r hr).trans (h.rows r hr)
  contents := List.Subset.trans h.contents h'.contents

omit h in
theorem of_eq (hindex : g'.index = g.index) (hcurrent : g'.current = g.current)
    (hcontents : g'.contents = g.contents) : Untouched x g g' where
  owner := by rw [Graph.owner, hindex, Graph.owner]
  rows r _ := by rw [hcurrent]
  contents := hcontents ▸ List.Subset.refl _

theorem asserted_iff : g'.Asserted x ↔ g.Asserted x :=
  exists_congr fun r => and_congr_left (h.rows r)

theorem agreed (hg : Agreed x g) : Agreed x g' where
  counted r hr hx := by
    obtain ⟨hkind, hpayload⟩ := hg.counted r ((h.rows r hx).mp hr) hx
    exact ⟨hkind, h.contents hpayload⟩
  claimed r hr hx := h.owner ▸ hg.claimed r ((h.rows r hx).mp hr) hx
  owned hasserted := h.owner ▸ hg.owned (h.asserted_iff.mp hasserted)

theorem keepsOwner : KeepsOwner x g g' := fun _ _ => h.owner

end

variable (payload : Option Payload)

theorem insertPayload : Untouched x g (g.insertPayload payload) := by
  unfold Graph.insertPayload
  split
  · exact refl g
  · exact ⟨rfl, fun _ _ => Iff.rfl, subset_append_left _ _⟩

variable (row : ObservationRow)

theorem appendLog : Untouched x g (g.appendLog row) := of_eq rfl rfl rfl

theorem logged : Untouched x g ((g.insertPayload payload).appendLog row) :=
  (insertPayload payload).trans (appendLog row)

theorem materializePlaceholderNode (y : String) : Untouched x g (g.materializePlaceholderNode y) := by
  unfold Graph.materializePlaceholderNode
  split
  · exact refl g
  split
  · exact refl g
  next hnone =>
  refine ⟨?_, fun _ _ => Iff.rfl, List.Subset.refl _⟩
  rw [Graph.owner, Graph.owner, get_store]
  split
  · next heq =>
    obtain rfl : y = x := heq
    simp [hnone]
  · rfl

theorem rebuildEntityIndex (hne : y ≠ x) : Untouched x g (g.rebuildEntityIndex y) := by
  unfold Graph.rebuildEntityIndex
  split
  · refine ⟨?_, fun _ _ => Iff.rfl, List.Subset.refl _⟩
    rw [Graph.owner, Graph.owner, get_erase_of_ne hne]
  · refine ⟨?_, fun _ _ => Iff.rfl, List.Subset.refl _⟩
    rw [Graph.owner, Graph.owner, get_store, if_neg hne]

theorem retractEntityProjection (hne : y ≠ x) (source : String) :
    Untouched x g (g.retractEntityProjection y source) := by
  refine Untouched.trans ?_ (rebuildEntityIndex hne)
  refine ⟨rfl, fun r hr => ?_, List.Subset.refl _⟩
  rw [mem_erase]
  apply and_iff_left
  rintro hkey
  exact hne ((congrArg Prod.fst hkey).symm.trans hr)

variable {obs : Observation}

theorem upsertCurrent (hne : obs.subject ≠ x) (n : ℕ) : Untouched x g (g.upsertCurrent obs n) := by
  refine ⟨rfl, fun r hr => ?_, List.Subset.refl _⟩
  rw [Graph.upsertCurrent, mem_store_iff]
  constructor
  · rintro (rfl | ⟨hold, -⟩)
    · exact absurd hr hne
    · exact hold
  · intro hold
    refine .inr ⟨hold, fun hkey => hne ?_⟩
    exact (congrArg Prod.fst hkey).symm.trans hr

theorem updateEntityProjection (hne : obs.subject ≠ x) (n : ℕ) :
    Untouched x g (g.updateEntityProjection obs n) := by
  unfold Graph.updateEntityProjection
  split
  case h_1 => exact of_eq rfl rfl rfl
  case h_2 =>
    unfold Graph.applyLifecycleTransitionFromObs
    split
    · exact refl g
    · exact of_eq rfl rfl rfl
  case h_3 => exact refl g
  case h_4 => exact retractEntityProjection hne obs.source
  case h_5 => exact upsertCurrent hne n
  case h_6 => exact (upsertCurrent hne n).trans (rebuildEntityIndex hne)

theorem deleteEdge (parts : String × String × String) (source : String) :
    Untouched x g (g.deleteEdge parts source) :=
  of_eq rfl rfl rfl

theorem updateEdgeProjection {n : ℕ}
    (hrun : g.updateEdgeProjection obs n = .ok g') : Untouched x g g' := by
  revert hrun
  fun_cases Graph.updateEdgeProjection g obs n <;> rintro ⟨⟩
  · exact refl g
  · exact deleteEdge _ _
  · refine Untouched.trans ?_ (materializePlaceholderNode _)
    refine Untouched.trans ?_ (materializePlaceholderNode _)
    exact of_eq rfl rfl rfl

end Untouched

section Steps

variable {x : String} {g g' : Graph}

section

variable (hcounted : ∀ r ∈ g.current.rows, r.subject = x →
  r.kind ≠ .desiredState ∧ r.payload ∈ g.contents)
include hcounted

theorem owner_rebuildEntityIndex {tenant : String}
    (hclaimed : ∀ r ∈ g.current.rows, r.subject = x → claimedTenant r.payload = tenant)
    (hasserted : g.Asserted x) : (g.rebuildEntityIndex x).owner x = tenant := by
  have hentry : ∀ e ∈ g.indexEntries x, claimedTenant e.payload = tenant := by
    intro e he
    obtain ⟨r, hr, rfl⟩ := mem_map.mp he
    obtain ⟨hmem, hr⟩ := mem_filter.mp hr
    exact hclaimed r hmem (by simp at hr; exact hr.1.1)
  unfold Graph.rebuildEntityIndex
  split
  · next hnone =>
    obtain ⟨r, hr, hx⟩ := hasserted
    obtain ⟨hkind, hpayload⟩ := hcounted r hr hx
    have hmem : r ∈ g.current.rows.filter fun r =>
        r.subject = x && r.kind ≠ .desiredState && r.payload ∈ g.contents :=
      mem_filter.mpr ⟨hr, by simp [hx, hkind, hpayload]⟩
    rw [map_eq_nil_iff.mp hnone] at hmem
    cases hmem
  · next first rest hentries =>
    rw [Graph.owner, get_store, if_pos rfl]
    exact hentry _ (hentries ▸ winningBy_mem id first rest)

theorem agreed_rebuildEntityIndex {tenant : String}
    (hclaimed : ∀ r ∈ g.current.rows, r.subject = x → claimedTenant r.payload = tenant)
    (htenant : tenant ≠ "") : Agreed x (g.rebuildEntityIndex x) := by
  have howner := owner_rebuildEntityIndex hcounted hclaimed
  have hcontents : (g.rebuildEntityIndex x).contents = g.contents := by
    unfold Graph.rebuildEntityIndex
    split <;> rfl
  constructor
  · intro r hr hx
    rw [rebuildEntityIndex_current] at hr
    exact hcontents ▸ hcounted r hr hx
  · intro r hr hx
    rw [rebuildEntityIndex_current] at hr
    rw [hclaimed r hr hx, howner ⟨r, hr, hx⟩]
  · rintro ⟨r, hr, hx⟩
    rw [rebuildEntityIndex_current] at hr
    rw [howner ⟨r, hr, hx⟩]
    exact htenant

end

variable (hg : Agreed x g)
include hg

theorem retract_keeps (source : String) : Agreed x (g.retractEntityProjection x source) ∧
      KeepsOwner x g (g.retractEntityProjection x source) := by
  have hsub : ∀ r ∈ (g.current.erase (x, source)).rows, r ∈ g.current.rows :=
    fun r hr => (mem_erase.mp hr).1
  set g₁ : Graph := { g with current := g.current.erase (x, source) }
  have hcounted : ∀ r ∈ g₁.current.rows, r.subject = x →
      r.kind ≠ .desiredState ∧ r.payload ∈ g₁.contents := fun r hr => hg.counted r (hsub r hr)
  have hclaimed : ∀ r ∈ g₁.current.rows, r.subject = x → claimedTenant r.payload = g.owner x :=
    fun r hr => hg.claimed r (hsub r hr)
  by_cases hasserted : g₁.Asserted x
  · obtain ⟨r, hr, hx⟩ := hasserted
    have howned := hg.owned ⟨r, hsub r hr, hx⟩
    exact ⟨agreed_rebuildEntityIndex hcounted hclaimed howned, fun _ _ =>
      owner_rebuildEntityIndex hcounted hclaimed ⟨r, hr, hx⟩⟩
  · have hnone : ¬ (g₁.rebuildEntityIndex x).Asserted x := by
      rintro ⟨r, hr, hx⟩
      exact hasserted ⟨r, rebuildEntityIndex_current (g := g₁) x ▸ hr, hx⟩
    refine ⟨⟨?_, ?_, fun h => absurd h hnone⟩, fun _ h => absurd h hnone⟩
    all_goals exact fun r hr hx => absurd ⟨r, hr, hx⟩ hnone

variable {obs : Observation} {n : ℕ}

/-- A state or presence that names the owner, or any tenant where there is no owner. -/
theorem upsert_keeps (hx : obs.subject = x)
    (hpayload : obs.payload ∈ g.contents) (hkind : obs.kind ≠ .desiredState)
    (hclaim : claimedTenant obs.payload ≠ "")
    (hsame : g.owner x ≠ "" → claimedTenant obs.payload = g.owner x) :
    Agreed x ((g.upsertCurrent obs n).rebuildEntityIndex x) ∧
      KeepsOwner x g ((g.upsertCurrent obs n).rebuildEntityIndex x) := by
  set g₁ := g.upsertCurrent obs n
  have hrow : ∀ r ∈ g₁.current.rows,
      (r.kind = obs.kind ∧ r.payload = obs.payload) ∨ r ∈ g.current.rows := by
    intro r hr
    rcases mem_store_iff.mp hr with rfl | ⟨hold, -⟩
    · exact .inl ⟨rfl, rfl⟩
    · exact .inr hold
  have hcounted : ∀ r ∈ g₁.current.rows, r.subject = x →
      r.kind ≠ .desiredState ∧ r.payload ∈ g₁.contents := by
    intro r hr hrx
    rcases hrow r hr with ⟨hk, hp⟩ | hold
    · exact ⟨hk ▸ hkind, hp ▸ hpayload⟩
    · exact hg.counted r hold hrx
  have hclaimed : ∀ r ∈ g₁.current.rows, r.subject = x →
      claimedTenant r.payload = claimedTenant obs.payload := by
    intro r hr hrx
    rcases hrow r hr with ⟨-, hp⟩ | hold
    · rw [hp]
    · rw [hg.claimed r hold hrx, hsame (hg.owned ⟨r, hold, hrx⟩)]
  have hasserted : g₁.Asserted x := ⟨_, mem_store_iff.mpr (.inl rfl), hx⟩
  refine ⟨agreed_rebuildEntityIndex hcounted hclaimed hclaim, fun howner _ => ?_⟩
  rw [owner_rebuildEntityIndex hcounted hclaimed hasserted]
  exact hsame howner

theorem projection_keeps
    (hpayload : obs.payload ∈ g.contents) (hnames : obs.subject = x → NamesOwner g obs) :
    Agreed x (g.updateEntityProjection obs n) ∧ KeepsOwner x g (g.updateEntityProjection obs n) := by
  have hkeep : ∀ {g'}, Untouched x g g' → Agreed x g' ∧ KeepsOwner x g g' :=
    fun h => ⟨h.agreed hg, h.keepsOwner⟩
  by_cases hx : obs.subject = x
  · subst hx
    obtain ⟨hchecked, htenant⟩ := hnames rfl
    unfold Graph.updateEntityProjection
    cases hkind : obs.kind <;> simp only [hkind, checkedKind, Bool.false_eq_true] at hchecked ⊢
    case state | presence =>
      obtain ⟨hclaim, hsame⟩ := htenant (by simp [hkind, ownerImmutableKind])
      exact upsert_keeps hg rfl hpayload (by simp [hkind]) hclaim hsame
    case absence => exact retract_keeps hg obs.source
    case driftDiff => exact hkeep (.of_eq rfl rfl rfl)
    case lifecycle =>
      unfold Graph.applyLifecycleTransitionFromObs
      split
      · exact hkeep (.refl g)
      · exact hkeep (.of_eq rfl rfl rfl)
    case applyOutcome => exact hkeep (.refl g)
  · exact hkeep (.updateEntityProjection hx n)

omit hg in
theorem KeepsOwner.after {g₁ : Graph} (h : Untouched x g g₁) (hkeep : KeepsOwner x g₁ g') :
    KeepsOwner x g g' := by
  intro howner hasserted
  rw [hkeep (h.owner ▸ howner) hasserted, h.owner]

theorem ingest_keeps {t : String}
    (hproper : Proper x ⟨g, .observed obs t⟩) (hstep : g.ingest obs t = .ok g') :
    Agreed x g' ∧ KeepsOwner x g g' := by
  rcases ingest_cases hstep with ⟨-, rfl⟩ | ⟨-, rfl⟩ | ⟨⟨hpass, hnew⟩, hrun⟩
  · exact ⟨hg, fun _ _ => rfl⟩
  · exact ⟨hg, fun _ _ => rfl⟩
  have hlogged : Untouched x g ((g.insertPayload obs.payload).appendLog (Graph.logRowOf obs)) :=
    .logged obs.payload _
  rw [Graph.dispatchProjectionUpdate] at hrun
  split at hrun
  · rw [← Except.ok.inj hrun]
    have hstep := projection_keeps (n := g.nextID) (hlogged.agreed hg)
      mem_insertPayload fun hx => by
        have hnames : NamesOwner g obs := hproper hx hpass hnew
        rw [NamesOwner] at hnames ⊢
        rwa [hx, hlogged.owner, ← hx]
    exact ⟨hstep.1, hstep.2.after hlogged⟩
  · have h := hlogged.trans (.updateEdgeProjection hrun)
    exact ⟨h.agreed hg, h.keepsOwner⟩

theorem retractSubject_keeps {pattern : ClaimScopePattern} {source subject : String} {asOf : ℤ}
    (hstep : g.retractSubject pattern source asOf subject = .ok g') :
    Agreed x g' ∧ KeepsOwner x g g' := by
  have hlogged : Untouched x g (g.appendAbsenceLog subject source asOf) := .logged _ _
  unfold Graph.retractSubject at hstep
  split at hstep
  · rw [← Except.ok.inj hstep]
    by_cases hx : subject = x
    · subst hx
      obtain ⟨hagreed, hkeep⟩ := retract_keeps (hlogged.agreed hg) source
      exact ⟨hagreed, hkeep.after hlogged⟩
    · have h := hlogged.trans (.retractEntityProjection hx source)
      exact ⟨h.agreed hg, h.keepsOwner⟩
  · split at hstep
    · next parts _ =>
      rw [← Except.ok.inj hstep]
      have h := hlogged.trans (.deleteEdge parts source)
      exact ⟨h.agreed hg, h.keepsOwner⟩
    · cases hstep

theorem receive_keeps {a : Arrival} (hproper : Proper x ⟨g, a⟩)
    (hstep : g.receive a = .ok g') : Agreed x g' ∧ KeepsOwner x g g' := by
  cases a with
  | observed obs t => exact ingest_keeps hg hproper hstep
  | retracted pattern source asOf subject => exact retractSubject_keeps hg hstep

end Steps

/-- The stores that a run passes: before every arrival, and at the end. -/
def statesOf (rs : List Report) : List Graph := (entriesOf rs).map Entry.before ++ [graphAfter rs]

theorem isChain_keepsOwner (rs : List Report) {x : String}
    (hproper : ∀ e ∈ entriesOf rs, Proper x e) : (statesOf rs).IsChain (KeepsOwner x) := by
  suffices h : Agreed x (graphAfter rs) ∧ (statesOf rs).IsChain (KeepsOwner x) from h.2
  refine store_rule (P := fun g es => (∀ e ∈ es, Proper x e) →
    Agreed x g ∧ (es.map Entry.before ++ [g]).IsChain (KeepsOwner x)) ?_ ?_ ?_ rs hproper
  · intro g es a g' ih hstep hproper
    rw [forall_mem_append, forall_mem_singleton] at hproper
    obtain ⟨hagreed, hchain⟩ := ih hproper.1
    obtain ⟨hagreed', hkeep⟩ := receive_keeps hagreed hproper.2 hstep
    refine ⟨hagreed', ?_⟩
    rw [map_append, map_singleton, isChain_append]
    exact ⟨hchain, isChain_singleton g', by simpa using hkeep⟩
  · intro g es row ih hproper
    obtain ⟨hagreed, hchain⟩ := ih hproper
    refine ⟨{ hagreed with }, ?_⟩
    rw [isChain_append] at hchain ⊢
    refine ⟨hchain.1, isChain_singleton _, fun h hlast g₁ hfirst => ?_⟩
    cases hfirst
    exact hchain.2.2 h hlast g rfl
  · exact fun _ => ⟨⟨by simp [Graph.empty, Table.empty], by simp [Graph.empty, Table.empty],
      by simp [Graph.empty, Table.empty, Graph.Asserted]⟩, isChain_singleton _⟩

/-- Where every observation of the subject that gets through names the owner, an owner stays as
long as some source asserts the subject. -/
theorem owner_kept (rs : List Report) {x : String} (hproper : ∀ e ∈ entriesOf rs, Proper x e)
    {i j : ℕ} {g g' : Graph} (hij : i ≤ j) (hi : (statesOf rs)[i]? = some g)
    (hj : (statesOf rs)[j]? = some g') (howner : g.owner x ≠ "")
    (hasserted : ∀ k, i < k → k ≤ j → ∀ h, (statesOf rs)[k]? = some h → h.Asserted x) :
    g'.owner x = g.owner x := by
  have hchain := isChain_keepsOwner rs hproper
  induction j, hij using Nat.le_induction generalizing g' with
  | base => rw [Option.some.inj (hi.symm.trans hj)]
  | succ j hij ih =>
    obtain ⟨hlt, rfl⟩ := List.getElem?_eq_some_iff.mp hj
    have hj' := getElem?_eq_getElem (l := statesOf rs) (i := j) (by omega)
    have hbefore := ih hj' fun k hik hkj => hasserted k hik (by omega)
    have hstep := hchain.getElem j hlt
    rw [← hbefore]
    exact hstep (hbefore ▸ howner) (hasserted (j + 1) (by omega) le_rfl _ hj)

instance (x : String) (g : Graph) : Decidable (g.Asserted x) :=
  inferInstanceAs (Decidable (∃ r ∈ g.current.rows, r.subject = x))

instance (g : Graph) (obs : Observation) : Decidable (NamesOwner g obs) :=
  inferInstanceAs (Decidable (_ ∧ (_ → _ ∧ (_ → _))))

instance (x : String) : (e : Entry) → Decidable (Proper x e)
  | ⟨g, .observed obs _⟩ => inferInstanceAs (Decidable (_ → _ → _ → NamesOwner g obs))
  | ⟨_, .retracted _ _ _ _⟩ => inferInstanceAs (Decidable True)

/-- States of one directory group, by a source, with the attributes that name tenants. -/
def groupReports (obs : List (String × List (String × String))) : List Report :=
  obs.map fun o => ⟨none, 0, ⟨o.1, [⟨"", 0, 0, "directory:ad/g", .state, "high",
    some (.ofList (o.2.map fun e => (e.1, .string e.2)))⟩], [], ""⟩⟩

/-- The tenant `t` has the group, then another tenant writes it, and then one without a name. -/
def contestedGroup : List Report :=
  groupReports [("observer:a", [("owning_tenant", "t")]),
    ("enforcing-module:b", [("owning_tenant", "u")]), ("enforcing-module:c", [])]

theorem owner_kept_group : (graphAfter contestedGroup).owner "directory:ad/g" = "t" := by
  set rs := contestedGroup
  have hlast : (statesOf rs)[3]? = some (graphAfter rs) := by rfl
  have hfirst : ((statesOf rs)[1]?).map (fun g => g.owner "directory:ad/g") = some "t" := by decide
  obtain ⟨g, hg, howner⟩ := Option.map_eq_some_iff.mp hfirst
  rw [← howner]
  apply owner_kept rs (i := 1) (j := 3) (by decide) (by decide) hg hlast (by simp [howner])
  intro k hlow hhigh h hk
  have hall : ∀ k ∈ [2, 3], ((statesOf rs)[k]?).all fun g => decide (g.Asserted "directory:ad/g") := by
    decide
  have hmem : k ∈ [2, 3] := by
    simp only [mem_cons, not_mem_nil, or_false]
    omega
  simpa [hk] using hall k hmem

/-- The owner check reads `tenant_path` where both attributes are there, and the index takes
`owning_tenant`. -/
theorem owner_diverted : ((statesOf (groupReports [("observer:a", [("owning_tenant", "t")]),
      ("observer:a", [("owning_tenant", "u"), ("tenant_path", "t")])])).map fun g =>
        (g.owner "directory:ad/g", decide (g.Asserted "directory:ad/g"))) =
      [("", false), ("t", true), ("u", true)] := by
  decide

end Cfgms.EntityGraph
