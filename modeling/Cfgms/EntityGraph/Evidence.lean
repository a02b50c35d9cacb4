import Cfgms.EntityGraph.Ingest
import Cfgms.EntityGraph.Retention

/-! # Evidence

The rows of the projections refer to the log rows that they were made from. A sweep keeps these
exactly if no subject whose last row is an old absence is still current in another way, and no
edge is older than the history, since an edge is pinned under another text than its subject.
-/

namespace Cfgms.EntityGraph

open Ordered Fallible Table EntityGraph.Graph

/-- A projection row refers to a log row of its subject, if that is there. -/
structure Linked (g : Graph) : Prop where
  nextID : 0 < g.nextID
  log : ∀ r ∈ g.log.rows, r.id < g.nextID ∧ r.payload ∈ g.contents
  current : ∀ c ∈ g.current.rows, isEntity c.subject ∧ c.logSeq < g.nextID
  currentRow : ∀ c ∈ g.current.rows, ∀ r ∈ g.log.rows, r.id = c.logSeq →
    r.subject = c.subject ∧ r.payload = c.payload
  edges : ∀ e ∈ g.edges.rows, 0 < e.logSeq ∧ e.logSeq < g.nextID
  edgeRow : ∀ e ∈ g.edges.rows, ∀ r ∈ g.log.rows, r.id = e.logSeq →
    isEntity r.subject = false ∧ r.payload = e.payload
  edgeUnique : ∀ e ∈ g.edges.rows, ∀ e' ∈ g.edges.rows, e.logSeq = e'.logSeq → e = e'
  drift : ∀ d ∈ g.drift.rows, isEntity d.subject

/-- The log rows that the projections refer to are there. -/
structure Present (g : Graph) : Prop where
  current : ∀ c ∈ g.current.rows, ∃ r ∈ g.log.rows, r.id = c.logSeq
  edges : ∀ e ∈ g.edges.rows, ∃ r ∈ g.log.rows, r.id = e.logSeq

variable {g g' : Graph}

theorem Linked.of_subset (h : Linked g) (hnext : g'.nextID = g.nextID)
    (hlog : g'.log.rows ⊆ g.log.rows) (hcontents : ∀ r ∈ g'.log.rows, r.payload ∈ g'.contents)
    (hcurrent : g'.current.rows ⊆ g.current.rows) (hedges : g'.edges.rows ⊆ g.edges.rows)
    (hdrift : ∀ d ∈ g'.drift.rows, isEntity d.subject) : Linked g' where
  nextID := hnext ▸ h.nextID
  log r hr := ⟨hnext ▸ (h.log r (hlog hr)).1, hcontents r hr⟩
  current c hc := hnext ▸ h.current c (hcurrent hc)
  currentRow c hc r hr := h.currentRow c (hcurrent hc) r (hlog hr)
  edges e he := hnext ▸ h.edges e (hedges he)
  edgeRow e he r hr := h.edgeRow e (hedges he) r (hlog hr)
  edgeUnique e he e' he' := h.edgeUnique e (hedges he) e' (hedges he')
  drift := hdrift

/-- The log row with the last id is that of the observation, and no projection refers to it yet. -/
structure Fresh (g : Graph) (obs : Observation) (n : ℕ) : Prop where
  pos : 0 < n
  next : n < g.nextID
  row : ∃ r ∈ g.log.rows, r.id = n
  rows : ∀ r ∈ g.log.rows, r.id = n → r.subject = obs.subject ∧ r.payload = obs.payload
  current : ∀ c ∈ g.current.rows, c.logSeq < n
  edges : ∀ e ∈ g.edges.rows, e.logSeq < n

namespace Graph

variable (g : Graph) (obs : Observation)

/-- The store with the payload and the log row of an observation. -/
def logged : Graph := (g.insertPayload obs.payload).appendLog (logRowOf obs)

theorem logged_spec : (g.logged obs).current = g.current ∧ (g.logged obs).edges = g.edges ∧
    (g.logged obs).nextID = g.nextID + 1 :=
  ⟨by simp [logged], insertPayload_edges, congrArg (· + 1) insertPayload_nextID⟩

variable {g obs}

theorem mem_logged (hnew : ∀ r ∈ g.log.rows, r.id < g.nextID) (obs : Observation)
    (r : ObservationRow) :
    r ∈ (g.logged obs).log.rows ↔ r ∈ g.log.rows ∨ r = { logRowOf obs with id := g.nextID } := by
  have hfresh : ∀ q ∈ g.log.rows, q.id ≠ g.nextID := fun q hq => (hnew q hq).ne
  simp only [logged, appendLog, insertPayload_log, insertPayload_nextID, mem_store_iff]
  constructor
  · rintro (h | ⟨h, -⟩)
    · exact .inr h
    · exact .inl h
  · rintro (h | h)
    · exact .inr ⟨h, hfresh r h⟩
    · exact .inl h

end Graph

namespace Linked

variable {g : Graph} {obs : Observation}
variable (h : Linked g)
include h

theorem logged (obs : Observation) : Linked (g.logged obs) := by
  have hmem := mem_logged (fun r hr => (h.log r hr).1) obs
  obtain ⟨hcurrent, hedges, hnext⟩ := g.logged_spec obs
  constructor
  · omega
  · intro r hr
    rcases (hmem r).mp hr with hr | rfl
    · have := (h.log r hr).1
      exact ⟨by omega, subset_insertPayload (h.log r hr).2⟩
    · exact ⟨by simp [hnext], mem_insertPayload⟩
  · intro c hc
    rw [hcurrent] at hc
    have := (h.current c hc).2
    exact ⟨(h.current c hc).1, by omega⟩
  · intro c hc r hr hid
    rw [hcurrent] at hc
    rcases (hmem r).mp hr with hr | rfl
    · exact h.currentRow c hc r hr hid
    · exact absurd hid (h.current c hc).2.ne'
  · intro e he
    rw [hedges] at he
    have := (h.edges e he).2
    exact ⟨(h.edges e he).1, by omega⟩
  · intro e he r hr hid
    rw [hedges] at he
    rcases (hmem r).mp hr with hr | rfl
    · exact h.edgeRow e he r hr hid
    · exact absurd hid (h.edges e he).2.ne'
  · exact hedges ▸ h.edgeUnique
  · exact fun d hd => h.drift d (insertPayload_drift ▸ hd)

theorem fresh (obs : Observation) : Fresh (g.logged obs) obs g.nextID := by
  have hmem := mem_logged (fun r hr => (h.log r hr).1) obs
  obtain ⟨hcurrent, hedges, hnext⟩ := g.logged_spec obs
  constructor
  · exact h.nextID
  · omega
  · exact ⟨_, (hmem _).mpr (.inr rfl), rfl⟩
  · intro r hr hid
    rcases (hmem r).mp hr with hr | rfl
    · exact absurd hid (h.log r hr).1.ne
    · exact ⟨rfl, rfl⟩
  · exact fun c hc => (h.current c (hcurrent ▸ hc)).2
  · exact fun e he => (h.edges e (hedges ▸ he)).2

theorem shrink {g' : Graph} (hnext : g'.nextID = g.nextID)
    (hlog : g'.log = g.log) (hcontents : g'.contents = g.contents)
    (hcurrent : g'.current.rows ⊆ g.current.rows) (hedges : g'.edges.rows ⊆ g.edges.rows)
    (hdrift : g'.drift = g.drift) : Linked g' :=
  h.of_subset hnext (hlog ▸ List.Subset.refl _)
    (fun r hr => hcontents ▸ (h.log r (hlog ▸ hr)).2) hcurrent hedges
    fun d hd => h.drift d (hdrift ▸ hd)

theorem rebuildEntityIndex (x : String) : Linked (g.rebuildEntityIndex x) := by
  unfold Graph.rebuildEntityIndex
  split <;>
    exact h.shrink rfl rfl rfl (List.Subset.refl _) (List.Subset.refl _) rfl

theorem materializePlaceholderNode (x : String) : Linked (g.materializePlaceholderNode x) := by
  unfold Graph.materializePlaceholderNode
  split
  · exact h
  split
  · exact h
  · exact h.shrink rfl rfl rfl (List.Subset.refl _) (List.Subset.refl _) rfl

theorem retractEntityProjection (x source : String) :
    Linked (g.retractEntityProjection x source) := by
  have herased : Linked { g with current := g.current.erase (x, source) } :=
    h.shrink rfl rfl rfl (fun _ hr => (mem_erase.mp hr).1) (List.Subset.refl _) rfl
  exact herased.rebuildEntityIndex x

theorem deleteEdge (parts : String × String × String) (source : String) :
    Linked (g.deleteEdge parts source) :=
  h.shrink rfl rfl rfl (List.Subset.refl _) (fun _ hr => (mem_erase.mp hr).1) rfl

variable {n : ℕ}
variable (hf : Fresh g obs n)
include hf

theorem upsertCurrent (hx : isEntity obs.subject) : Linked (g.upsertCurrent obs n) :=
  { h with
    current c hc := by
      rcases mem_store hc with rfl | hc
      · exact ⟨hx, hf.next⟩
      · exact h.current c hc
    currentRow c hc r hr hid := by
      rcases mem_store hc with rfl | hc
      · exact hf.rows r hr hid
      · exact h.currentRow c hc r hr hid }

theorem storeEdge {e : EdgeRow}
    (hx : isEntity obs.subject = false) (hseq : e.logSeq = n) (hpayload : e.payload = obs.payload) :
    Linked { g with edges := g.edges.store e } where
  nextID := h.nextID
  log := h.log
  current := h.current
  currentRow := h.currentRow
  edges e' he' := by
    rcases mem_store he' with rfl | he'
    · exact ⟨hseq ▸ hf.pos, hseq ▸ hf.next⟩
    · exact h.edges e' he'
  edgeRow e' he' r hr hid := by
    rcases mem_store he' with rfl | he'
    · obtain ⟨hsubject, hrow⟩ := hf.rows r hr (hid.trans hseq)
      exact ⟨hsubject ▸ hx, hrow.trans hpayload.symm⟩
    · exact h.edgeRow e' he' r hr hid
  edgeUnique e₁ he₁ e₂ he₂ heq := by
    have hlt : ∀ e' ∈ g.edges.rows, e'.logSeq ≠ e.logSeq :=
      fun e' he' => hseq ▸ (hf.edges e' he').ne
    rcases mem_store he₁ with h₁ | h₁
    · rcases mem_store he₂ with h₂ | h₂
      · exact h₁.trans h₂.symm
      · exact absurd (h₁ ▸ heq).symm (hlt e₂ h₂)
    · rcases mem_store he₂ with h₂ | h₂
      · exact absurd (h₂ ▸ heq) (hlt e₁ h₁)
      · exact h.edgeUnique e₁ h₁ e₂ h₂ heq
  drift := h.drift

omit hf in
theorem storeDrift {d : DriftRow} (hd : isEntity d.subject) :
    Linked { g with drift := g.drift.store d } :=
  h.of_subset rfl (List.Subset.refl _) (fun r hr => (h.log r hr).2) (List.Subset.refl _)
    (List.Subset.refl _) fun d' hd' => by
      rcases mem_store hd' with rfl | hd'
      · exact hd
      · exact h.drift d' hd'

theorem updateEntityProjection
    (hx : isEntity obs.subject) : Linked (g.updateEntityProjection obs n) := by
  unfold Graph.updateEntityProjection
  split
  case h_1 => exact h.storeDrift hx
  case h_2 =>
    unfold Graph.applyLifecycleTransitionFromObs
    split
    · exact h
    refine h.of_subset rfl (List.Subset.refl _) (fun r hr => (h.log r hr).2) (List.Subset.refl _)
      (List.Subset.refl _) fun d hd => ?_
    obtain ⟨d', hd', rfl⟩ := List.mem_map.mp hd
    split <;> exact h.drift d' hd'
  case h_3 => exact h
  case h_4 => exact h.retractEntityProjection obs.subject obs.source
  case h_5 => exact h.upsertCurrent hf hx
  case h_6 => exact (h.upsertCurrent hf hx).rebuildEntityIndex obs.subject

variable (hx : isEntity obs.subject = false)
include hx

theorem upsertEdge (parts : String × String × String) : Linked (g.upsertEdge parts obs n) := by
  refine (Linked.materializePlaceholderNode ?_ _).materializePlaceholderNode _
  apply h.storeEdge hf hx
  all_goals split <;> rfl

theorem updateEdgeProjection {g' : Graph} (hrun : g.updateEdgeProjection obs n = .ok g') :
    Linked g' := by
  revert hrun
  fun_cases Graph.updateEdgeProjection g obs n <;> rintro ⟨⟩
  · exact h
  · exact h.deleteEdge _ _
  · exact h.upsertEdge hf hx _

end Linked

/-- A change of the projections for the log row `n`. -/
structure Projected (n : ℕ) (g g' : Graph) : Prop where
  log : g'.log = g.log
  current : ∀ c ∈ g'.current.rows, c ∈ g.current.rows ∨ c.logSeq = n
  edges : ∀ e ∈ g'.edges.rows, e ∈ g.edges.rows ∨ e.logSeq = n

namespace Projected

variable {n : ℕ} {g g' g'' : Graph} {obs : Observation}

theorem refl (g : Graph) : Projected n g g := ⟨rfl, fun _ h => .inl h, fun _ h => .inl h⟩

theorem trans (h : Projected n g g') (h' : Projected n g' g'') : Projected n g g'' where
  log := h'.log.trans h.log
  current c hc := (h'.current c hc).elim (h.current c) .inr
  edges e he := (h'.edges e he).elim (h.edges e) .inr

theorem rebuildEntityIndex (x : String) : Projected n g (g.rebuildEntityIndex x) := by
  unfold Graph.rebuildEntityIndex
  split <;> exact ⟨rfl, fun _ h => .inl h, fun _ h => .inl h⟩

theorem materializePlaceholderNode (x : String) :
    Projected n g (g.materializePlaceholderNode x) := by
  unfold Graph.materializePlaceholderNode
  split
  · exact refl g
  split
  · exact refl g
  · exact ⟨rfl, fun _ h => .inl h, fun _ h => .inl h⟩

theorem retractEntityProjection (x source : String) :
    Projected n g (g.retractEntityProjection x source) := by
  have herased : Projected n g { g with current := g.current.erase (x, source) } :=
    ⟨rfl, fun _ h => .inl (mem_erase.mp h).1, fun _ h => .inl h⟩
  exact herased.trans (rebuildEntityIndex x)

variable (parts : String × String × String)

theorem deleteEdge (source : String) : Projected n g (g.deleteEdge parts source) :=
  ⟨rfl, fun _ h => .inl h, fun _ h => .inl (mem_erase.mp h).1⟩

theorem upsertCurrent : Projected n g (g.upsertCurrent obs n) := by
  refine ⟨rfl, fun c hc => ?_, fun _ h => .inl h⟩
  rcases mem_store hc with rfl | hc
  · exact .inr rfl
  · exact .inl hc

theorem upsertEdge : Projected n g (g.upsertEdge parts obs n) := by
  refine (Projected.trans ?_ (materializePlaceholderNode _)).trans (materializePlaceholderNode _)
  refine ⟨rfl, fun _ h => .inl h, fun e he => ?_⟩
  rcases mem_store he with rfl | he
  · right
    split <;> rfl
  · exact .inl he

theorem updateEntityProjection : Projected n g (g.updateEntityProjection obs n) := by
  unfold Graph.updateEntityProjection
  split
  case h_1 => exact ⟨rfl, fun _ h => .inl h, fun _ h => .inl h⟩
  case h_2 =>
    unfold Graph.applyLifecycleTransitionFromObs
    split
    · exact refl g
    · exact ⟨rfl, fun _ h => .inl h, fun _ h => .inl h⟩
  case h_3 => exact refl g
  case h_4 => exact retractEntityProjection _ _
  case h_5 => exact upsertCurrent
  case h_6 => exact upsertCurrent.trans (rebuildEntityIndex _)

theorem updateEdgeProjection (hrun : g.updateEdgeProjection obs n = .ok g') : Projected n g g' := by
  revert hrun
  fun_cases Graph.updateEdgeProjection g obs n <;> rintro ⟨⟩
  · exact refl g
  · exact deleteEdge _ _
  · exact upsertEdge _

theorem present (h : Projected n g g') (hg : Present g) (hrow : ∃ r ∈ g.log.rows, r.id = n) :
    Present g' := by
  constructor
  · intro c hc
    rw [h.log]
    rcases h.current c hc with hc | rfl
    · exact hg.current c hc
    · exact hrow
  · intro e he
    rw [h.log]
    rcases h.edges e he with he | rfl
    · exact hg.edges e he
    · exact hrow

end Projected

theorem Present.logged (h : Present g) (hlinked : Linked g) (obs : Observation) :
    Present (g.logged obs) := by
  have hmem := mem_logged (fun r hr => (hlinked.log r hr).1) obs
  have hcurrent : (g.logged obs).current = g.current := by simp [Graph.logged]
  have hedges : (g.logged obs).edges = g.edges := insertPayload_edges
  constructor
  · intro c hc
    obtain ⟨r, hr, hid⟩ := h.current c (hcurrent ▸ hc)
    exact ⟨r, (hmem r).mpr (.inl hr), hid⟩
  · intro e he
    obtain ⟨r, hr, hid⟩ := h.edges e (hedges ▸ he)
    exact ⟨r, (hmem r).mpr (.inl hr), hid⟩

/-- The subjects with an owner, apart from `x`, are asserted by a source. -/
def OwnedExcept (x : String) (g : Graph) : Prop :=
  ∀ i ∈ g.index.rows, i.subject ≠ x → i.owningTenant ≠ "" → g.Asserted i.subject

/-- The subjects with an owner are asserted by a source. -/
def Owned (g : Graph) : Prop := ∀ i ∈ g.index.rows, i.owningTenant ≠ "" → g.Asserted i.subject

namespace Owned

variable {g g' : Graph} {obs : Observation} {x : String}
variable (h : Owned g)
include h

theorem congr (hindex : g'.index = g.index) (hcurrent : g'.current = g.current) : Owned g' := by
  intro i hi howner
  rw [hindex] at hi
  obtain ⟨c, hc, hsubject⟩ := h i hi howner
  exact ⟨c, hcurrent ▸ hc, hsubject⟩

omit h in
theorem rebuildEntityIndex (h : OwnedExcept x g) : Owned (g.rebuildEntityIndex x) := by
  intro i hi howner
  rw [Graph.Asserted, rebuildEntityIndex_current]
  unfold Graph.rebuildEntityIndex at hi
  split at hi
  · obtain ⟨hi, hne⟩ := mem_erase.mp hi
    exact h i hi hne howner
  next first rest hentries =>
  rcases mem_store_iff.mp hi with rfl | ⟨hi, hne⟩
  · have hmem : first ∈ g.indexEntries x := hentries ▸ List.mem_cons_self
    obtain ⟨c, hc, -⟩ := List.mem_map.mp hmem
    obtain ⟨hc, hcounts⟩ := List.mem_filter.mp hc
    exact ⟨c, hc, by simp at hcounts; exact hcounts.1.1⟩
  · exact h i hi hne howner

theorem materializePlaceholderNode (y : String) : Owned (g.materializePlaceholderNode y) := by
  unfold Graph.materializePlaceholderNode
  split
  · exact h
  split
  · exact h
  intro i hi howner
  rcases mem_store hi with rfl | hi
  · exact absurd rfl howner
  · exact h i hi howner

theorem retractEntityProjection (x source : String) :
    Owned (g.retractEntityProjection x source) := by
  refine rebuildEntityIndex fun i hi hne howner => ?_
  obtain ⟨c, hc, hsubject⟩ := h i hi howner
  refine ⟨c, mem_erase.mpr ⟨hc, fun hkey => hne ?_⟩, hsubject⟩
  exact hsubject.symm.trans (congrArg Prod.fst hkey)

theorem upsertCurrent (obs : Observation) (n : ℕ) : Owned (g.upsertCurrent obs n) := by
  intro i hi howner
  obtain ⟨c, hc, hsubject⟩ := h i hi howner
  by_cases hkey : c.key = (obs.subject, obs.source)
  · refine ⟨_, mem_store_iff.mpr (.inl rfl), ?_⟩
    exact (congrArg Prod.fst hkey).symm.trans hsubject
  · exact ⟨c, mem_store_iff.mpr (.inr ⟨hc, hkey⟩), hsubject⟩

theorem updateEntityProjection (n : ℕ) : Owned (g.updateEntityProjection obs n) := by
  unfold Graph.updateEntityProjection
  split
  case h_1 => exact h.congr rfl rfl
  case h_2 =>
    unfold Graph.applyLifecycleTransitionFromObs
    split
    · exact h
    · exact h.congr rfl rfl
  case h_3 => exact h
  case h_4 => exact h.retractEntityProjection _ _
  case h_5 => exact h.upsertCurrent obs n
  case h_6 => exact rebuildEntityIndex fun i hi _ => h.upsertCurrent obs n i hi

theorem updateEdgeProjection {n : ℕ} (hrun : g.updateEdgeProjection obs n = .ok g') : Owned g' := by
  revert hrun
  fun_cases Graph.updateEdgeProjection g obs n <;> rintro ⟨⟩
  · exact h
  · exact h.congr rfl rfl
  · refine (Owned.materializePlaceholderNode ?_ _).materializePlaceholderNode _
    exact h.congr rfl rfl

theorem logged (obs : Observation) : Owned (g.logged obs) :=
  h.congr insertPayload_index (by simp [Graph.logged])

end Owned

/-- What the rows of the tables say of each other. -/
structure Coherent (g : Graph) : Prop where
  linked : Linked g
  present : Present g
  owned : Owned g

/-- Every arrival keeps the tables coherent. -/
theorem receive_coherent {a : Arrival} (h : Coherent g)
    (hstep : g.receive a = .ok g') : Coherent g' := by
  cases a with
  | observed obs t =>
    rcases ingest_cases hstep with ⟨-, rfl⟩ | ⟨-, rfl⟩ | ⟨-, hrun⟩
    · exact h
    · exact h
    have hlogged := h.linked.logged obs
    have hfresh := h.linked.fresh obs
    have hthere := h.present.logged h.linked obs
    have howned := h.owned.logged obs
    rw [Graph.dispatchProjectionUpdate] at hrun
    split at hrun
    · next hx =>
      rw [← Except.ok.inj hrun]
      exact ⟨hlogged.updateEntityProjection hfresh hx,
        Projected.updateEntityProjection.present hthere hfresh.row, howned.updateEntityProjection _⟩
    · next hx =>
      have hx : isEntity obs.subject = false := by simpa using hx
      exact ⟨hlogged.updateEdgeProjection hfresh hx hrun,
        (Projected.updateEdgeProjection hrun).present hthere hfresh.row,
        howned.updateEdgeProjection hrun⟩
  | retracted pattern source asOf subject =>
    have hlogged := h.linked.logged (Graph.absenceOf subject source asOf)
    have hfresh := h.linked.fresh (Graph.absenceOf subject source asOf)
    have hthere := h.present.logged h.linked (Graph.absenceOf subject source asOf)
    have howned := h.owned.logged (Graph.absenceOf subject source asOf)
    change g.retractSubject pattern source asOf subject = .ok g' at hstep
    unfold Graph.retractSubject at hstep
    split at hstep
    · rw [← Except.ok.inj hstep]
      exact ⟨hlogged.retractEntityProjection _ _,
        (Projected.retractEntityProjection _ _).present hthere hfresh.row,
        howned.retractEntityProjection _ _⟩
    · split at hstep
      · rw [← Except.ok.inj hstep]
        exact ⟨hlogged.deleteEdge _ _, (Projected.deleteEdge _ _).present hthere hfresh.row,
          howned.congr rfl rfl⟩
      · cases hstep

theorem Coherent.empty : Coherent .empty := by
  refine ⟨⟨?_, ?_, ?_, ?_, ?_, ?_, ?_, ?_⟩, ⟨?_, ?_⟩, ?_⟩ <;>
    simp [Graph.empty, Table.empty, Owned]

theorem Coherent.report (h : Coherent g) (r : Report) : Coherent (store.step g r).1 := by
  refine @store_step_rule (fun g _ => Coherent g) ?_ ?_ g [] r h
  · exact fun g es a g' h hstep => receive_coherent h hstep
  · intro g es row h
    exact ⟨h.linked.shrink rfl rfl rfl (List.Subset.refl _) (List.Subset.refl _) rfl,
      ⟨h.present.current, h.present.edges⟩, h.owned.congr rfl rfl⟩

/-- After any reports, every row of the current state and every edge goes back to a row of the log
with its payload, which is stored. -/
theorem projections_backed (rs : List Report) : let g := graphAfter rs
    (∀ c ∈ g.current.rows, ∃ r ∈ g.log.rows, r.id = c.logSeq ∧ r.subject = c.subject ∧
      r.payload = c.payload ∧ r.payload ∈ g.contents) ∧
    ∀ e ∈ g.edges.rows, ∃ r ∈ g.log.rows, r.id = e.logSeq ∧ isEntity r.subject = false ∧
      r.payload = e.payload ∧ r.payload ∈ g.contents := by
  have hcoherent : Coherent (graphAfter rs) := store.history_invariant
    (P := fun g _ => Coherent g) (fun _ _ r h => h.report r) .empty rs
  have hlinked := hcoherent.linked
  refine ⟨fun c hc => ?_, fun e he => ?_⟩
  · obtain ⟨r, hr, hid⟩ := hcoherent.present.current c hc
    obtain ⟨hsubject, hpayload⟩ := hlinked.currentRow c hc r hr hid
    exact ⟨r, hr, hid, hsubject, hpayload, (hlinked.log r hr).2⟩
  · obtain ⟨r, hr, hid⟩ := hcoherent.present.edges e he
    obtain ⟨hsubject, hpayload⟩ := hlinked.edgeRow e he r hr hid
    exact ⟨r, hr, hid, hsubject, hpayload, (hlinked.log r hr).2⟩

end Cfgms.EntityGraph
