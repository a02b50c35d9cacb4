import Cfgms.EntityGraph.Reads
import Cfgms.EntityGraph.Safe

/-! # Reads across a sweep

A safe sweep leaves current reads as they are. Reads at the time of the sweep go by the log, and
need that the rows they return are kept and those that a later row hides stay hidden.
-/

namespace Cfgms.EntityGraph

open Ordered List EntityGraph.Graph

def entityAsOf (asOf : ℤ) (r : ObservationRow) : Bool := stateAsOf asOf r && isEntity r.subject

/-- No drift record goes with a swept subject, and the selections of the reads at the time of the
sweep, of entities and of same-as edges, survive what it removes from the log. -/
structure Lasting (s : Sweep) (g : Graph) : Prop where
  drift : ∀ x ∈ g.swept s, ∀ d ∈ g.drift.rows, d.subject ≠ x
  states : Survives (entityAsOf s.now) (hidesState s.now) g.log.rows (g.keeps s)
  sameAs : Survives (sameAsAsOf s.now) (hidesSameAs s.now) g.log.rows (g.keeps s)

structure ReadsKept (s : Sweep) (g : Graph) : Prop where
  entity : ∀ eid opts, opts.asOf = none ∨ opts.asOf = some s.now ∧ isEntity eid.string →
    (g.runRetentionGC s).getEntity eid opts = g.getEntity eid opts
  edges : ∀ f, (g.runRetentionGC s).getEdges f = g.getEdges f
  drift : ∀ {F : Type} (parseDriftFields : Option Value → Except String F) (eid : EID),
    (g.runRetentionGC s).getDriftState parseDriftFields eid = g.getDriftState parseDriftFields eid
  stateAsOf : ∀ x, isEntity x →
    (g.runRetentionGC s).entityStateAsOf x s.now = g.entityStateAsOf x s.now

section Reads

variable {s : Sweep} {g : Graph} (hcoherent : Coherent g) (hsafe : Safe s g)

include hsafe

theorem current_runRetentionGC : (g.runRetentionGC s).current.rows = g.current.rows := hsafe.current

theorem edges_runRetentionGC : (g.runRetentionGC s).edges.rows = g.edges.rows := hsafe.edgeRows

include hcoherent

theorem log_runRetentionGC : (g.runRetentionGC s).log.rows = g.log.rows.filter (g.keeps s) := by
  rw [runRetentionGC_log]
  exact filter_congr fun r hr =>
    kept_eq_keeps hcoherent.linked hsafe.current hsafe.edgeRows hr

theorem mem_contents_of_evidence {r : ObservationRow} (hr : Evidence g r) :
    (r.payload ∈ (g.runRetentionGC s).contents) ↔ r.payload ∈ g.contents := by
  constructor
  · exact fun _ => (hcoherent.linked.log r hr.1).2
  · exact fun _ => (evidenceKept_of_safe hcoherent.linked hsafe r hr).2

theorem payload_current_iff {c : CurrentRow} (hc : c ∈ g.current.rows) :
    c.payload ∈ (g.runRetentionGC s).contents ↔ c.payload ∈ g.contents := by
  obtain ⟨r, hr, hid⟩ := hcoherent.present.current c hc
  rw [← (hcoherent.linked.currentRow c hc r hr hid).2]
  exact mem_contents_of_evidence hcoherent hsafe ⟨hr, .inl ⟨c, hc, hid.symm⟩⟩

theorem payload_edge_iff {e : EdgeRow} (he : e ∈ g.edges.rows) :
    e.payload ∈ (g.runRetentionGC s).contents ↔ e.payload ∈ g.contents := by
  obtain ⟨r, hr, hid⟩ := hcoherent.present.edges e he
  rw [← (hcoherent.linked.edgeRow e he r hr hid).2]
  exact mem_contents_of_evidence hcoherent hsafe ⟨hr, .inr (.inl ⟨e, he, hid.symm⟩)⟩

variable {x : String}

omit hcoherent hsafe in
theorem index_runRetentionGC (hx : x ∉ g.swept s) :
    (g.runRetentionGC s).index.get x = g.index.get x :=
  get_index_sweepTombstones hx

omit hcoherent hsafe in
theorem index_runRetentionGC_swept (hx : x ∈ g.swept s) :
    (g.runRetentionGC s).index.get x = none := by
  change (g.sweepTombstones s).index.get x = none
  rw [Option.eq_none_iff_forall_not_mem]
  intro i hget
  obtain ⟨hi, rfl⟩ := Table.get_eq_some_iff.mp hget
  rw [sweepTombstones_index] at hi
  simpa [hx] using (mem_filter.mp hi).2

theorem inCut_runRetentionGC (cut : TenantCut) : (g.runRetentionGC s).inCut cut = g.inCut cut := by
  funext x
  rw [Graph.inCut, Graph.inCut]
  by_cases hx : x ∈ g.swept s
  · rw [index_runRetentionGC_swept hx]
    cases hindex : g.index.get x with
    | none => rfl
    | some i =>
      obtain ⟨hi, rfl⟩ := Table.get_eq_some_iff.mp hindex
      have howner : i.owningTenant = "" := by
        by_contra howner
        exact hsafe.asserted _ hx (hcoherent.owned i hi howner)
      cases hactive : cut.active <;> simp [TenantCut.visible, hactive, howner]
  · rw [index_runRetentionGC hx]

theorem loadEntityRowsCurrent_runRetentionGC (x : String) :
    (g.runRetentionGC s).loadEntityRowsCurrent x = g.loadEntityRowsCurrent x := by
  rw [Graph.loadEntityRowsCurrent, Graph.loadEntityRowsCurrent, current_runRetentionGC hsafe]
  congr 1
  refine filter_congr fun c hc => ?_
  rw [decide_eq_decide.mpr (payload_current_iff hcoherent hsafe hc)]

theorem loadMemberSources_runRetentionGC (x : String) :
    (g.runRetentionGC s).loadMemberSources x = g.loadMemberSources x := by
  rw [Graph.loadMemberSources, Graph.loadMemberSources, current_runRetentionGC hsafe]
  congr 1
  refine filter_congr fun c hc => ?_
  rw [decide_eq_decide.mpr (payload_current_iff hcoherent hsafe hc)]

theorem sameAsPeers_runRetentionGC (cut : TenantCut) :
    (g.runRetentionGC s).sameAsPeers cut = g.sameAsPeers cut := by
  funext x
  rw [Graph.sameAsPeers, Graph.sameAsPeers, edges_runRetentionGC hsafe,
    inCut_runRetentionGC hcoherent hsafe]

theorem getEdges_runRetentionGC (f : EdgeFilter) :
    (g.runRetentionGC s).getEdges f = g.getEdges f := by
  rw [Graph.getEdges, Graph.getEdges, edges_runRetentionGC hsafe, inCut_runRetentionGC hcoherent hsafe]
  refine filterMap_congr fun e he => ?_
  have he : e ∈ g.edges.rows := by
    have hsorted := mem_of_mem_take he
    exact (mem_filter.mp ((mem_insertionSort _).mp hsorted)).1
  simp [payload_edge_iff hcoherent hsafe he]

variable (hlasting : Lasting s g)

include hlasting

omit hsafe hcoherent hlasting in
theorem loadEntityRowsAsOf_eq (hx : isEntity x) (asOf : ℤ) :
    g.loadEntityRowsAsOf x asOf =
      ((unhidden (entityAsOf asOf) (hidesState asOf) g.log.rows).filter fun r =>
        r.subject = x && r.payload ∈ g.contents).map fun r =>
          ⟨r.source, r.sourceClass, r.kind, r.confidence, r.observedAt, r.recordedAt, r.payload⟩ := by
  rw [Graph.loadEntityRowsAsOf, filter_unhidden (p := fun r => isEntity r.subject) fun r hr => ?_]
  · rfl
  · simp only [Bool.and_eq_true, decide_eq_true_eq] at hr
    rwa [hr.1]

theorem loadEntityRowsAsOf_runRetentionGC (hx : isEntity x) :
    (g.runRetentionGC s).loadEntityRowsAsOf x s.now = g.loadEntityRowsAsOf x s.now := by
  rw [loadEntityRowsAsOf_eq hx, loadEntityRowsAsOf_eq hx, log_runRetentionGC hcoherent hsafe,
    unhidden_filter_eq_iff.mpr hlasting.states]
  congr 1
  refine filter_congr fun r hr => ?_
  have hlog := (mem_unhidden.mp hr).1
  have hkept : g.kept s r := by
    rw [kept_eq_keeps hcoherent.linked hsafe.current hsafe.edgeRows hlog]
    exact hlasting.states.returned r hr
  simp [(hcoherent.linked.log r hlog).2, mem_contents_of_kept hcoherent.linked hlog hkept]

variable {asOf : Option ℤ}

omit hcoherent in
theorem loadEntityRows_swept (hx : x ∈ g.swept s)
    (hasOf : asOf = none ∨ asOf = some s.now ∧ isEntity x) : g.loadEntityRows x asOf = [] := by
  rcases hasOf with rfl | ⟨rfl, hentity⟩
  · refine map_eq_nil_iff.mpr (filter_eq_nil_iff.mpr fun c hc => ?_)
    have hne : c.subject ≠ x := fun h => hsafe.asserted x hx ⟨c, hc, h⟩
    simp [hne]
  · rw [Graph.loadEntityRows, loadEntityRowsAsOf_eq hentity]
    refine map_eq_nil_iff.mpr (filter_eq_nil_iff.mpr fun r hr => ?_)
    have hne : r.subject ≠ x := by
      rintro rfl
      have hkeep := hlasting.states.returned r hr
      simp [Graph.keeps, buried_of_mem hx] at hkeep
    simp [hne]

theorem loadEntityRows_runRetentionGC
    (hasOf : asOf = none ∨ asOf = some s.now ∧ isEntity x) :
    (g.runRetentionGC s).loadEntityRows x asOf = g.loadEntityRows x asOf := by
  rcases hasOf with rfl | ⟨rfl, hentity⟩
  · exact loadEntityRowsCurrent_runRetentionGC hcoherent hsafe x
  · exact loadEntityRowsAsOf_runRetentionGC hcoherent hsafe hlasting hentity

theorem resolveCollapseGroup_runRetentionGC (eid : EID) (cut : TenantCut)
    (hasOf : asOf = none ∨ asOf = some s.now) :
    (g.runRetentionGC s).resolveCollapseGroup eid asOf cut =
      g.resolveCollapseGroup eid asOf cut := by
  have hlive : (g.runRetentionGC s).liveSameAs s.now = g.liveSameAs s.now := by
    rw [Graph.liveSameAs, Graph.liveSameAs, log_runRetentionGC hcoherent hsafe,
      unhidden_filter_eq_iff.mpr hlasting.sameAs]
  have hmembers : (g.runRetentionGC s).groupMembers eid asOf cut = g.groupMembers eid asOf cut := by
    rcases hasOf with rfl | rfl
    · simp [Graph.groupMembers, sameAsPeers_runRetentionGC hcoherent hsafe]
    have hpeers : (g.runRetentionGC s).sameAsPeersAsOf s.now cut =
        g.sameAsPeersAsOf s.now cut := by
      funext x
      rw [Graph.sameAsPeersAsOf, Graph.sameAsPeersAsOf, hlive, inCut_runRetentionGC hcoherent hsafe]
    simp [Graph.groupMembers, hpeers]
  rw [Graph.resolveCollapseGroup, Graph.resolveCollapseGroup, hmembers]
  cases g.groupMembers eid asOf cut with
  | error e => rfl
  | ok members =>
    have hvisible : (g.runRetentionGC s).applyTenantCut members cut = g.applyTenantCut members cut := by
      rw [Graph.applyTenantCut, inCut_runRetentionGC hcoherent hsafe, Graph.applyTenantCut]
    simp [hvisible, loadMemberSources_runRetentionGC hcoherent hsafe]

theorem getEntity_runRetentionGC (eid : EID) (opts : GetEntityOpts)
    (hasOf : opts.asOf = none ∨ opts.asOf = some s.now ∧ isEntity eid.string) :
    (g.runRetentionGC s).getEntity eid opts = g.getEntity eid opts := by
  by_cases hx : eid.string ∈ g.swept s
  · simp only [Graph.getEntity, index_runRetentionGC_swept hx,
      loadEntityRows_swept hsafe hlasting hx hasOf]
    cases g.index.get eid.string with
    | none => rfl
    | some i => simp
  · simp [Graph.getEntity, index_runRetentionGC hx,
      loadEntityRows_runRetentionGC hcoherent hsafe hlasting hasOf,
      resolveCollapseGroup_runRetentionGC hcoherent hsafe hlasting eid _ (hasOf.imp_right And.left)]

omit hcoherent hsafe in
theorem drift_runRetentionGC (x : String) : (g.runRetentionGC s).drift.get x = g.drift.get x := by
  change (g.sweepTombstones s).drift.get x = g.drift.get x
  have hrows : (g.sweepTombstones s).drift.rows = g.drift.rows := by
    rw [sweepTombstones_drift]
    exact filter_eq_self.mpr fun d hd => decide_eq_true fun hx => hlasting.drift _ hx d hd rfl
  rw [Table.get, hrows, Table.get]

theorem readsKept_of_lasting : ReadsKept s g where
  entity := getEntity_runRetentionGC hcoherent hsafe hlasting
  edges := getEdges_runRetentionGC hcoherent hsafe
  drift parseDriftFields eid := by
    rw [Graph.getDriftState, Graph.getDriftState, drift_runRetentionGC hlasting]
  stateAsOf x hx := by
    rw [Graph.entityStateAsOf, Graph.entityStateAsOf,
      loadEntityRowsAsOf_runRetentionGC hcoherent hsafe hlasting hx]

end Reads

inductive Reached : Graph → Prop
  | empty : Reached .empty
  | report {g : Graph} (r : Report) : Reached g → Reached (store.step g r).1
  | sweep {g : Graph} (s : Sweep) : Reached g → Safe s g → Reached (g.runRetentionGC s)

variable {g : Graph}

theorem Coherent.runRetentionGC {s : Sweep} (h : Coherent g) (hsafe : Safe s g) :
    Coherent (g.runRetentionGC s) := by
  have hcurrent := current_runRetentionGC hsafe
  have hedges := edges_runRetentionGC hsafe
  have hkeep : ∀ r, Evidence g r → r ∈ (g.runRetentionGC s).log.rows :=
    fun r hr => (evidenceKept_of_safe h.linked hsafe r hr).1
  refine ⟨?_, ⟨?_, ?_⟩, ?_⟩
  · refine (h.linked.sweepTombstones s).of_subset rfl ?_ ?_ (List.Subset.refl _)
      (List.Subset.refl _) (h.linked.sweepTombstones s).drift
    · change ((g.sweepTombstones s).pruneHistory s).log.rows ⊆ _
      rw [pruneHistory_log]
      exact filter_subset_self _
    · intro r hr
      obtain ⟨hr, hkept⟩ := mem_runRetentionGC_log.mp hr
      exact mem_contents_of_kept h.linked hr hkept
  · intro c hc
    rw [hcurrent] at hc
    obtain ⟨r, hr, hid⟩ := h.present.current c hc
    exact ⟨r, hkeep r ⟨hr, .inl ⟨c, hc, hid.symm⟩⟩, hid⟩
  · intro e he
    rw [hedges] at he
    obtain ⟨r, hr, hid⟩ := h.present.edges e he
    exact ⟨r, hkeep r ⟨hr, .inr (.inl ⟨e, he, hid.symm⟩)⟩, hid⟩
  · intro i hi howner
    change i ∈ (g.sweepTombstones s).index.rows at hi
    rw [sweepTombstones_index] at hi
    rw [Graph.Asserted, hcurrent]
    exact h.owned i (mem_filter.mp hi).1 howner

theorem Reached.coherent (h : Reached g) : Coherent g := by
  induction h with
  | empty => exact .empty
  | report r _ ih => exact ih.report r
  | sweep s _ hsafe ih => exact ih.runRetentionGC hsafe

/-- A sweep keeps the evidence of the projections and the rows of asserted subjects exactly if it
is safe, and then reads return what they returned before where the log lasts for them. -/
theorem retention_keeps_current {g : Graph} (hg : Reached g) (s : Sweep) :
    (EvidenceKept s g ∧ ProjectionsKept s g ↔ Safe s g) ∧
      (Safe s g → Lasting s g → ReadsKept s g) := by
  have hcoherent := hg.coherent
  refine ⟨⟨fun h => safe_of_kept hcoherent.linked h.1 h.2, fun h => ?_⟩, fun hsafe hlasting => ?_⟩
  · exact ⟨evidenceKept_of_safe hcoherent.linked h, projectionsKept_of_safe h⟩
  · exact readsKept_of_lasting hcoherent hsafe hlasting

/-- The default policy, a hundred days after the reports. -/
def hundredDays : Sweep := ⟨⟨0, 0, fun _ => []⟩, [], 100 * nanosecondsPerDay⟩

def reportsOf (obs : List (String × String × ObservationKind × Option Payload)) : List Report :=
  obs.map fun (source, subject, kind, payload) =>
    ⟨none, 0, ⟨source, [⟨"", 0, 0, subject, kind, "high", payload⟩], [], ""⟩⟩

theorem Reached.reports (h : Reached g) (rs : List Report) : Reached (store.final g rs) := by
  induction rs generalizing g with
  | nil => exact h
  | cons r rs ih => exact ih (h.report r)

def reportOn (day : ℤ) (subject : String) (kind : ObservationKind) : Report :=
  let payload := if kind = .absence then some .empty else none
  ⟨none, 0, ⟨"observer:a", [⟨"", day * nanosecondsPerDay, 0, subject, kind, "high", payload⟩], [],
    ""⟩⟩

/-- One of three hosts is retired, and of the two edges one is retracted as of tomorrow. -/
def retiredHost : Graph :=
  graphAfter [reportOn 0 "host:a" .state, reportOn 0 "host:b" .presence, reportOn 0 "host:c" .state,
    reportOn 0 "host:c" .absence, reportOn 50 "runs-on|host:a|host:b" .state,
    reportOn 0 "peer|host:a|host:b" .state, reportOn 101 "peer|host:a|host:b" .absence]

/-- The retired host and the history of the retracted edge go, and the rest stays, however old. -/
theorem retention_keeps_host :
    retiredHost.swept hundredDays = ["host:c"] ∧
      (retiredHost.runRetentionGC hundredDays).log.rows.map (·.id) = [1, 2, 5, 7] ∧
      EvidenceKept hundredDays retiredHost ∧ ProjectionsKept hundredDays retiredHost ∧
      ReadsKept hundredDays retiredHost := by
  have hswept : retiredHost.swept hundredDays = ["host:c"] := by decide +kernel
  have hdrift : retiredHost.drift.rows = [] := by decide +kernel
  have hsafe : Safe hundredDays retiredHost := by
    refine ⟨?_, ?_, ?_, by decide +kernel⟩ <;> rw [hswept]
    · unfold Graph.Asserted
      decide +kernel
    · decide +kernel
    · have hcurrent : ∀ c ∈ retiredHost.current.rows, c.logSeq ∈ [1, 2, 5] := by decide +kernel
      have hedges : ∀ e ∈ retiredHost.edges.rows, e.logSeq ∈ [1, 2, 5] := by decide +kernel
      have hother : ∀ r ∈ retiredHost.log.rows, r.id ∈ [1, 2, 5] →
          ∀ x ∈ ["host:c"], r.subject ≠ x ∧ ¬ endMatches x r.subject := by decide +kernel
      rintro r ⟨hr, ⟨c, hc, hid⟩ | ⟨e, he, hid⟩ | ⟨-, ⟨d, hd, -⟩, -⟩⟩
      · exact hother r hr (hid ▸ hcurrent c hc)
      · exact hother r hr (hid ▸ hedges e he)
      · rw [hdrift] at hd
        cases hd
  have hlasting : Lasting hundredDays retiredHost := by
    refine ⟨by simp [hdrift], ⟨?_, ?_⟩, ⟨?_, ?_⟩⟩ <;> decide +kernel
  obtain ⟨hiff, hreads⟩ :=
    retention_keeps_current (Reached.empty.reports _ : Reached retiredHost) hundredDays
  exact ⟨hswept, by decide +kernel, (hiff.mpr hsafe).1, (hiff.mpr hsafe).2, hreads hsafe hlasting⟩

/-- The log row of an edge is removed, and a host goes with the absence that one of its two sources
has reported last. -/
theorem current_removed : ¬ EvidenceKept hundredDays
        (graphAfter (reportsOf [("observer:a", "runs-on|host:a|host:b", .state, none)])) ∧
      ¬ ProjectionsKept hundredDays (graphAfter (reportsOf [("observer:a", "host:a", .state, none),
        ("observer:b", "host:a", .presence, none),
        ("observer:b", "host:a", .absence, some .empty)])) := by
  constructor
  · intro h
    have hkept := h ⟨1, "runs-on|host:a|host:b", "observer:a", .observer, 0, 0, .state, "high", none,
      ""⟩ ⟨by decide, .inr (.inl (by decide))⟩
    exact absurd hkept.1 (by decide)
  · intro h
    have hkept := h.current ⟨"host:a", "observer:a", .observer, .state, "high", 0, 0, none, "", 1⟩
      (by decide)
    exact absurd hkept (by decide)

end Cfgms.EntityGraph
