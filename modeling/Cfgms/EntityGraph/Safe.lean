import Cfgms.EntityGraph.Evidence

/-! # Sweeps that keep what is current

The evidence of the projections is kept by a sweep, and no row of an asserted subject is removed,
exactly if the sweep is safe.
-/

namespace Cfgms.EntityGraph

open Ordered List EntityGraph.Graph

/-- The last drift report of a subject whose drift is not resolved. -/
def LatestDrift (g : Graph) (r : ObservationRow) : Prop :=
  r.kind = .driftDiff ∧
    (∃ d ∈ g.drift.rows, d.subject = r.subject ∧ d.lifecycleStatus ≠ "resolved") ∧
    ∀ r' ∈ g.log.rows, r'.subject = r.subject → r'.kind = .driftDiff → r'.id ≤ r.id

/-- The log rows that the projections rest on. -/
def Evidence (g : Graph) (r : ObservationRow) : Prop :=
  r ∈ g.log.rows ∧ ((∃ c ∈ g.current.rows, c.logSeq = r.id) ∨
    (∃ e ∈ g.edges.rows, e.logSeq = r.id) ∨ LatestDrift g r)

/-- The text under which an edge is pinned, which is not its subject. -/
def edgePin (e : EdgeRow) : String := e.fromSubject ++ "|" ++ e.edgeType ++ "|" ++ e.toSubject

def EvidenceKept (s : Sweep) (g : Graph) : Prop :=
  ∀ r, Evidence g r → r ∈ (g.runRetentionGC s).log.rows ∧ r.payload ∈ (g.runRetentionGC s).contents

/-- No projection row of an asserted subject is removed; the rows of the current state and of the
edges are assertions themselves. -/
structure ProjectionsKept (s : Sweep) (g : Graph) : Prop where
  current : ∀ c ∈ g.current.rows, c ∈ (g.runRetentionGC s).current.rows
  edges : ∀ e ∈ g.edges.rows, e ∈ (g.runRetentionGC s).edges.rows
  index : ∀ i ∈ g.index.rows, g.Asserted i.subject → i ∈ (g.runRetentionGC s).index.rows
  drift : ∀ d ∈ g.drift.rows, g.Asserted d.subject → d ∈ (g.runRetentionGC s).drift.rows

/-- A swept subject, the last row of which is an old absence of whichever source, is asserted by
no source, is no end of an edge, and no evidence is of it or, by the text, of an edge that it
ends; and an edge is not older than the history, unless it is pinned under its own subject. -/
structure Safe (s : Sweep) (g : Graph) : Prop where
  asserted : ∀ x ∈ g.swept s, ¬ g.Asserted x
  ends : ∀ x ∈ g.swept s, ∀ e ∈ g.edges.rows, e.fromSubject ≠ x ∧ e.toSubject ≠ x
  evidence : ∀ r, Evidence g r → ∀ x ∈ g.swept s, r.subject ≠ x ∧ ¬ endMatches x r.subject
  edges : ∀ e ∈ g.edges.rows, ∀ r ∈ g.log.rows, r.id = e.logSeq →
    r.observedAt < s.cutoff (g.owner r.subject) → edgePin e = r.subject

section Pins

variable {g : Graph} {r : ObservationRow}

theorem mem_driftPins {p : ℕ × String} :
    p ∈ g.driftPins ↔ ∃ r ∈ g.log.rows, LatestDrift g r ∧ p = (r.id, r.subject) := by
  have hunresolved : ∀ r : ObservationRow,
      ((g.drift.get r.subject).any fun d => decide (d.lifecycleStatus ≠ "resolved")) ↔
        ∃ d ∈ g.drift.rows, d.subject = r.subject ∧ d.lifecycleStatus ≠ "resolved" := by
    intro r
    simp only [Option.any_eq_true, decide_eq_true_eq, Table.get_eq_some_iff, and_assoc]
  simp only [Graph.driftPins, mem_map, mem_filter, Bool.and_eq_true, hunresolved,
    LatestDrift, all_eq_true, Bool.or_eq_true, decide_eq_true_eq, and_assoc]
  constructor
  all_goals
    rintro ⟨r, hr, hkind, hdrift, hlast, rfl⟩
    refine ⟨r, hr, hkind, hdrift, fun r' hr' => ?_, rfl⟩
    have hr' := hlast r' hr'
    tauto

theorem mem_loadPinnedLogSeqs {p : ℕ × String} :
    p ∈ g.loadPinnedLogSeqs ↔ (∃ c ∈ g.current.rows, p = (c.logSeq, c.subject)) ∨
      (∃ e ∈ g.edges.rows, 0 < e.logSeq ∧ p = (e.logSeq, edgePin e)) ∨
      ∃ r ∈ g.log.rows, LatestDrift g r ∧ p = (r.id, r.subject) := by
  simp only [Graph.loadPinnedLogSeqs, mem_append, mem_map, mem_filter, mem_driftPins,
    decide_eq_true_eq, or_assoc, and_assoc, eq_comm (b := p), edgePin]

theorem pinned_eq_some_iff {seq : ℕ} {x : String}
    (hsame : ∀ p ∈ g.loadPinnedLogSeqs, p.1 = seq → p.2 = x) :
    g.pinned seq = some x ↔ ∃ p ∈ g.loadPinnedLogSeqs, p.1 = seq := by
  unfold Graph.pinned
  constructor
  · intro h
    obtain ⟨p, hp, -⟩ := Option.map_eq_some_iff.mp h
    exact ⟨p, mem_reverse.mp (mem_of_find?_eq_some hp), by
      simpa using find?_some hp⟩
  · rintro ⟨p, hp, hseq⟩
    cases hfind : g.loadPinnedLogSeqs.reverse.find? fun p => p.1 = seq with
    | none => simpa [hseq] using find?_eq_none.mp hfind p (mem_reverse.mpr hp)
    | some q =>
      have hq : q ∈ g.loadPinnedLogSeqs := mem_reverse.mp (mem_of_find?_eq_some hfind)
      have hkey : q.1 = seq := by simpa using find?_some hfind
      simp [hsame q hq hkey]

theorem eq_of_id_eq {r r' : ObservationRow} (hr : r ∈ g.log.rows) (hr' : r' ∈ g.log.rows)
    (hid : r.id = r'.id) : r = r' :=
  inj_on_of_nodup_map g.log.nodup hr hr' hid

variable (hlinked : Linked g) (hr : r ∈ g.log.rows)

include hlinked hr

theorem pinned_entity_iff (hx : isEntity r.subject) :
    g.pinned r.id = some r.subject ↔ (∃ c ∈ g.current.rows, c.logSeq = r.id) ∨ LatestDrift g r := by
  rw [pinned_eq_some_iff]
  · simp only [mem_loadPinnedLogSeqs]
    constructor
    · rintro ⟨p, ⟨c, hc, rfl⟩ | ⟨e, he, -, rfl⟩ | ⟨r', hr', hdrift, rfl⟩, hid⟩
      · exact .inl ⟨c, hc, hid⟩
      · rw [(hlinked.edgeRow e he r hr hid.symm).1] at hx
        cases hx
      · exact .inr (eq_of_id_eq hr' hr hid ▸ hdrift)
    · rintro (⟨c, hc, hid⟩ | hdrift)
      · exact ⟨_, .inl ⟨c, hc, rfl⟩, hid⟩
      · exact ⟨_, .inr (.inr ⟨r, hr, hdrift, rfl⟩), rfl⟩
  · intro p hp hid
    rcases mem_loadPinnedLogSeqs.mp hp with ⟨c, hc, rfl⟩ | ⟨e, he, -, rfl⟩ | ⟨r', hr', -, rfl⟩
    · exact (hlinked.currentRow c hc r hr hid.symm).1.symm
    · rw [(hlinked.edgeRow e he r hr hid.symm).1] at hx
      cases hx
    · exact congrArg ObservationRow.subject (eq_of_id_eq hr' hr hid)

/-- A row of an edge is pinned by the edge only, and under the text of the pin. -/
theorem pinned_edge_iff (hx : isEntity r.subject = false) :
    g.pinned r.id = some r.subject ↔ ∃ e ∈ g.edges.rows, e.logSeq = r.id ∧ edgePin e = r.subject := by
  -- only the edge of the row can have put a pin on it
  have hpins : ∀ p ∈ g.loadPinnedLogSeqs, p.1 = r.id →
      ∃ e ∈ g.edges.rows, e.logSeq = r.id ∧ p.2 = edgePin e := by
    intro p hp hid
    rcases mem_loadPinnedLogSeqs.mp hp with
      ⟨c, hc, rfl⟩ | ⟨e, he, -, rfl⟩ | ⟨r', hr', ⟨-, ⟨d, hd, hsubject, -⟩, -⟩, rfl⟩
    · have hentity := (hlinked.current c hc).1
      rw [← (hlinked.currentRow c hc r hr hid.symm).1, hx] at hentity
      cases hentity
    · exact ⟨e, he, hid, rfl⟩
    · have hentity := hlinked.drift d hd
      rw [hsubject, eq_of_id_eq hr' hr hid, hx] at hentity
      cases hentity
  constructor
  · intro h
    obtain ⟨p, hp, hpin⟩ := Option.map_eq_some_iff.mp h
    have hmem := mem_reverse.mp (mem_of_find?_eq_some hp)
    obtain ⟨e, he, hid, heq⟩ := hpins p hmem (by simpa using find?_some hp)
    exact ⟨e, he, hid, heq.symm.trans hpin⟩
  · rintro ⟨e, he, hid, hpin⟩
    rw [pinned_eq_some_iff]
    · exact ⟨_, mem_loadPinnedLogSeqs.mpr (.inr (.inl ⟨e, he, (hlinked.edges e he).1, rfl⟩)), hid⟩
    · intro p hp hkey
      obtain ⟨e', he', hid', hp'⟩ := hpins p hp hkey
      rw [hp', hlinked.edgeUnique e' he' e he (hid'.trans hid.symm), hpin]

end Pins

/-- The log rows that a sweep keeps, by the store before it. -/
def Graph.keeps (s : Sweep) (g : Graph) (r : ObservationRow) : Bool :=
  !g.buried s r.subject && !g.prunable s r

section Kept

variable {s : Sweep} {g : Graph} {r : ObservationRow}
variable {x : String}

theorem not_mem_swept (h : g.buried s x = false) : x ∉ g.swept s := by
  intro hx
  simp [buried_of_mem hx] at h

theorem Linked.sweepTombstones (h : Linked g) (s : Sweep) : Linked (g.sweepTombstones s) := by
  have hnext : (g.sweepTombstones s).nextID = g.nextID := by
    rw [Graph.sweepTombstones]
    generalize g.swept s = xs
    clear h
    induction xs generalizing g with
    | nil => rfl
    | cons x xs ih => rw [foldl_cons, ih, Graph.deleteSubject]
  have hlog : (g.sweepTombstones s).log.rows ⊆ g.log.rows := by
    rw [sweepTombstones_log]
    exact filter_subset_self _
  refine h.of_subset hnext hlog (fun r hr => ?_) ?_ ?_ fun d hd => ?_
  · rw [sweepTombstones_contents]
    exact (h.log r (hlog hr)).2
  · rw [sweepTombstones_current]
    exact filter_subset_self _
  · rw [sweepTombstones_edges]
    exact filter_subset_self _
  · rw [sweepTombstones_drift] at hd
    exact h.drift d (mem_filter.mp hd).1

theorem get_index_sweepTombstones (hx : x ∉ g.swept s) :
    (g.sweepTombstones s).index.get x = g.index.get x := by
  ext i
  simp only [Table.get_eq_some_iff, sweepTombstones_index, mem_filter,
    decide_eq_true_eq, and_assoc]
  refine and_congr_right fun _ => and_iff_right_of_imp ?_
  rintro rfl
  exact hx

theorem latestDrift_sweepTombstones_iff (hr : g.buried s r.subject = false) :
    LatestDrift (g.sweepTombstones s) r ↔ LatestDrift g r := by
  simp only [LatestDrift, sweepTombstones_log, sweepTombstones_drift, mem_filter,
    decide_eq_true_eq, Bool.not_eq_true']
  refine and_congr_right fun _ => and_congr ?_ ?_
  · constructor
    · rintro ⟨d, ⟨hd, -⟩, h⟩
      exact ⟨d, hd, h⟩
    · rintro ⟨d, hd, hsubject, hopen⟩
      exact ⟨d, ⟨hd, hsubject ▸ not_mem_swept hr⟩, hsubject, hopen⟩
  · constructor
    · intro h r' hr' hsubject
      exact h r' ⟨hr', hsubject ▸ hr⟩ hsubject
    · exact fun h r' hr' => h r' hr'.1

theorem kept_eq_keeps (hlinked : Linked g)
    (hcurrent : (g.sweepTombstones s).current.rows = g.current.rows)
    (hedges : (g.sweepTombstones s).edges.rows = g.edges.rows) (hr : r ∈ g.log.rows) :
    g.kept s r = g.keeps s r := by
  unfold Graph.kept Graph.keeps
  cases hburied : g.buried s r.subject with
  | true => rfl
  | false =>
    have hr₁ : r ∈ (g.sweepTombstones s).log.rows := by
      rw [sweepTombstones_log]
      exact mem_filter.mpr ⟨hr, by simp [hburied]⟩
    have hpinned : (g.sweepTombstones s).pinned r.id = some r.subject ↔
        g.pinned r.id = some r.subject := by
      cases hx : isEntity r.subject with
      | true =>
        rw [pinned_entity_iff (hlinked.sweepTombstones s) hr₁ hx, pinned_entity_iff hlinked hr hx,
          hcurrent, latestDrift_sweepTombstones_iff hburied]
      | false =>
        rw [pinned_edge_iff (hlinked.sweepTombstones s) hr₁ hx, pinned_edge_iff hlinked hr hx, hedges]
    have howner : (g.sweepTombstones s).owner r.subject = g.owner r.subject := by
      rw [Graph.owner, get_index_sweepTombstones (not_mem_swept hburied), Graph.owner]
    simp [Graph.prunable, howner, hpinned]

theorem mem_runRetentionGC_log :
    r ∈ (g.runRetentionGC s).log.rows ↔ r ∈ g.log.rows ∧ g.kept s r := by
  rw [runRetentionGC_log, mem_filter]

theorem Safe.current (h : Safe s g) : (g.sweepTombstones s).current.rows = g.current.rows := by
  rw [sweepTombstones_current]
  refine filter_eq_self.mpr fun c hc => decide_eq_true fun hswept => ?_
  exact h.asserted c.subject hswept ⟨c, hc, rfl⟩

theorem Safe.edgeRows (h : Safe s g) : (g.sweepTombstones s).edges.rows = g.edges.rows := by
  rw [sweepTombstones_edges]
  refine filter_eq_self.mpr fun e he => ?_
  rw [Bool.and_eq_true, decide_eq_true_eq, decide_eq_true_eq]
  exact ⟨fun hx => (h.ends _ hx e he).1 rfl, fun hx => (h.ends _ hx e he).2 rfl⟩

theorem Safe.kept_evidence (h : Safe s g) (hlinked : Linked g) (hr : Evidence g r) : g.kept s r := by
  rw [kept_eq_keeps hlinked h.current h.edgeRows hr.1, Graph.keeps, Bool.and_eq_true,
    Bool.not_eq_true', Bool.not_eq_true']
  constructor
  · rw [Graph.buried, any_eq_false]
    intro x hx
    obtain ⟨hne, hends⟩ := h.evidence r hr x hx
    simp [hne, hends]
  · rw [Graph.prunable, Bool.and_eq_false_iff, decide_eq_false_iff_not, decide_eq_false_iff_not,
      not_not, or_iff_not_imp_left, not_not]
    intro hold
    obtain ⟨hlog, hevidence⟩ := hr
    cases hx : isEntity r.subject with
    | true =>
      apply (pinned_entity_iff hlinked hlog hx).mpr
      rcases hevidence with hcurrent | ⟨e, he, hid⟩ | hdrift
      · exact .inl hcurrent
      · rw [(hlinked.edgeRow e he r hlog hid.symm).1] at hx
        cases hx
      · exact .inr hdrift
    | false =>
      apply (pinned_edge_iff hlinked hlog hx).mpr
      rcases hevidence with ⟨c, hc, hid⟩ | ⟨e, he, hid⟩ | ⟨-, ⟨d, hd, hsubject, -⟩, -⟩
      · have hentity := (hlinked.current c hc).1
        rw [← (hlinked.currentRow c hc r hlog hid.symm).1, hx] at hentity
        cases hentity
      · exact ⟨e, he, hid, h.edges e he r hlog hid.symm hold⟩
      · have hentity := hlinked.drift d hd
        rw [hsubject, hx] at hentity
        cases hentity

theorem mem_contents_of_kept (hlinked : Linked g) (hr : r ∈ g.log.rows) (hkept : g.kept s r) :
    r.payload ∈ (g.runRetentionGC s).contents := by
  rw [runRetentionGC_contents]
  refine mem_filter.mpr ⟨(hlinked.log r hr).2, any_eq_true.mpr ⟨r, ?_, by simp⟩⟩
  exact mem_runRetentionGC_log.mpr ⟨hr, hkept⟩

theorem evidenceKept_of_safe (hlinked : Linked g) (h : Safe s g) : EvidenceKept s g := by
  intro r hr
  have hkept := h.kept_evidence hlinked hr
  exact ⟨mem_runRetentionGC_log.mpr ⟨hr.1, hkept⟩, mem_contents_of_kept hlinked hr.1 hkept⟩

theorem projectionsKept_of_safe (h : Safe s g) : ProjectionsKept s g where
  current c hc := by
    change c ∈ (g.sweepTombstones s).current.rows
    rwa [h.current]
  edges e he := by
    change e ∈ (g.sweepTombstones s).edges.rows
    rwa [h.edgeRows]
  index i hi hasserted := by
    change i ∈ (g.sweepTombstones s).index.rows
    rw [sweepTombstones_index]
    exact mem_filter.mpr ⟨hi, decide_eq_true fun hx => h.asserted _ hx hasserted⟩
  drift d hd hasserted := by
    change d ∈ (g.sweepTombstones s).drift.rows
    rw [sweepTombstones_drift]
    exact mem_filter.mpr ⟨hd, decide_eq_true fun hx => h.asserted _ hx hasserted⟩

theorem safe_of_kept (hlinked : Linked g) (hevidence : EvidenceKept s g)
    (hprojections : ProjectionsKept s g) : Safe s g := by
  have hcurrent : ∀ c ∈ g.current.rows, c.subject ∉ g.swept s := by
    intro c hc
    have hmem : c ∈ (g.sweepTombstones s).current.rows := hprojections.current c hc
    rw [sweepTombstones_current] at hmem
    simpa using (mem_filter.mp hmem).2
  have hends : ∀ e ∈ g.edges.rows, e.fromSubject ∉ g.swept s ∧ e.toSubject ∉ g.swept s := by
    intro e he
    have hmem : e ∈ (g.sweepTombstones s).edges.rows := hprojections.edges e he
    rw [sweepTombstones_edges] at hmem
    simpa using (mem_filter.mp hmem).2
  have hkeeps : ∀ r, Evidence g r → g.keeps s r := by
    intro r hr
    have hkept := (mem_runRetentionGC_log.mp (hevidence r hr).1).2
    rwa [kept_eq_keeps hlinked ?_ ?_ hr.1] at hkept
    · rw [sweepTombstones_current]
      exact filter_eq_self.mpr fun c hc => decide_eq_true (hcurrent c hc)
    · rw [sweepTombstones_edges]
      exact filter_eq_self.mpr fun e he => by simpa using hends e he
  constructor
  · rintro x hx ⟨c, hc, rfl⟩
    exact hcurrent c hc hx
  · rintro x hx e he
    exact ⟨fun h => (hends e he).1 (h ▸ hx), fun h => (hends e he).2 (h ▸ hx)⟩
  · intro r hr x hx
    have hkeep := hkeeps r hr
    rw [Graph.keeps, Bool.and_eq_true, Bool.not_eq_true', Graph.buried, any_eq_false] at hkeep
    simpa using hkeep.1 x hx
  · intro e he r hr hid hold
    have hkeep := hkeeps r ⟨hr, .inr (.inl ⟨e, he, hid.symm⟩)⟩
    rw [Graph.keeps, Bool.and_eq_true, Bool.not_eq_true', Bool.not_eq_true', Graph.prunable,
      Bool.and_eq_false_iff] at hkeep
    have hpinned : g.pinned r.id = some r.subject := by simpa [hold] using hkeep.2
    have hedge := (hlinked.edgeRow e he r hr hid).1
    obtain ⟨e', he', hid', hpin⟩ := (pinned_edge_iff hlinked hr hedge).mp hpinned
    rwa [hlinked.edgeUnique e' he' e he (hid'.trans hid)] at hpin

end Kept

end Cfgms.EntityGraph
