import Cfgms.EntityGraph.Store
import Cfgms.Ordered.Selection
import Mathlib.Data.List.Dedup

/-! # Retention

A sweep removes what is no longer current: subjects that were retracted long ago with all their
rows, scopes whose anchor is gone, log rows older than the history that their tenant keeps, and
payloads without a log row. Log rows that a projection refers to are pinned.
-/

namespace Cfgms.EntityGraph

open Ordered Go

structure RetentionOverride where
  tenantPath : String
  historyDays : ℤ
  tombstoneDays : ℤ
deriving DecidableEq

structure RetentionPolicy where
  historyDays : ℤ
  tombstoneDays : ℤ
  tenantAncestors : String → List String

/-- What a sweep goes by: the policy, the stored overrides and the time. -/
structure Sweep where
  policy : RetentionPolicy
  overrides : List RetentionOverride
  now : ℤ

def defaultHistoryDays : ℤ := 90

def nanosecondsPerDay : ℤ := 86400000000000

namespace Sweep

variable (s : Sweep)

def historyDays : ℤ :=
  if s.policy.historyDays ≤ 0 then defaultHistoryDays else s.policy.historyDays

def tombstoneDays : ℤ :=
  if s.policy.tombstoneDays ≤ 0 then s.historyDays + 7 else s.policy.tombstoneDays

/-- The days of history and of tombstones: the override of the tenant or of its nearest ancestor
that has one. -/
def effectivePolicyDays (owningTenant : String) : ℤ × ℤ :=
  match (owningTenant :: s.policy.tenantAncestors owningTenant).findSome? fun id =>
    s.overrides.find? fun r => r.tenantPath = id with
  | none => (s.historyDays, s.tombstoneDays)
  | some r =>
    (if 0 < r.historyDays then r.historyDays else s.historyDays,
      if 0 < r.tombstoneDays then r.tombstoneDays else s.tombstoneDays)

def cutoff (owningTenant : String) : ℤ :=
  s.now - (s.effectivePolicyDays owningTenant).1 * nanosecondsPerDay

def horizon (owningTenant : String) : ℤ :=
  s.now - (s.effectivePolicyDays owningTenant).2 * nanosecondsPerDay

end Sweep

/-- `LIKE '%|x|%'` or `LIKE '%|x'`, which does not tell the case of ASCII letters. -/
def endMatches (x subject : String) : Bool :=
  let folded := subject.toList.map Char.toLower
  let part := '|' :: x.toList.map Char.toLower
  contains folded (part ++ ['|']) || part.isSuffixOf folded

namespace Graph

variable (s : Sweep) (g : Graph)

/-- The rows that are the last ones of their subjects, of whichever source, and are absences. -/
def tombstoneCandidates : List ObservationRow :=
  g.log.rows.filter fun l =>
    (g.log.rows.all fun l' => l'.subject ≠ l.subject || l'.id ≤ l.id) && l.kind = .absence

def swept : List String :=
  (g.tombstoneCandidates.filter fun l => l.observedAt < s.horizon (g.owner l.subject)).map
    ObservationRow.subject

def deleteSubject (x : String) : Graph :=
  { g with
    log := g.log.filter fun r => r.subject ≠ x && !endMatches x r.subject
    current := g.current.filter fun r => r.subject ≠ x
    index := g.index.erase x
    drift := g.drift.erase x
    edges := g.edges.filter fun e => e.fromSubject ≠ x && e.toSubject ≠ x }

def sweepTombstones : Graph := (g.swept s).foldl deleteSubject g

def maxAbandonedScopesPerRun : ℕ := 500

def edgeScopeAnchor (scopeKey : String) : Option String :=
  match splitN '\x1f' 6 scopeKey.toList with
  | [_, kind, _, anchor, _] =>
    if kind = "edge".toList ∧ anchor ≠ [] then some (.ofList anchor) else none
  | _ => none

def anchorHasRows (anchor : String) : Bool :=
  (g.index.get anchor).isSome || (g.current.rows.any fun r => r.subject = anchor) ||
    (g.log.rows.any fun r => r.subject = anchor || endMatches anchor r.subject) ||
    g.edges.rows.any fun e => e.fromSubject = anchor || e.toSubject = anchor

def abandonedScopes : List String :=
  let keys := (g.scopes.rows.map ScopeRow.scopeKey).filter fun k =>
    contains k.toList "\x1fedge\x1f".toList
  ((keys.insertionSort (· ≤ ·)).filter fun k =>
    (edgeScopeAnchor k).any fun anchor => !g.anchorHasRows anchor).take maxAbandonedScopesPerRun

def sweepAbandonedEdgeScopes : Graph :=
  { g with scopes := g.abandonedScopes.foldl (fun scopes k => scopes.erase k) g.scopes }

/-- The last drift report of every subject whose drift is not resolved. -/
def driftPins : List (ℕ × String) :=
  (g.log.rows.filter fun l =>
    l.kind = .driftDiff && (g.drift.get l.subject).any (fun d => d.lifecycleStatus ≠ "resolved") &&
      g.log.rows.all fun l' => l'.subject ≠ l.subject || l'.kind ≠ .driftDiff || l'.id ≤ l.id).map
    fun l => (l.id, l.subject)

/-- The log rows that a projection refers to, each with a subject. -/
def loadPinnedLogSeqs : List (ℕ × String) :=
  g.current.rows.map (fun r => (r.logSeq, r.subject)) ++
    (g.edges.rows.filter fun e => 0 < e.logSeq).map
      (fun e => (e.logSeq, e.fromSubject ++ "|" ++ e.edgeType ++ "|" ++ e.toSubject)) ++
    g.driftPins

/-- The subject under which a row is pinned: a later entry replaces an earlier one. -/
def pinned (seq : ℕ) : Option String :=
  (g.loadPinnedLogSeqs.reverse.find? fun p => p.1 = seq).map Prod.snd

/-- A row older than the history of its subject that is not pinned under the subject. -/
def prunable (r : ObservationRow) : Bool :=
  r.observedAt < s.cutoff (g.owner r.subject) && g.pinned r.id ≠ some r.subject

def pruneSubject (log : Table ObservationRow.id) (x : String) : Table ObservationRow.id :=
  log.filter fun r => !(r.subject = x && g.prunable s r)

def pruneHistory : Graph :=
  { g with log := (g.log.rows.map ObservationRow.subject).dedup.foldl (g.pruneSubject s) g.log }

def sweepOrphanPayloads : Graph :=
  { g with contents := g.contents.filter fun p => g.log.rows.any fun r => r.payload = p }

def runRetentionGC : Graph :=
  (((g.sweepTombstones s).sweepAbandonedEdgeScopes).pruneHistory s).sweepOrphanPayloads

/-- Whether the removal of swept subjects takes the log rows of a subject with it. -/
def buried (subject : String) : Bool :=
  (g.swept s).any fun x => subject = x || endMatches x subject

variable {s g}

theorem buried_of_mem {x : String} (h : x ∈ g.swept s) : g.buried s x :=
  List.any_eq_true.mpr ⟨x, h, by simp⟩

theorem all_ne_eq (x : String) (xs : List String) :
    (xs.all fun y => decide (x ≠ y)) = decide (x ∉ xs) := by
  rw [Bool.eq_iff_iff]
  simp [List.forall_mem_ne]

theorem sweepTombstones_log :
    (g.sweepTombstones s).log.rows = g.log.rows.filter fun r => !g.buried s r.subject := by
  rw [sweepTombstones, foldl_filter (f := fun g : Graph => g.log.rows) (fun _ _ => rfl)]
  simp [buried, List.not_any_eq_all_not]

theorem sweepTombstones_current :
    (g.sweepTombstones s).current.rows = g.current.rows.filter fun r => r.subject ∉ g.swept s := by
  rw [sweepTombstones, foldl_filter (f := fun g : Graph => g.current.rows) (fun _ _ => rfl)]
  exact List.filter_congr fun r _ => all_ne_eq r.subject _

theorem sweepTombstones_index :
    (g.sweepTombstones s).index.rows = g.index.rows.filter fun r => r.subject ∉ g.swept s := by
  rw [sweepTombstones, foldl_filter (f := fun g : Graph => g.index.rows) (fun _ _ => rfl)]
  exact List.filter_congr fun r _ => all_ne_eq r.subject _

theorem sweepTombstones_drift :
    (g.sweepTombstones s).drift.rows = g.drift.rows.filter fun r => r.subject ∉ g.swept s := by
  rw [sweepTombstones, foldl_filter (f := fun g : Graph => g.drift.rows) (fun _ _ => rfl)]
  exact List.filter_congr fun r _ => all_ne_eq r.subject _

theorem sweepTombstones_edges :
    (g.sweepTombstones s).edges.rows = g.edges.rows.filter fun e =>
      e.fromSubject ∉ g.swept s && e.toSubject ∉ g.swept s := by
  rw [sweepTombstones, foldl_filter (f := fun g : Graph => g.edges.rows) (fun _ _ => rfl)]
  refine List.filter_congr fun e _ => ?_
  rw [← all_ne_eq, ← all_ne_eq, Bool.eq_iff_iff]
  simp only [List.all_eq_true, Bool.and_eq_true, imp_and, forall_and]

theorem sweepTombstones_contents : (g.sweepTombstones s).contents = g.contents := by
  rw [sweepTombstones]
  induction g.swept s generalizing g with
  | nil => rfl
  | cons x xs ih => rw [List.foldl_cons, ih, deleteSubject]

theorem pruneHistory_log :
    (g.pruneHistory s).log.rows = g.log.rows.filter fun r => !g.prunable s r := by
  rw [pruneHistory, foldl_filter (f := fun t : Table ObservationRow.id => t.rows) (fun _ _ => rfl)]
  refine List.filter_congr fun r hr => ?_
  have hmem : r.subject ∈ (g.log.rows.map ObservationRow.subject).dedup :=
    List.mem_dedup.mpr (List.mem_map_of_mem hr)
  rw [Bool.eq_iff_iff]
  simp only [List.all_eq_true, Bool.not_eq_true', Bool.and_eq_false_iff, decide_eq_false_iff_not]
  constructor
  · intro h
    exact (h r.subject hmem).resolve_left fun hne => hne rfl
  · exact fun h x _ => .inr h

def kept (s : Sweep) (g : Graph) (r : ObservationRow) : Bool :=
  !g.buried s r.subject && !(g.sweepTombstones s).prunable s r

theorem runRetentionGC_log :
    (g.runRetentionGC s).log.rows = g.log.rows.filter (g.kept s) := by
  have hprune : (g.runRetentionGC s).log.rows =
      (g.sweepTombstones s).log.rows.filter fun r => !(g.sweepTombstones s).prunable s r :=
    pruneHistory_log
  rw [hprune, sweepTombstones_log, List.filter_filter]
  exact List.filter_congr fun r _ => Bool.and_comm _ _

theorem runRetentionGC_contents :
    (g.runRetentionGC s).contents =
      g.contents.filter fun p => (g.runRetentionGC s).log.rows.any fun r => r.payload = p := by
  have h : (g.runRetentionGC s).contents = (g.sweepTombstones s).contents.filter fun p =>
      (g.runRetentionGC s).log.rows.any fun r => r.payload = p := rfl
  rw [h, sweepTombstones_contents]

end Graph

end Cfgms.EntityGraph
