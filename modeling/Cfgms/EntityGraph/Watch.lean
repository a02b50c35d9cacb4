import Cfgms.EntityGraph.Subject
import Cfgms.Machine.Runs
import Mathlib.Data.List.Sort

/-! # The change feed

A watch polls the observation log for rows above its cursor. In PostgreSQL a row is seen from the
commit on, so rows do not appear in the order of their ids; a poll leaves out the rows of
transactions that are not older than every one in progress. Retention deletes rows.
-/

namespace Cfgms.EntityGraph

open Go

structure LogRow where
  id : ℕ
  /-- The transaction that has inserted the row. -/
  xmin : ℕ
  subject : String
  kind : ObservationKind
  observedAt : String
deriving DecidableEq

inductive EventKind where
  | edgeUpdated
  | driftUpdated
  | entityUpdated
deriving DecidableEq

structure WatchEvent where
  subject : EID
  eventKind : EventKind
  version : ℕ
  atTime : ℤ
deriving DecidableEq

structure WatchFilter where
  kinds : List EventKind
  tenantFilter : String
  tenantSubtreeIDs : List String
  eids : List EID
deriving DecidableEq

section Events

-- the instant that a stored time stands for
variable (parseTime : String → ℤ)

def buildWatchEvent (row : LogRow) : Option WatchEvent :=
  if '|' ∈ row.subject.toList then
    match edgeParts row.subject with
    | none => none
    | some (_, fromSubject, _) =>
      match parseEID fromSubject with
      | .error _ => none
      | .ok eid => some ⟨eid, .edgeUpdated, row.id, parseTime row.observedAt⟩
  else
    match parseEID row.subject with
    | .error _ => none
    | .ok eid =>
      let kind := if row.kind = .driftDiff then .driftUpdated else .entityUpdated
      some ⟨eid, kind, row.id, parseTime row.observedAt⟩

def watchFilterMatches (ev : WatchEvent) (tenantPath : String) (f : WatchFilter) : Bool :=
  (f.kinds = [] || ev.eventKind ∈ f.kinds) &&
  (f.tenantFilter = "" || ev.eventKind = .edgeUpdated ||
    TenantCut.visible ⟨f.tenantFilter, f.tenantSubtreeIDs⟩ tenantPath) &&
  (f.eids = [] || f.eids.any fun eid => eid.string = ev.subject.string)

/-- The event of a row with its effective tenant, if there is one and it passes the filter. -/
def matchingEvent (f : WatchFilter) (row : LogRow × String) : Option WatchEvent :=
  (buildWatchEvent parseTime row.1).filter fun ev => watchFilterMatches ev row.2 f

/-- The events of the rows of a poll, and the id of the last of them. -/
def scanWatchRows (f : WatchFilter) (cursor : ℤ) (rows : List (LogRow × String)) :
    List WatchEvent × ℤ :=
  (rows.filterMap (matchingEvent parseTime f), (rows.getLast?.map fun r => (r.1.id : ℤ)).getD cursor)

end Events

inductive Provider where
  | database
  | sqlite
deriving DecidableEq

structure Txn where
  xid : ℕ
  rows : List LogRow
deriving DecidableEq

structure Watch where
  filter : WatchFilter
  start : ℤ
  cursor : ℤ
  /-- The rows that the polls have returned, each with its effective tenant at that time. -/
  read : List (LogRow × String)
  delivered : List WatchEvent
deriving DecidableEq

inductive Watcher where
  | idle
  /-- The cursor is resolved, and is to be checked. -/
  | resolved (filter : WatchFilter) (start : ℤ)
  | failed (err : String)
  | expired
  | running (w : Watch)
deriving DecidableEq

structure Feed where
  log : List LogRow
  /-- The transactions in progress. -/
  txns : List Txn
  nextID : ℕ
  nextXid : ℕ
  committed : List LogRow
  watcher : Watcher
deriving DecidableEq

def Feed.empty : Feed := ⟨[], [], 1, 1, [], .idle⟩

inductive FeedAction where
  /-- A transaction makes its first write. -/
  | begin
  | insert (i : ℕ) (subject : String) (kind : ObservationKind) (observedAt : String)
  | commit (i : ℕ)
  | rollback (i : ℕ)
  /-- A sweep deletes the rows that it does not keep. -/
  | delete (keep : LogRow → Bool)
  | resolve (filter : WatchFilter) (cursor : String)
  | start
  /-- A poll, with the owning tenants of the entity index at that time. -/
  | poll (tenants : String → String)
  | pollFailed

def watchBatchSize : ℕ := 100

namespace Feed

variable (provider : Provider) (parseTime : String → ℤ) (s : Feed)

/-- The smallest id of a transaction in progress, or the next one. -/
def snapshotXmin : ℕ := (s.txns.map Txn.xid).foldl min s.nextXid

def visible (cursor : ℤ) (row : LogRow) : Bool :=
  cursor < row.id && match provider with
    | .database => decide (row.xmin < s.snapshotXmin)
    | .sqlite => true

def pollWatchLog (cursor : ℤ) : List LogRow :=
  ((s.log.filter (s.visible provider cursor)).insertionSort fun a b => a.id ≤ b.id).take
    watchBatchSize

def maxID : ℤ := (s.log.map LogRow.id).foldl max 0

def minID : Option ℕ := (s.log.map LogRow.id).min?

def resolveWatchCursor (cursor : String) : Except String ℤ :=
  if cursor = "" then .ok s.maxID
  else
    match atoi cursor.toList with
    | some seq => .ok seq
    | none => .error ("invalid cursor " ++ cursor.quote ++ ": must be a decimal integer")

def cursorExpired (seq : ℤ) : Bool :=
  match s.minID with
  | some first => seq < first
  | none => false

def polled (w : Watch) (tenants : String → String) : Watch :=
  let rows := (s.pollWatchLog provider w.cursor).map fun row => (row, tenants row.subject)
  let (events, cursor) := scanWatchRows parseTime w.filter w.cursor rows
  { w with cursor := cursor, read := w.read ++ rows, delivered := w.delivered ++ events }

def step : FeedAction → Option Feed
  | .begin =>
    -- SQLite has one writer at a time
    if provider = .sqlite ∧ s.txns ≠ [] then none
    else some { s with txns := s.txns ++ [⟨s.nextXid, []⟩], nextXid := s.nextXid + 1 }
  | .insert i subject kind observedAt =>
    (s.txns[i]?).map fun t =>
      { s with
        txns := s.txns.set i
          ⟨t.xid, t.rows ++ [⟨s.nextID, t.xid, subject, kind, observedAt⟩]⟩
        nextID := s.nextID + 1 }
  | .commit i =>
    (s.txns[i]?).map fun t =>
      { s with
        log := s.log ++ t.rows
        txns := s.txns.eraseIdx i
        committed := s.committed ++ t.rows }
  | .rollback i => (s.txns[i]?).map fun _ => { s with txns := s.txns.eraseIdx i }
  | .delete keep => some { s with log := s.log.filter keep }
  | .resolve filter cursor =>
    match s.watcher with
    | .idle =>
      match s.resolveWatchCursor cursor with
      | .ok start => some { s with watcher := .resolved filter start }
      | .error err => some { s with watcher := .failed err }
    | _ => none
  | .start =>
    match s.watcher with
    | .resolved filter start =>
      if 0 < start ∧ s.cursorExpired start then some { s with watcher := .expired }
      else some { s with watcher := .running ⟨filter, start, start, [], []⟩ }
    | _ => none
  | .poll tenants =>
    match s.watcher with
    | .running w => some { s with watcher := .running (s.polled provider parseTime w tenants) }
    | _ => none
  | .pollFailed => some s

end Feed

def feed (provider : Provider) (parseTime : String → ℤ) : Machine Feed FeedAction :=
  ⟨Feed.step provider parseTime⟩

end Cfgms.EntityGraph
