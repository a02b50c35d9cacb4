import Cfgms.EntityGraph.Payload
import Cfgms.Ordered.Table

/-! # The store of the entity graph

Observations are appended to a log and projected into tables: entities by source, an index, the
edges by source, and the drift of an entity. A batch that fails changes nothing. Subjects that a
source does not enumerate any more in a scope are retracted.
-/

namespace Cfgms.EntityGraph

open Ordered Go

structure ObservationRow where
  id : ℕ
  subject : String
  source : String
  sourceClass : SourceClass
  observedAt : ℤ
  recordedAt : ℤ
  kind : ObservationKind
  confidence : String
  payload : Option Payload
  tenantPath : String
deriving DecidableEq

structure CurrentRow where
  subject : String
  source : String
  sourceClass : SourceClass
  kind : ObservationKind
  confidence : String
  observedAt : ℤ
  recordedAt : ℤ
  payload : Option Payload
  tenantPath : String
  logSeq : ℕ
deriving DecidableEq

def CurrentRow.key (r : CurrentRow) : String × String := (r.subject, r.source)

structure IndexRow where
  subject : String
  entityKind : String
  owningTenant : String
  hostname : String
  macAddrs : String
  machineSID : String
  dirObjectGUID : String
  serialNumber : String
  cloudObjectID : String
deriving DecidableEq

structure EdgeRow where
  edgeKey : String
  edgeType : String
  fromSubject : String
  toSubject : String
  source : String
  sourceClass : SourceClass
  observedAt : ℤ
  payload : Option Payload
  logSeq : ℕ
deriving DecidableEq

structure DriftRow where
  subject : String
  detectedAt : ℤ
  configRevision : String
  lifecycleStatus : String
  /-- The `fields` attribute, `none` for the empty list that stands for an absent one. -/
  fields : Option Value
deriving DecidableEq

structure ScopeRow where
  scopeKey : String
  source : String
  asOf : ℤ
  subjects : List String
deriving DecidableEq

structure Graph where
  log : Table ObservationRow.id
  /-- The id of the next log row: ids are not used again. -/
  nextID : ℕ
  contents : List (Option Payload)
  current : Table CurrentRow.key
  index : Table IndexRow.subject
  edges : Table EdgeRow.edgeKey
  drift : Table DriftRow.subject
  scopes : Table ScopeRow.scopeKey

namespace Graph

def empty : Graph := ⟨.empty, 1, [], .empty, .empty, .empty, .empty, .empty⟩

/-- The owner in the index, `""` where there is none. -/
def owner (g : Graph) (x : String) : String := ((g.index.get x).map IndexRow.owningTenant).getD ""

def Asserted (g : Graph) (x : String) : Prop := ∃ r ∈ g.current.rows, r.subject = x

def insertPayload (g : Graph) (payload : Option Payload) : Graph :=
  if payload ∈ g.contents then g else { g with contents := g.contents ++ [payload] }

def appendLog (g : Graph) (row : ObservationRow) : Graph :=
  { g with log := g.log.store { row with id := g.nextID }, nextID := g.nextID + 1 }

end Graph

structure Observation where
  source : String
  observedAt : ℤ
  recordedAt : ℤ
  subject : String
  kind : ObservationKind
  confidence : String
  payload : Option Payload
deriving DecidableEq

inductive TraversalDirection where
  | outbound
  | inbound
  | both
deriving DecidableEq

def TraversalDirection.string : TraversalDirection → String
  | .outbound => "outbound"
  | .inbound => "inbound"
  | .both => "both"

structure EdgeScopePattern where
  edgeType : String
  anchorEID : EID
  direction : TraversalDirection
deriving DecidableEq

structure EntityScopePattern where
  entityType : String
  authorityPrefix : String
deriving DecidableEq

structure ClaimScopePattern where
  edge : Option EdgeScopePattern
  entity : Option EntityScopePattern
deriving DecidableEq

structure ClaimScope where
  source : String
  pattern : ClaimScopePattern
  /-- Absent for the zero time. -/
  asOf : Option ℤ
deriving DecidableEq

structure ObservationBatch where
  source : String
  observations : List Observation
  claimScopes : List ClaimScope
  authenticatedPeer : String
deriving DecidableEq

def ownerImmutableSubject (subject : String) : Bool :=
  match beforeChar ':' subject with
  | some "directory" => true
  | some "m365" => true
  | _ => false

def ownerImmutableKind : ObservationKind → Bool
  | .state => true
  | .presence => true
  | _ => false

/-- Whether the subject names an entity; otherwise it is an edge. -/
def isEntity (subject : String) : Bool :=
  match parseEID subject with
  | .ok _ => true
  | .error _ => false

def edgeProjectionKey (fromSubject edgeType toSubject source : String) : String :=
  fromSubject ++ "\x1f" ++ edgeType ++ "\x1f" ++ toSubject ++ "\x1f" ++ source

def parseEdgeSubject (subject : String) : Except String (String × String × String) :=
  match edgeParts subject with
  | some parts => .ok parts
  | none =>
    .error ("entitygraph/sqlite: invalid edge subject " ++ subject.quote ++
      ": expected edge_type|from|to")

namespace Graph

variable (g : Graph)

def indexEntries (subject : String) : List SourceEntry :=
  (g.current.rows.filter fun r =>
    r.subject = subject && r.kind ≠ .desiredState && r.payload ∈ g.contents).map fun r =>
      ⟨r.source, r.sourceClass, r.observedAt, r.payload⟩

def rebuildEntityIndex (subject : String) : Graph :=
  match g.indexEntries subject with
  | [] => { g with index := g.index.erase subject }
  | first :: rest =>
    let win := (winningBy id first rest).payload
    let merged := some (mergeAttributes (first :: rest))
    { g with index := g.index.store {
        subject := subject
        entityKind := extractString win "entity_kind"
        owningTenant := extractString win "owning_tenant"
        hostname := extractString merged "hostname"
        macAddrs := extractStringList merged "mac_addrs"
        machineSID := extractString merged "machine_sid"
        dirObjectGUID := extractString merged "dir_object_guid"
        serialNumber := extractString merged "serial_number"
        cloudObjectID := extractString merged "cloud_object_id" } }

def updateDriftProjectionFromObservation (obs : Observation) : Graph :=
  { g with drift := g.drift.store {
      subject := obs.subject
      detectedAt := obs.observedAt
      configRevision := extractString obs.payload "config_revision"
      lifecycleStatus := ((g.drift.get obs.subject).map DriftRow.lifecycleStatus).getD "detected"
      fields := obs.payload.bind fun p => p.get "fields" } }

def transitionLifecycleStatus : String → Option String
  | "acknowledge" => some "acknowledged"
  | "resolve" => some "resolved"
  | "ignore" => some "ignored"
  | _ => none

/-- An unknown transition is skipped. -/
def applyLifecycleTransitionFromObs (obs : Observation) : Graph :=
  match transitionLifecycleStatus (extractString obs.payload "transition") with
  | none => g
  | some status =>
    let drift := g.drift.update (fun r => r.subject = obs.subject)
      (fun r => { r with lifecycleStatus := status }) fun _ => rfl
    { g with drift := drift }

def retractEntityProjection (subject source : String) : Graph :=
  rebuildEntityIndex { g with current := g.current.erase (subject, source) } subject

def upsertCurrent (obs : Observation) (logSeq : ℕ) : Graph :=
  { g with current := g.current.store {
      subject := obs.subject
      source := obs.source
      sourceClass := resolveSourceClass obs.source
      kind := obs.kind
      confidence := obs.confidence
      observedAt := obs.observedAt
      recordedAt := obs.recordedAt
      payload := obs.payload
      tenantPath := tenantPathOf obs.payload
      logSeq := logSeq } }

def updateEntityProjection (obs : Observation) (logSeq : ℕ) : Graph :=
  match obs.kind with
  | .driftDiff => g.updateDriftProjectionFromObservation obs
  | .lifecycle => g.applyLifecycleTransitionFromObs obs
  | .applyOutcome => g
  | .absence => g.retractEntityProjection obs.subject obs.source
  -- the row of a desired state is there for the comparison of payloads only
  | .desiredState => g.upsertCurrent obs logSeq
  | _ => (g.upsertCurrent obs logSeq).rebuildEntityIndex obs.subject

/-- An index row for an end of an edge that has none. -/
def materializePlaceholderNode (subject : String) : Graph :=
  match parseEID subject with
  | .error _ => g
  | .ok eid =>
    match g.index.get subject with
    | some _ => g
    | none => { g with index := g.index.store ⟨subject, eid.authorityType, "", "", "", "", "", "", ""⟩ }

def deleteEdge (parts : String × String × String) (source : String) : Graph :=
  let (edgeType, fromSubject, toSubject) := parts
  { g with edges := g.edges.erase (edgeProjectionKey fromSubject edgeType toSubject source) }

/-- A row with the key keeps its ends. -/
def upsertEdge (parts : String × String × String) (obs : Observation) (logSeq : ℕ) : Graph :=
  let (edgeType, fromSubject, toSubject) := parts
  let key := edgeProjectionKey fromSubject edgeType toSubject obs.source
  let sourceClass := resolveSourceClass obs.source
  let row := match g.edges.get key with
    | some row => { row with sourceClass, observedAt := obs.observedAt, payload := obs.payload, logSeq }
    | none =>
      ⟨key, edgeType, fromSubject, toSubject, obs.source, sourceClass, obs.observedAt, obs.payload,
        logSeq⟩
  let g := { g with edges := g.edges.store row }
  (g.materializePlaceholderNode fromSubject).materializePlaceholderNode toSubject

def updateEdgeProjection (obs : Observation) (logSeq : ℕ) : Except String Graph :=
  match obs.kind with
  | .absence =>
    match edgeParts obs.subject with
    | none => .ok g
    | some parts => .ok (g.deleteEdge parts obs.source)
  | _ =>
    match parseEdgeSubject obs.subject with
    | .error e => .error e
    | .ok parts => .ok (g.upsertEdge parts obs logSeq)

def dispatchProjectionUpdate (obs : Observation) (logSeq : ℕ) : Except String Graph :=
  if isEntity obs.subject then .ok (g.updateEntityProjection obs logSeq)
  else g.updateEdgeProjection obs logSeq

section Frames

variable {g}

@[simp] theorem insertPayload_current (payload : Option Payload) :
    (g.insertPayload payload).current = g.current := by
  unfold insertPayload
  split <;> rfl

section InsertPayload

variable {payload : Option Payload}

theorem insertPayload_log : (g.insertPayload payload).log = g.log := by
  unfold insertPayload
  split <;> rfl

theorem insertPayload_nextID : (g.insertPayload payload).nextID = g.nextID := by
  unfold insertPayload
  split <;> rfl

theorem insertPayload_index : (g.insertPayload payload).index = g.index := by
  unfold insertPayload
  split <;> rfl

theorem insertPayload_edges : (g.insertPayload payload).edges = g.edges := by
  unfold insertPayload
  split <;> rfl

theorem insertPayload_drift : (g.insertPayload payload).drift = g.drift := by
  unfold insertPayload
  split <;> rfl

theorem subset_insertPayload : g.contents ⊆ (g.insertPayload payload).contents := by
  unfold insertPayload
  split
  · exact List.Subset.refl _
  · exact List.subset_append_left _ _

theorem mem_insertPayload : payload ∈ (g.insertPayload payload).contents := by
  unfold insertPayload
  split
  · assumption
  · simp

end InsertPayload

@[simp] theorem appendLog_current (row : ObservationRow) : (g.appendLog row).current = g.current :=
  rfl

@[simp] theorem rebuildEntityIndex_current (subject : String) :
    (g.rebuildEntityIndex subject).current = g.current := by
  unfold rebuildEntityIndex
  split <;> rfl

@[simp] theorem applyLifecycleTransitionFromObs_current (obs : Observation) :
    (g.applyLifecycleTransitionFromObs obs).current = g.current := by
  unfold applyLifecycleTransitionFromObs
  split <;> rfl

@[simp] theorem retractEntityProjection_current (subject source : String) :
    (g.retractEntityProjection subject source).current = g.current.erase (subject, source) := by
  simp [retractEntityProjection]

@[simp] theorem materializePlaceholderNode_current (subject : String) :
    (g.materializePlaceholderNode subject).current = g.current := by
  unfold materializePlaceholderNode
  split
  · rfl
  · split <;> rfl

@[simp] theorem deleteEdge_current (parts : String × String × String) (source : String) :
    (g.deleteEdge parts source).current = g.current := rfl

theorem updateEntityProjection_current (obs : Observation) (logSeq : ℕ) :
    (g.updateEntityProjection obs logSeq).current =
      match obs.kind with
      | .driftDiff | .lifecycle | .applyOutcome => g.current
      | .absence => g.current.erase (obs.subject, obs.source)
      | _ => (g.upsertCurrent obs logSeq).current := by
  unfold updateEntityProjection
  cases obs.kind <;> simp [updateDriftProjectionFromObservation]

theorem updateEdgeProjection_current {obs : Observation} {logSeq : ℕ} {g' : Graph}
    (h : g.updateEdgeProjection obs logSeq = .ok g') : g'.current = g.current := by
  revert h
  fun_cases updateEdgeProjection g obs logSeq <;> rintro ⟨⟩
  · rfl
  · rfl
  · simp [upsertEdge]

end Frames

/-- Whether a writer of the tenant must not write an observation of the subject. -/
def rejectOwnerChange (subject writerTenant : String) : Bool :=
  match g.index.get subject with
  | none => false
  | some row => row.owningTenant ≠ "" && row.owningTenant ≠ writerTenant

/-- Whether the owner check skips the observation. -/
def ownerRejected (obs : Observation) (writerTenant : String) : Bool :=
  ownerImmutableSubject obs.subject && ownerImmutableKind obs.kind &&
    g.rejectOwnerChange obs.subject writerTenant

/-- Whether the row of the subject and the source has the payload of the observation. -/
def isRepeated (obs : Observation) : Bool :=
  match g.current.get (obs.subject, obs.source) with
  | none => false
  | some row => row.payload = obs.payload

def logRowOf (obs : Observation) : ObservationRow where
  id := 0
  subject := obs.subject
  source := obs.source
  sourceClass := resolveSourceClass obs.source
  observedAt := obs.observedAt
  recordedAt := obs.recordedAt
  kind := obs.kind
  confidence := obs.confidence
  payload := obs.payload
  tenantPath := tenantPathOf obs.payload

def ingest (obs : Observation) (writerTenant : String) : Except String Graph :=
  if g.ownerRejected obs writerTenant then .ok g
  else if g.isRepeated obs then .ok g
  else
    let g' := (g.insertPayload obs.payload).appendLog (logRowOf obs)
    (g'.dispatchProjectionUpdate obs g.nextID).mapError ("entitygraph/sqlite: projection update: " ++ ·)

def absenceOf (subject source : String) (asOf : ℤ) : Observation :=
  ⟨source, asOf, asOf, subject, .absence, "high", some .empty⟩

def appendAbsenceLog (subject source : String) (asOf : ℤ) : Graph :=
  (g.insertPayload (some .empty)).appendLog (logRowOf (absenceOf subject source asOf))

def retractSubject (pattern : ClaimScopePattern) (source : String) (asOf : ℤ) (subject : String) :
    Except String Graph :=
  let g' := g.appendAbsenceLog subject source asOf
  match pattern.entity with
  | some _ => .ok (g'.retractEntityProjection subject source)
  | none =>
    match parseEdgeSubject subject with
    | .ok parts => .ok (g'.deleteEdge parts source)
    | .error e => .error ("entitygraph/sqlite: parse edge subject for retraction: " ++ e)

def loadPriorSubjects (scopeKey : String) : List String :=
  ((g.scopes.get scopeKey).map ScopeRow.subjects).getD []

def savePriorSubjects (row : ScopeRow) : Graph := { g with scopes := g.scopes.store row }

end Graph

def claimScopeKey (source : String) (pattern : ClaimScopePattern) : String :=
  match pattern.edge, pattern.entity with
  | some e, _ =>
    source ++ "\x1fedge\x1f" ++ e.edgeType ++ "\x1f" ++ e.anchorEID.string ++ "\x1f" ++
      e.direction.string
  | none, some en => source ++ "\x1fentity\x1f" ++ en.entityType ++ "\x1f" ++ en.authorityPrefix
  | none, none => source ++ "\x1fempty"

def subjectMatchesEntityScope (subject : String) (p : EntityScopePattern) : Bool :=
  match parseEID subject with
  | .error _ => false
  | .ok eid =>
    (p.entityType = "" || eid.authorityType = p.entityType) &&
      (p.authorityPrefix = "" || p.authorityPrefix.toList.isPrefixOf subject.toList)

def subjectMatchesEdgeScope (subject : String) (p : EdgeScopePattern) : Bool :=
  match edgeParts subject with
  | none => false
  | some (edgeType, fromSubject, toSubject) =>
    (p.edgeType = "" || edgeType = p.edgeType) &&
      match p.direction with
      | .outbound => fromSubject = p.anchorEID.string
      | .inbound => toSubject = p.anchorEID.string
      | .both => fromSubject = p.anchorEID.string || toSubject = p.anchorEID.string

namespace ObservationBatch

variable (batch : ObservationBatch)

/-- The source of an item of the batch: its own, or that of the batch. -/
def sourceOr (source : String) : String := if source = "" then batch.source else source

def scopeKey (cs : ClaimScope) : String := claimScopeKey (batch.sourceOr cs.source) cs.pattern

def collectScopeSubjects (cs : ClaimScope) : List String :=
  ((batch.observations.filter fun obs =>
    batch.sourceOr obs.source = batch.sourceOr cs.source &&
      (cs.pattern.entity.any (subjectMatchesEntityScope obs.subject) ||
        cs.pattern.edge.any (subjectMatchesEdgeScope obs.subject))).map Observation.subject).dedup

/-- The subjects enumerated before in the scope, and not in this batch. -/
def missingSubjects (g : Graph) (cs : ClaimScope) : List String :=
  (g.loadPriorSubjects (batch.scopeKey cs)).filter fun subject =>
    subject ∉ batch.collectScopeSubjects cs

variable (now : ℤ)

def retractIn (cs : ClaimScope) (g : Graph) (subject : String) : Except String Graph :=
  (g.retractSubject cs.pattern (batch.sourceOr cs.source) (cs.asOf.getD now) subject).mapError
    ("entitygraph/sqlite: retract subject " ++ subject.quote ++ " in scope " ++
      (batch.scopeKey cs).quote ++ ": " ++ ·)

def processScope (g : Graph) (cs : ClaimScope) : Except String Graph := do
  let g ← (batch.missingSubjects g cs).foldlM (batch.retractIn now cs) g
  .ok (g.savePriorSubjects ⟨batch.scopeKey cs, batch.sourceOr cs.source, cs.asOf.getD now,
    batch.collectScopeSubjects cs⟩)

def firstOverlap : List String → List ClaimScope → Option ClaimScope
  | _, [] => none
  | seen, cs :: scopes =>
    if batch.scopeKey cs ∈ seen then some cs else firstOverlap (batch.scopeKey cs :: seen) scopes

def processClaimScopes (g : Graph) : Except String Graph :=
  match batch.firstOverlap [] batch.claimScopes with
  | some cs =>
    .error ("entitygraph/sqlite: overlapping claim scope for source " ++
      (batch.sourceOr cs.source).quote ++ " pattern key " ++ (batch.scopeKey cs).quote)
  | none => batch.claimScopes.foldlM (batch.processScope now) g

variable (tenantResolver : Option (String → String))

/-- The tenant of the authenticated peer, `""` where it is not known. -/
def peerTenant : String :=
  if batch.authenticatedPeer = "" then ""
  else (tenantResolver.map fun tenantForDevice => tenantForDevice batch.authenticatedPeer).getD ""

/-- The observation as it is written: a batch of a peer has the tenant of the peer. -/
def resolve (obs : Observation) : Observation where
  source := batch.sourceOr obs.source
  observedAt := obs.observedAt
  recordedAt := obs.recordedAt
  subject := obs.subject
  kind := obs.kind
  confidence := obs.confidence
  payload :=
    if batch.authenticatedPeer = "" then obs.payload
    else some (withResolvedTenant obs.payload (batch.peerTenant tenantResolver))

def writerTenant (obs : Observation) : String :=
  if batch.authenticatedPeer = "" then tenantPathOf obs.payload
  else batch.peerTenant tenantResolver

def ingestAt (g : Graph) (item : Observation × ℕ) : Except String Graph :=
  if item.1.subject = "" then
    .error ("entitygraph/sqlite: observation " ++ toString item.2 ++ " has empty subject")
  else g.ingest (batch.resolve tenantResolver item.1) (batch.writerTenant tenantResolver item.1)

end ObservationBatch

/-- The transaction of a batch; the store is unchanged where it fails. -/
def Graph.reportObservations (tenantResolver : Option (String → String)) (now : ℤ) (g : Graph)
    (batch : ObservationBatch) : Except String Graph := do
  let g ← batch.observations.zipIdx.foldlM (batch.ingestAt tenantResolver) g
  batch.processClaimScopes now g

end Cfgms.EntityGraph
