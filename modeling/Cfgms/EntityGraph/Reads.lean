import Cfgms.EntityGraph.Store
import Cfgms.Ordered.Selection

/-! # Reads of the entity graph

An entity is read from the rows of its sources, now or at a time in the past; then the last row of
every source up to that time counts, unless it is an absence. With the group of an entity its
same-as edges are followed, inside the tenants that the caller sees.
-/

namespace Cfgms.EntityGraph

open Ordered Go

structure EntityRow where
  source : String
  sourceClass : SourceClass
  kind : ObservationKind
  confidence : String
  observedAt : ℤ
  recordedAt : ℤ
  payload : Option Payload
deriving DecidableEq

def EntityRow.entry (r : EntityRow) : SourceEntry :=
  ⟨r.source, r.sourceClass, r.observedAt, r.payload⟩

structure CollapseGroupView where
  members : List EID
  merged : Payload
  conflicts : List (String × List (String × Value))
deriving DecidableEq

structure EntityView where
  eid : EID
  kind : String
  attributes : Payload
  owningTenant : String
  sources : List EntityRow
  observedAt : ℤ
  recordedAt : ℤ
  collapseGroup : Option CollapseGroupView
deriving DecidableEq

structure GetEntityOpts where
  asOf : Option ℤ
  collapseGroup : Bool
  cut : TenantCut

structure EdgeFilter where
  fromEID : Option EID
  toEID : Option EID
  types : List String
  source : String
  cut : TenantCut
  limit : ℤ
  /-- The decoded cursor: the last key of the page before. -/
  after : Option String

structure EdgeView where
  edgeType : String
  fromEID : EID
  toEID : EID
  attributes : Option Payload
  source : String
  observedAt : ℤ
  edgeKey : String
deriving DecidableEq

structure DriftState (F : Type) where
  eid : EID
  detectedAt : ℤ
  fields : F
  configRevision : String
  lifecycleStatus : String

def projectedKind : ObservationKind → Bool
  | .desiredState | .driftDiff | .lifecycle | .applyOutcome => false
  | _ => true

def stateAsOf (asOf : ℤ) (r : ObservationRow) : Bool :=
  (r.kind = .state || r.kind = .presence) && r.observedAt ≤ asOf

/-- A later row of the same source. -/
def hidesState (asOf : ℤ) (r' r : ObservationRow) : Bool :=
  r'.subject = r.subject && r'.source = r.source && r'.observedAt ≤ asOf && projectedKind r'.kind &&
    r.id < r'.id

def sameAsText : List Char := "same-as|".toList

def sameAsAsOf (asOf : ℤ) (r : ObservationRow) : Bool :=
  sameAsText.isPrefixOf r.subject.toList && r.observedAt ≤ asOf && r.kind ≠ .absence

def hidesSameAs (asOf : ℤ) (r' r : ObservationRow) : Bool :=
  r'.subject = r.subject && r'.observedAt ≤ asOf &&
    (r.observedAt < r'.observedAt || r'.observedAt = r.observedAt && r.id < r'.id)

def maxCollapseGroupMembers : ℕ := 256

def errCollapseGroupTooLarge : String := "entitygraph: collapse group too large"

/-- The queue and the members of a walk through a group. -/
structure GroupWalk where
  queue : List String
  visited : List String

def GroupWalk.add (w : GroupWalk) (peer : String) : Except String GroupWalk :=
  if peer ∈ w.visited then .ok w
  else if maxCollapseGroupMembers ≤ w.visited.length then .error errCollapseGroupTooLarge
  else .ok ⟨w.queue ++ [peer], w.visited ++ [peer]⟩

/-- Every member is taken from the queue once, so as many rounds as members suffice. -/
def walkGroup (peers : String → Except String (List String)) : ℕ → GroupWalk →
    Except String (List String)
  | 0, w => .ok w.visited
  | n + 1, w =>
    match w.queue with
    | [] => .ok w.visited
    | current :: queue => do
      let found ← peers current
      let w ← found.foldlM GroupWalk.add ⟨queue, w.visited⟩
      walkGroup peers n w

def sortedGroupMembers (visited : List String) : List EID :=
  (visited.filterMap fun x => (parseEID x).toOption).insertionSort fun a b => a.string ≤ b.string

/-- The values of the attributes that others have won over, by attribute and source. -/
def buildConflicts (entries : List SourceEntry) (merged : Payload) :
    List (String × List (String × Value)) :=
  (merged.entries.map fun (k, winner) =>
    (k, (entries.filterMap fun e =>
      ((e.payload.bind fun p => p.get k).filter fun v => v ≠ winner).map fun v =>
        (e.source, v)).insertionSort fun a b => a.1 ≤ b.1)).filter fun c => c.2 ≠ []

namespace Graph

variable (g : Graph)

/-- Whether a subject is inside the cut, which a subject without an index row is not. -/
def inCut (cut : TenantCut) (x : String) : Bool :=
  !cut.active || (g.index.get x).any fun i => cut.visible i.owningTenant

def sameAsPeers (cut : TenantCut) (current : String) : Except String (List String) :=
  let rows := (((g.edges.rows.filter fun e =>
    e.edgeType = "same-as" && (e.fromSubject = current || e.toSubject = current) &&
      g.inCut cut e.fromSubject && g.inCut cut e.toSubject).map fun e =>
        (e.fromSubject, e.toSubject)).dedup).take (maxCollapseGroupMembers + 1)
  if maxCollapseGroupMembers < rows.length then .error errCollapseGroupTooLarge
  else .ok (rows.flatMap fun p => [p.1, p.2])

/-- The same-as edges that were there at a time, whichever source has reported them last. -/
def liveSameAs (asOf : ℤ) : List (String × String) :=
  (unhidden (sameAsAsOf asOf) (hidesSameAs asOf) g.log.rows).filterMap fun r =>
    (cut '|' (r.subject.toList.drop sameAsText.length)).map fun p => (.ofList p.1, .ofList p.2)

def sameAsPeersAsOf (asOf : ℤ) (cut : TenantCut) (current : String) : Except String (List String) :=
  .ok ((g.liveSameAs asOf).flatMap fun (fromEID, toEID) =>
    (if fromEID = current ∧ g.inCut cut toEID then [toEID] else []) ++
      if toEID = current ∧ g.inCut cut fromEID then [fromEID] else [])

def groupMembers (eid : EID) (asOf : Option ℤ) (cut : TenantCut) : Except String (List EID) :=
  let peers := match asOf with
    | none => g.sameAsPeers cut
    | some t => g.sameAsPeersAsOf t cut
  (walkGroup peers (maxCollapseGroupMembers + 1) ⟨[eid.string], [eid.string]⟩).map sortedGroupMembers

def applyTenantCut (members : List EID) (cut : TenantCut) : List EID :=
  members.filter fun m => g.inCut cut m.string

/-- The rows of a member of a group, also those of a desired state. -/
def loadMemberSources (x : String) : List SourceEntry :=
  (g.current.rows.filter fun r => r.subject = x && r.payload ∈ g.contents).map fun r =>
    ⟨r.source, r.sourceClass, r.observedAt, r.payload⟩

def resolveCollapseGroup (eid : EID) (asOf : Option ℤ) (cut : TenantCut) :
    Except String (Option CollapseGroupView) :=
  match g.groupMembers eid asOf cut with
  | .error e => .error e
  | .ok members =>
    let visible := g.applyTenantCut members cut
    if members.length ≤ 1 ∨ visible.length ≤ 1 then .ok none
    else
      let entries := visible.flatMap fun m => g.loadMemberSources m.string
      let merged := mergeAttributes entries
      .ok (some ⟨visible, merged, buildConflicts entries merged⟩)

def loadEntityRowsCurrent (x : String) : List EntityRow :=
  (g.current.rows.filter fun r =>
    r.subject = x && r.payload ∈ g.contents && r.kind ≠ .desiredState).map fun r =>
      ⟨r.source, r.sourceClass, r.kind, r.confidence, r.observedAt, r.recordedAt, r.payload⟩

def loadEntityRowsAsOf (x : String) (asOf : ℤ) : List EntityRow :=
  ((unhidden (stateAsOf asOf) (hidesState asOf) g.log.rows).filter fun r =>
    r.subject = x && r.payload ∈ g.contents).map fun r =>
      ⟨r.source, r.sourceClass, r.kind, r.confidence, r.observedAt, r.recordedAt, r.payload⟩

def entityStateAsOf (x : String) (asOf : ℤ) : Option Payload :=
  match g.loadEntityRowsAsOf x asOf with
  | [] => none
  | rows => some (mergeAttributes (rows.map EntityRow.entry))

def entityNotFound (x : String) : String :=
  "entitygraph/sqlite: entity " ++ x ++ ": entitygraph: not found"

def loadEntityRows (x : String) (asOf : Option ℤ) : List EntityRow :=
  match asOf with
  | none => g.loadEntityRowsCurrent x
  | some t => g.loadEntityRowsAsOf x t

def getEntity (eid : EID) (opts : GetEntityOpts) : Except String EntityView :=
  let x := eid.string
  match g.index.get x with
  | none => .error (entityNotFound x)
  | some i =>
    if opts.cut.visible i.owningTenant then
      match g.loadEntityRows x opts.asOf with
      | [] => .error (entityNotFound x)
      | first :: rest =>
        let win := winningBy EntityRow.entry first rest
        let merged := mergeAttributes ((first :: rest).map EntityRow.entry)
        let view := fun group =>
          EntityView.mk eid i.entityKind merged i.owningTenant (first :: rest) win.observedAt
            win.recordedAt group
        if opts.collapseGroup then (g.resolveCollapseGroup eid opts.asOf opts.cut).map view
        else .ok (view none)
    else .error (entityNotFound x)

def maxEdgePageSize : ℤ := 1000

def clampEdgeLimit (limit : ℤ) : ℕ :=
  (if limit ≤ 0 then maxEdgePageSize else min limit (maxEdgePageSize + 1)).toNat

/-- Rows whose ends are not entities are skipped after the page is cut off. -/
def getEdges (f : EdgeFilter) : List EdgeView :=
  let rows := (g.edges.rows.filter fun e =>
    f.fromEID.all (fun eid => e.fromSubject = eid.string) &&
      f.toEID.all (fun eid => e.toSubject = eid.string) &&
      (f.types = [] || e.edgeType ∈ f.types) && (f.source = "" || e.source = f.source) &&
      g.inCut f.cut e.fromSubject && g.inCut f.cut e.toSubject &&
      f.after.all fun key => key < e.edgeKey).insertionSort fun a b => a.edgeKey ≤ b.edgeKey
  (rows.take (clampEdgeLimit f.limit)).filterMap fun e =>
    match parseEID e.fromSubject, parseEID e.toSubject with
    | .ok fromEID, .ok toEID =>
      let attributes := if e.payload ∈ g.contents then e.payload else some .empty
      some ⟨e.edgeType, fromEID, toEID, attributes, e.source, e.observedAt, e.edgeKey⟩
    | _, _ => none

def normalizeDriftLifecycleStatus (status : String) : String :=
  if status = "" then "detected" else status

/-- The reading of the stored fields is a parameter. -/
def getDriftState {F : Type} (parseDriftFields : Option Value → Except String F) (eid : EID) :
    Except String (DriftState F) :=
  match g.drift.get eid.string with
  | none =>
    .error ("entitygraph/sqlite: drift state for " ++ eid.string ++ ": entitygraph: not found")
  | some d =>
    (parseDriftFields d.fields).map fun fields =>
      ⟨eid, d.detectedAt, fields, d.configRevision, normalizeDriftLifecycleStatus d.lifecycleStatus⟩

end Graph

end Cfgms.EntityGraph
