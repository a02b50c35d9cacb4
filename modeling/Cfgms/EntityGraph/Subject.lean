import Cfgms.Go.Strings

/-! # Subjects of the entity graph

An observation is about an entity, named by an identifier of an authority, or about an edge,
named by its type and its two ends.
-/

namespace Cfgms.EntityGraph

open Go

def registeredAuthorityTypes : List String := ["host", "cluster", "directory", "m365", "cfgms"]

structure EID where
  authorityType : String
  authorityName : String
  localID : String
deriving DecidableEq

/-- The first slash ends the authority segment, and its first colon the authority type. -/
def parseEID (s : String) : Except String EID :=
  if s = "" then .error "entitygraph/eid: empty string is not a valid eid"
  else
    let (authSeg, localID) := (cut '/' s.toList).getD (s.toList, [])
    match cut ':' authSeg with
    | none =>
      .error ("entitygraph/eid: malformed authority segment " ++ (String.ofList authSeg).quote ++
        ": expected 'type:name'")
    | some (authType, authName) =>
      if authType = [] then .error "entitygraph/eid: authority type must not be empty"
      else if authName = [] then
        .error ("entitygraph/eid: authority name must not be empty in segment " ++
          (String.ofList authSeg).quote)
      else if '/' ∈ authName then
        .error ("entitygraph/eid: authority name must not contain '/': " ++
          (String.ofList authName).quote)
      else if String.ofList authType ∉ registeredAuthorityTypes then
        .error ("entitygraph/eid: unregistered authority type " ++ (String.ofList authType).quote)
      else .ok ⟨.ofList authType, .ofList authName, .ofList localID⟩

def EID.string (e : EID) : String :=
  if e.localID = "" then e.authorityType ++ ":" ++ e.authorityName
  else e.authorityType ++ ":" ++ e.authorityName ++ "/" ++ e.localID

/-- The parts of `edge_type|from_eid|to_eid`. -/
def edgeParts (subject : String) : Option (String × String × String) :=
  match splitN '|' 3 subject.toList with
  | [edgeType, fromSubject, toSubject] =>
    some (.ofList edgeType, .ofList fromSubject, .ofList toSubject)
  | _ => none

inductive ObservationKind where
  | state
  | presence
  | absence
  | driftDiff
  | lifecycle
  | desiredState
  | applyOutcome
  | other (text : String)
deriving DecidableEq

/-- The tenants that a caller sees: one tenant with its descendants, or all. -/
structure TenantCut where
  tenant : String
  ids : List String
deriving DecidableEq

def TenantCut.active (c : TenantCut) : Bool := c.tenant ≠ ""

def TenantCut.visible (c : TenantCut) (owningTenant : String) : Bool :=
  !c.active || owningTenant ≠ "" && (owningTenant = c.tenant || owningTenant ∈ c.ids)

end Cfgms.EntityGraph
