import Mathlib.Data.String.Basic
import Cfgms.Go.Map
import Cfgms.Graph.Kahn

/-! # Module dependencies

The registry rebuilds its dependency graph from the registered modules, checks that every
required dependency is there, and computes the order in which modules are loaded.
-/

namespace Cfgms.Modules

open Go Cfgms.Graph

structure ModuleDependency where
  name : String
  version : String
  optional : Bool

structure ModuleMetadata where
  name : String
  version : String
  moduleDependencies : List ModuleDependency

/-- The graph has a list of dependencies for every module. -/
structure DependencyGraph where
  modules : StringMap ModuleMetadata
  adjacencyList : StringMap (List String)
  keys_eq : adjacencyList.keys = modules.keys

def newDependencyGraph : DependencyGraph := ⟨.empty, .empty, rfl⟩

theorem keys_set_eq {g : DependencyGraph} {name : String} (m : ModuleMetadata)
    (deps : List String) :
    (g.adjacencyList.set (name, deps)).keys = (g.modules.set (name, m)).keys := by
  rw [StringMap.keys_set, StringMap.keys_set, g.keys_eq]

inductive DependencyErrorType where
  | missing
  | versionMismatch
  | invalidVersion
  deriving DecidableEq

structure DependencyError where
  type : DependencyErrorType
  module : String
  dependency : String
  message : String

namespace DependencyGraph

def addModule (g : DependencyGraph) (m : ModuleMetadata) : Except String DependencyGraph :=
  if m.name = "" then .error "module name cannot be empty"
  else
    let deps := (g.adjacencyList.get m.name).getD [] ++ m.moduleDependencies.map (·.name)
    .ok ⟨g.modules.set (m.name, m), g.adjacencyList.set (m.name, deps), keys_set_eq m deps⟩

def dependencies (g : DependencyGraph) (name : String) : List String :=
  (g.adjacencyList.get name).getD []

/-- Every name in the graph, registered or not. -/
def nodes (g : DependencyGraph) : List String :=
  g.modules.keys ++ g.adjacencyList.entries.flatMap (·.2)

def hasCycles (range : RangeOrder) (g : DependencyGraph) : Bool × List String :=
  let (found, s) :=
    searchAll g.dependencies g.nodes.length (range.visit 1 g.modules.keys) .start
  (found, if found then s.cycle else [])

/-- Counting starts with the number of dependencies and the sorted modules without any. -/
def startSort (range : RangeOrder) (g : DependencyGraph) : Kahn String where
  degree m := (g.dependencies m).length
  queue := ((range.visit 2 g.modules.keys).filter fun m =>
    (g.dependencies m).length = 0).insertionSort (· ≤ ·)
  result := []

def topologicalSort (range : RangeOrder) (g : DependencyGraph) : Except String (List String) :=
  let (found, cycle) := g.hasCycles range
  if found then .error ("circular dependency detected: " ++ String.intercalate " -> " cycle)
  else
    let order n := range.visit (n + 3) g.adjacencyList.keys
    .ok ((g.startSort range).run g.dependencies order g.modules.keys.length 0).result

section Validation

-- whether a version satisfies a constraint, or why the constraint makes no sense
variable (isVersionCompatible : String → String → Except String Bool)

def validateDependency (g : DependencyGraph) (moduleName : String) (dep : ModuleDependency) :
    Option DependencyError :=
  match g.modules.get dep.name with
  | none =>
    if dep.optional then none
    else some ⟨.missing, moduleName, dep.name,
      "required dependency '" ++ dep.name ++ "' not found"⟩
  | some depMetadata =>
    if dep.version = "" then none
    else
      match isVersionCompatible depMetadata.version dep.version with
      | .error err => some ⟨.invalidVersion, moduleName, dep.name,
          "invalid version constraint '" ++ dep.version ++ "': " ++ err⟩
      | .ok false => some ⟨.versionMismatch, moduleName, dep.name,
          "version mismatch: required '" ++ dep.version ++ "', found '" ++
            depMetadata.version ++ "'"⟩
      | .ok true => none

def validateAllDependencies (range : RangeOrder) (g : DependencyGraph) : List DependencyError :=
  (range.visit 0 g.modules.keys).flatMap fun name =>
    match g.modules.get name with
    | none => []
    | some m => m.moduleDependencies.filterMap (g.validateDependency isVersionCompatible name)

end Validation

end DependencyGraph

/-- Modules are registered under their names, which are not empty. -/
structure ModuleRegistry where
  modules : StringMap ModuleMetadata
  named : ∀ e ∈ modules.entries, e.2.name = e.1 ∧ e.1 ≠ ""

namespace ModuleRegistry

def dependencies (r : ModuleRegistry) (name : String) : List String :=
  match r.modules.get name with
  | none => []
  | some m => m.moduleDependencies.map (·.name)

def addAll (r : ModuleRegistry) : List String → DependencyGraph →
    Except String DependencyGraph
  | [], g => .ok g
  | name :: names, g =>
    match r.modules.get name with
    | none => r.addAll names g
    | some m =>
      match g.addModule m with
      | .error err => .error err
      | .ok g => r.addAll names g

def buildGraph (range : RangeOrder) (r : ModuleRegistry) : Except String DependencyGraph :=
  r.addAll (range.visit 0 r.modules.keys) newDependencyGraph

end ModuleRegistry

end Cfgms.Modules
