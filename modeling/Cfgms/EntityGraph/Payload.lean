import Cfgms.EntityGraph.Subject
import Mathlib.Data.List.Sort
import Mathlib.Data.String.Basic

/-! # Payloads of observations

A payload is stored by the hash of its JSON text, where the keys stand in order. Neither texts nor
hashes collide, so a payload stands for its hash. The sources that assert an entity are ranked by
their class, and the newest one is first in its class.
-/

namespace Cfgms.EntityGraph

open Go List

inductive Item where
  | string (s : String)
  | other (json : String)
deriving DecidableEq

/-- A JSON value, as text where no function looks into it. -/
inductive Value where
  | string (s : String)
  | array (items : List Item)
  | other (json : String)
deriving DecidableEq

def insertEntry (e : String × Value) : List (String × Value) → List (String × Value)
  | [] => [e]
  | e' :: es =>
    if e.1 < e'.1 then e :: e' :: es
    else if e'.1 < e.1 then e' :: insertEntry e es
    else e :: es

def SortedKeys (es : List (String × Value)) : Prop := es.Pairwise fun e e' => e.1 < e'.1

variable {es : List (String × Value)}

theorem mem_insertEntry {e e' : String × Value} (h : e' ∈ insertEntry e es) : e' = e ∨ e' ∈ es := by
  fun_induction insertEntry e es with
  | case1 => simpa using h
  | case2 => simpa using h
  | case3 d es _ _ ih =>
    rcases mem_cons.mp h with rfl | h
    · exact .inr mem_cons_self
    · exact (ih h).imp_right (mem_cons_of_mem d)
  | case4 d => exact (mem_cons.mp h).imp_right (mem_cons_of_mem d)

theorem SortedKeys.insertEntry (h : SortedKeys es)
    (e : String × Value) : SortedKeys (insertEntry e es) := by
  fun_induction EntityGraph.insertEntry e es with
  | case1 => exact pairwise_singleton _ e
  | case2 d es hlt =>
    refine pairwise_cons.mpr ⟨fun e' he' => ?_, h⟩
    rcases mem_cons.mp he' with rfl | he'
    · exact hlt
    · exact hlt.trans ((pairwise_cons.mp h).1 e' he')
  | case3 d es _ hlt ih =>
    obtain ⟨hd, hes⟩ := pairwise_cons.mp h
    refine pairwise_cons.mpr ⟨fun e' he' => ?_, ih hes⟩
    rcases mem_insertEntry he' with rfl | he'
    · exact hlt
    · exact hd e' he'
  | case4 d es hge hle =>
    obtain ⟨hd, hes⟩ := pairwise_cons.mp h
    have heq : e.1 = d.1 := le_antisymm (not_lt.mp hle) (not_lt.mp hge)
    exact pairwise_cons.mpr ⟨fun e' he' => heq ▸ hd e' he', hes⟩

structure Payload where
  entries : List (String × Value)
  sorted : SortedKeys entries
deriving DecidableEq

instance : LawfulBEq (Option Payload) := inferInstance

namespace Payload

def empty : Payload := ⟨[], List.Pairwise.nil⟩

def get (p : Payload) (k : String) : Option Value :=
  (p.entries.find? fun e => e.1 = k).map Prod.snd

def set (p : Payload) (e : String × Value) : Payload :=
  ⟨insertEntry e p.entries, p.sorted.insertEntry e⟩

def filter (p : Payload) (q : String → Bool) : Payload :=
  ⟨p.entries.filter fun e => q e.1, p.sorted.filter _⟩

def ofList (es : List (String × Value)) : Payload := es.foldl set empty

end Payload

/-- The attribute as a string, `""` where it is absent or of another type. -/
def extractString (m : Option Payload) (key : String) : String :=
  match m.bind fun p => p.get key with
  | some (.string s) => s
  | _ => ""

def extractStringList (m : Option Payload) (key : String) : String :=
  match m.bind fun p => p.get key with
  | some (.array items) =>
    ",".intercalate (items.filterMap fun
      | .string s => some s
      | .other _ => none)
  | some (.string s) => s
  | _ => ""

/-- The owning tenant under the first of the two keys that holds a text. -/
def tenantPathOf (payload : Option Payload) : String :=
  if extractString payload "tenant_path" ≠ "" then extractString payload "tenant_path"
  else extractString payload "owning_tenant"

def withResolvedTenant (payload : Option Payload) (tenant : String) : Payload :=
  ((payload.getD .empty).filter fun k => k ≠ "tenant_path" && k ≠ "owning_tenant").set
    ("owning_tenant", .string tenant)

inductive SourceClass where
  | enforcingModule
  | managingIntegration
  | observer
  | operatorAssertion
  | correlatorInference
deriving DecidableEq

/-- The part of a string before the first occurrence of a character, if it occurs. -/
def beforeChar (c : Char) (s : String) : Option String :=
  (cut c s.toList).map fun parts => .ofList parts.1

def resolveSourceClass (source : String) : SourceClass :=
  match (beforeChar ':' source).getD source with
  | "enforcing-module" => .enforcingModule
  | "managing-integration" => .managingIntegration
  | "operator-assertion" => .operatorAssertion
  | "correlator-inference" => .correlatorInference
  | _ => .observer

/-- The place of the class in the precedence order, the first of which wins. -/
def sourceClassRank : SourceClass → ℕ
  | .enforcingModule => 0
  | .managingIntegration => 1
  | .observer => 2
  | .operatorAssertion => 3
  | .correlatorInference => 4

structure SourceEntry where
  source : String
  sourceClass : SourceClass
  observedAt : ℤ
  payload : Option Payload
deriving DecidableEq

/-- Whether a source comes before the best one so far: a higher class, or newer in its class. -/
def beats (s best : SourceEntry) : Bool :=
  sourceClassRank s.sourceClass < sourceClassRank best.sourceClass ||
    sourceClassRank s.sourceClass = sourceClassRank best.sourceClass &&
      best.observedAt < s.observedAt

/-- The item of the winning source, the first one where none beats another. -/
def winningBy {α : Type*} (entry : α → SourceEntry) (first : α) (rest : List α) : α :=
  rest.foldl (fun best r => if beats (entry r) (entry best) then r else best) first

/-- The order in which attributes are assigned: the winning source comes last. -/
def assignedBefore (s s' : SourceEntry) : Prop :=
  sourceClassRank s'.sourceClass < sourceClassRank s.sourceClass ∨
    sourceClassRank s.sourceClass = sourceClassRank s'.sourceClass ∧ s.observedAt ≤ s'.observedAt

instance : DecidableRel assignedBefore :=
  fun s s' => inferInstanceAs (Decidable (_ ∨ _ ∧ s.observedAt ≤ s'.observedAt))

def mergeAttributes (sources : List SourceEntry) : Payload :=
  (sources.insertionSort assignedBefore).foldl
    (fun merged s => ((s.payload.getD .empty).entries).foldl Payload.set merged) .empty

theorem winningBy_mem {α : Type*} (entry : α → SourceEntry) (first : α) (rest : List α) :
    winningBy entry first rest ∈ first :: rest := by
  induction rest generalizing first with
  | nil => exact mem_singleton_self first
  | cons r rest ih =>
    rw [winningBy, foldl_cons]
    split
    · exact mem_cons_of_mem first (ih r)
    · exact cons_subset_cons first (subset_cons_self r rest) (ih first)

end Cfgms.EntityGraph
