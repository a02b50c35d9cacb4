import Cfgms.Go.Map
import Cfgms.Go.PathMatch
import Cfgms.Go.Strings
import Mathlib.Algebra.GroupWithZero.Nat

/-! # Fleet selectors

A selector expression is split into terms, which are merged into one filter, and the filter is
matched against stewards. A later term for a single-valued key replaces an earlier one, and the
IDs of several terms are put together.
-/

namespace Cfgms.Fleet

open Go

structure Steward where
  id : String
  tenantID : String
  status : String
  dnaAttributes : StringMap String

def Steward.attr (s : Steward) (k : String) : String := (s.dnaAttributes.get k).getD ""

structure Filter where
  tenantID : String
  tenantSubtree : String
  tenantSubtreeIDs : List String
  os : String
  platform : String
  architecture : String
  tags : List String
  dnaAttributes : StringMap String
  status : String
  hostname : String
  name : String
  deviceID : String
  ids : List String

def Filter.empty : Filter := ⟨"", "", [], "", "", "", [], .empty, "", "", "", "", []⟩

variable (table : CaseTable)

def splitComma (s : String) : List String := (s.toList.splitOn ',').map String.ofList

def stewardHasTag (s : Steward) (tag : String) : Bool :=
  match s.dnaAttributes.get "tags" with
  | none => false
  | some raw =>
    raw ≠ "" && (splitComma raw).any fun t => pathMatch tag.toList (trimSpace t.toList)

def matchesHostname (pattern hostname : List Char) : Bool :=
  if pattern.getLast? = some '*' then pattern.dropLast.isPrefixOf hostname
  else contains hostname pattern

def matchesName (pattern hostname : String) : Bool :=
  pathMatch (pattern.toList.map table.toLower) (hostname.toList.map table.toLower)

def matchesFilter (s : Steward) (f : Filter) : Bool :=
  (f.deviceID = "" ∨ s.id = f.deviceID) &&
  (f.ids = [] ∨ s.id ∈ f.ids) &&
  (f.tenantID = "" ∨ s.tenantID = f.tenantID) &&
  (f.tenantSubtree = "" ∨ s.tenantID = f.tenantSubtree ∨ s.tenantID ∈ f.tenantSubtreeIDs) &&
  (f.os = "" ∨ s.attr "os" = f.os) &&
  (f.platform = "" ∨ s.attr "platform" = f.platform) &&
  (f.architecture = "" ∨ s.attr "arch" = f.architecture) &&
  (f.status = "" ∨ f.status = "any" ∨ s.status = f.status) &&
  (f.name = "" ∨ matchesName table f.name (s.attr "hostname")) &&
  (f.hostname = "" ∨ matchesHostname f.hostname.toList (s.attr "hostname").toList) &&
  f.tags.all (stewardHasTag s) &&
  f.dnaAttributes.entries.all fun e => s.attr e.1 = e.2

inductive SelectorError where
  | empty
  | emptyKey (position : ℕ)
  | keyWithSpaces (key : String)
  | unterminated (key : String)
  | emptyValue (key : String)
  | emptyDNAKey
  | unknownKey (key : String)
  deriving DecidableEq

structure Term where
  key : String
  value : String
  deriving DecidableEq

def isHex (c : Char) : Bool := c.isDigit || ('a' ≤ c && c ≤ 'f')

/-- The shape of a generated steward ID: the word, then one or two groups of hex digits. -/
def isStewardID (tok : List Char) : Bool :=
  "steward-".toList.isPrefixOf tok &&
    let groups := (tok.drop 8).splitOn '-'
    (groups.length = 1 || groups.length = 2) && groups.all fun g => g ≠ [] && g.all isHex

def byteLength (s : List Char) : ℕ := (s.map Char.utf8Size).sum

def takeValue (key : String) : List Char → Except SelectorError (List Char × List Char)
  | '"' :: rest =>
    if '"' ∈ rest then
      .ok (rest.takeWhile (· ≠ '"'), (rest.dropWhile (· ≠ '"')).tail)
    else .error (.unterminated key)
  | rest => .ok (rest.takeWhile (· ≠ ' '), rest.dropWhile (· ≠ ' '))

/-- The first term of an expression that does not start with a space, and what follows it. -/
def takeTerm (position : ℕ) (expr : List Char) : Except SelectorError (Term × List Char) :=
  let tok := expr.takeWhile (· ≠ ' ')
  if ':' ∉ tok then
    .ok (⟨if isStewardID tok then "id" else "name", .ofList tok⟩, expr.dropWhile (· ≠ ' '))
  else
    let key := expr.takeWhile (· ≠ ':')
    if key = [] then .error (.emptyKey position)
    else if ' ' ∈ key ∨ '\t' ∈ key then .error (.keyWithSpaces (.ofList key))
    else
      match takeValue (.ofList key) (expr.dropWhile (· ≠ ':')).tail with
      | .error err => .error err
      | .ok (value, rest) =>
        if value = [] then .error (.emptyValue (.ofList key))
        else .ok (⟨.ofList key, .ofList value⟩, rest)

/-- Every term takes a character at least, so the length of the expression is enough fuel. -/
def tokenize : ℕ → ℕ → List Char → Except SelectorError (List Term)
  | 0, _, _ => .ok []
  | fuel + 1, position, expr =>
    let start := expr.dropWhile (· = ' ')
    let position := position + (expr.length - start.length)
    if start = [] then .ok []
    else
      match takeTerm position start with
      | .error err => .error err
      | .ok (term, rest) =>
        match tokenize fuel (position + (byteLength start - byteLength rest)) rest with
        | .error err => .error err
        | .ok terms => .ok (term :: terms)

inductive Field where
  | id
  | name
  | os
  | platform
  | arch
  | tag
  | dna (attr : String)
  deriving DecidableEq

def fieldOf (key : String) : Except SelectorError Field :=
  if key = "id" then .ok .id
  else if key = "name" then .ok .name
  else if key = "os" then .ok .os
  else if key = "platform" then .ok .platform
  else if key = "arch" then .ok .arch
  else if key = "tag" then .ok .tag
  else if "dna.".toList.isPrefixOf key.toList then
    if key = "dna." then .error .emptyDNAKey else .ok (.dna (.ofList (key.toList.drop 4)))
  else .error (.unknownKey key)

def Filter.set (f : Filter) (value : String) : Field → Filter
  | .id => { f with ids := f.ids ++ splitComma value }
  | .name => { f with name := value }
  | .os => { f with os := value }
  | .platform => { f with platform := value }
  | .arch => { f with architecture := value }
  | .tag => { f with tags := f.tags ++ [value] }
  | .dna attr => { f with dnaAttributes := f.dnaAttributes.set (attr, value) }

def applyTerm (f : Filter) (t : Term) : Except SelectorError Filter :=
  match fieldOf t.key with
  | .error err => .error err
  | .ok field => .ok (f.set t.value field)

def applyTerms (f : Filter) : List Term → Except SelectorError Filter
  | [] => .ok f
  | t :: ts =>
    match applyTerm f t with
    | .error err => .error err
    | .ok f => applyTerms f ts

/-- The tenant path before the last separator to whose left are path segments alone, and the
rest. -/
def extractTenantPrefix (expr : List Char) : List Char × List Char :=
  let splits := (List.range expr.length).filter fun i =>
    (expr[i]? = some '/' ∨ expr[i]? = some '\\') ∧ i ≠ 0 ∧
      (expr.take i).all fun c => c ≠ ':' ∧ c ≠ ' ' ∧ c ≠ '\t'
  match splits.getLast? with
  | none => ([], expr)
  | some i => ((expr.take i).map fun c => if c = '\\' then '/' else c, expr.drop (i + 1))

def selectorText (expr : List Char) : List Char :=
  trimSpace (extractTenantPrefix (trimSpace expr)).2

def parseTerms (expr : List Char) : Except SelectorError (List Term) :=
  let rest := selectorText expr
  if trimSpace expr = [] ∨ rest = [] then .error .empty
  else if rest = "all".toList then .ok []
  else tokenize rest.length 0 rest

def parse (expr : List Char) : Except SelectorError Filter × List Char :=
  (match parseTerms expr with
    | .error err => .error err
    | .ok terms => applyTerms .empty terms,
   if trimSpace expr = [] then [] else (extractTenantPrefix (trimSpace expr)).1)

end Cfgms.Fleet
