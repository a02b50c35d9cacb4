import Cfgms.Go.Strings

/-! # Version ranges

A range is read into one lower and one upper bound, or into one version. A bound takes the place of
an earlier one on its side, and a constraint without one of the four operators is passed over.
-/

namespace Cfgms.Workflow

open List

structure SemanticVersion where
  major : ℤ
  minor : ℤ
  patch : ℤ
  preRelease : List Char := []
  buildMeta : List Char := []
  deriving DecidableEq

/-- An optional group of the regular expression: a separator and letters, digits, `-` or `.`. -/
def optionalGroup (sep : Char) (s : List Char) : Option (List Char × List Char) :=
  match Go.cut sep s with
  | none => some (s, [])
  | some (before, group) =>
    if group ≠ [] ∧ group.all (fun c => c.isAlphanum ∨ c = '-' ∨ c = '.') then some (before, group)
    else none

def parseNumber (part : String) (digits : List Char) : Except String ℤ :=
  match Go.atoi digits with
  | some n => .ok n
  | none => .error ("invalid " ++ part ++ " version: " ++ String.ofList digits)

def parseSemanticVersion (version : List Char) : Except String SemanticVersion :=
  -- no part before the group of `+` or of `-` has that character in it
  let groups := do
    let (rest, buildMeta) ← optionalGroup '+' version
    let (core, preRelease) ← optionalGroup '-' rest
    let parts := core.splitOn '.'
    if parts.all (fun p => p ≠ [] ∧ p.all Char.isDigit) then some (parts, preRelease, buildMeta)
    else none
  match groups with
  | some ([major, minor, patch], preRelease, buildMeta) => do
    return { major := ← parseNumber "major" major, minor := ← parseNumber "minor" minor,
             patch := ← parseNumber "patch" patch, preRelease, buildMeta }
  | _ => .error ("invalid semantic version format: " ++ String.ofList version)

protected def SemanticVersion.compare (sv other : SemanticVersion) : Ordering :=
  (compare sv.major other.major).then <| (compare sv.minor other.minor).then <|
    (compare sv.patch other.patch).then <|
      match sv.preRelease, other.preRelease with
      | [], [] => .eq
      | [], _ :: _ => .gt
      | _ :: _, [] => .lt
      | p, q => compare p q

structure VersionRange where
  min : Option SemanticVersion := none
  max : Option SemanticVersion := none
  includeMin : Bool := false
  includeMax : Bool := false
  exact : Option SemanticVersion := none
  deriving DecidableEq

inductive Relation | ge | gt | le | lt | eq
  deriving DecidableEq

/-- The operator that a constraint starts with and the version after it. -/
def operator : List Char → Relation × List Char
  | '>' :: '=' :: rest => (.ge, Go.trimSpace rest)
  | '>' :: rest => (.gt, Go.trimSpace rest)
  | '<' :: '=' :: rest => (.le, Go.trimSpace rest)
  | '<' :: rest => (.lt, Go.trimSpace rest)
  | '=' :: rest => (.eq, Go.trimSpace rest)
  | rest => (.eq, rest)

/-- One turn of the loop of `ParseVersionRange`. -/
def VersionRange.constrain (vr : VersionRange) (constraint : List Char) :
    Except String VersionRange :=
  match operator constraint with
  | (.ge, rest) => return { vr with min := ← parseSemanticVersion rest, includeMin := true }
  | (.gt, rest) => return { vr with min := ← parseSemanticVersion rest, includeMin := false }
  | (.le, rest) => return { vr with max := ← parseSemanticVersion rest, includeMax := true }
  | (.lt, rest) => return { vr with max := ← parseSemanticVersion rest, includeMax := false }
  | (.eq, _) => return vr

def hasOperator (rangeStr : List Char) : Bool := rangeStr.any (· ∈ ['<', '>', '=', ','])

def parseVersionRange (rangeStr : List Char) : Except String VersionRange :=
  if hasOperator rangeStr then
    ((rangeStr.splitOn ',').map Go.trimSpace).foldlM VersionRange.constrain { includeMin := true }
  else do return { exact := ← parseSemanticVersion rangeStr }

def VersionRange.satisfies (vr : VersionRange) (version : SemanticVersion) : Bool :=
  match vr.exact with
  | some w => version.compare w = .eq
  | none =>
    (vr.min.all fun w =>
      ¬ (version.compare w = .lt ∨ ¬ vr.includeMin ∧ version.compare w = .eq)) ∧
    vr.max.all fun w => ¬ (version.compare w = .gt ∨ ¬ vr.includeMax ∧ version.compare w = .eq)

def Relation.holds : Relation → Ordering → Bool
  | .ge, o => o ≠ .lt
  | .gt, o => o = .gt
  | .le, o => o ≠ .gt
  | .lt, o => o = .lt
  | .eq, o => o = .eq

/-- The side of a version on which a constraint bounds it from below (`true`) or above. -/
def Relation.side : Relation → Option Bool
  | .ge | .gt => some true
  | .le | .lt => some false
  | .eq => none

def constraints (rangeStr : List Char) : List (List Char) :=
  if hasOperator rangeStr then (rangeStr.splitOn ',').map Go.trimSpace else [rangeStr]

/-- The version that a constraint compares with, unless it is not understood. -/
def operand (constraint : List Char) : Option SemanticVersion :=
  (parseSemanticVersion (operator constraint).2).toOption

def meets (version : SemanticVersion) (constraint : List Char) : Bool :=
  (operand constraint).any fun w => (operator constraint).1.holds (version.compare w)

def lastBound (side : Bool) (cs : List (List Char)) : Option (List Char) :=
  (cs.filter fun c => (operator c).1.side = some side).getLast?

/-- The last lower and the last upper bound, or the version alone. -/
def outerBounds (rangeStr : List Char) : List (List Char) :=
  if hasOperator rangeStr then
    (lastBound true (constraints rangeStr)).toList ++ (lastBound false (constraints rangeStr)).toList
  else [rangeStr]

/-- Every version that meets the bounds meets the constraint. -/
def Follows (bounds : List (List Char)) (c : List Char) : Prop :=
  ∀ v, (∀ b ∈ bounds, meets v b) → meets v c

namespace VersionRange

variable {vr vr' : VersionRange} {c : List Char}

/-- The test of one side. -/
def inside (vr : VersionRange) (v : SemanticVersion) : Bool → Bool
  | true => vr.min.all fun w => ¬ (v.compare w = .lt ∨ ¬ vr.includeMin ∧ v.compare w = .eq)
  | false => vr.max.all fun w => ¬ (v.compare w = .gt ∨ ¬ vr.includeMax ∧ v.compare w = .eq)

theorem constrain_spec (h : vr.constrain c = .ok vr') :
    vr'.exact = vr.exact ∧ ∀ v side, vr'.inside v side =
      if (operator c).1.side = some side then meets v c else vr.inside v side := by
  unfold constrain at h
  unfold meets operand
  rcases hop : operator c with ⟨rel, rest⟩
  rw [hop] at h
  cases rel
  case eq =>
    cases h
    simp [Relation.side]
  all_goals
    cases hw : parseSemanticVersion rest with
    | error e => simp [hw, bind, Except.bind] at h
    | ok w =>
      simp only [hw] at h
      cases h
      refine ⟨rfl, fun v side => ?_⟩
      cases side <;> cases hc : v.compare w <;>
        simp [inside, Relation.side, Relation.holds, Except.toOption, hc]

/-- After the loop each side is tested against its last bound. -/
theorem foldlM_constrain {cs : List (List Char)} (h : cs.foldlM constrain vr = .ok vr') :
    vr'.exact = vr.exact ∧
      ∀ v side, vr'.inside v side = ((lastBound side cs).map (meets v)).getD (vr.inside v side) := by
  induction cs generalizing vr with
  | nil =>
    cases h
    simp [lastBound]
  | cons c cs ih =>
    rw [foldlM_cons] at h
    cases hc : vr.constrain c with
    | error e =>
      rw [hc] at h
      cases h
    | ok vr₁ =>
      rw [hc] at h
      obtain ⟨hexact, hside⟩ := constrain_spec hc
      obtain ⟨hexact', hrest⟩ := ih h
      refine ⟨hexact'.trans hexact, fun v side => ?_⟩
      rw [hrest, hside]
      unfold lastBound
      by_cases hc : (operator c).1.side = some side
      · rw [if_pos hc, filter_cons_of_pos (by simpa using hc), getLast?_cons]
        cases (cs.filter fun c => (operator c).1.side = some side).getLast? <;> rfl
      · rw [if_neg hc, filter_cons_of_neg (by simpa using hc)]

end VersionRange

theorem operator_of_not_hasOperator {s : List Char} (h : hasOperator s = false) :
    operator s = (.eq, s) := by
  unfold operator
  split <;> simp_all [hasOperator]

theorem parseVersionRange_satisfies {rangeStr : List Char} {r : VersionRange}
    (h : parseVersionRange rangeStr = .ok r) (v : SemanticVersion) :
    r.satisfies v ↔ ∀ b ∈ outerBounds rangeStr, meets v b := by
  unfold parseVersionRange at h
  split at h
  · rename_i hop
    rw [← show constraints rangeStr = (rangeStr.splitOn ',').map Go.trimSpace from if_pos hop] at h
    obtain ⟨hexact, hinside⟩ := VersionRange.foldlM_constrain h
    have hsat : r.satisfies v = (r.inside v true && r.inside v false) := by
      simp [VersionRange.satisfies, VersionRange.inside, hexact]
    rw [hsat, hinside, hinside, outerBounds, if_pos hop]
    cases lastBound true (constraints rangeStr) <;> cases lastBound false (constraints rangeStr) <;>
      simp [VersionRange.inside]
  · rename_i hop
    cases hw : parseSemanticVersion rangeStr with
    | error e =>
      rw [hw] at h
      cases h
    | ok w =>
      rw [hw] at h
      cases h
      have hop' := operator_of_not_hasOperator (Bool.not_eq_true _ ▸ hop)
      simp [outerBounds, hop, operand, meets, hop', hw, Except.toOption, VersionRange.satisfies,
        Relation.holds]

theorem outerBounds_subset (rangeStr : List Char) :
    ∀ b ∈ outerBounds rangeStr, b ∈ constraints rangeStr := by
  unfold outerBounds
  split_ifs with hop
  · simp only [mem_append, Option.mem_toList, lastBound]
    rintro b (hb | hb)
    · exact mem_of_mem_filter (mem_of_getLast? hb)
    · exact mem_of_mem_filter (mem_of_getLast? hb)
  · simp [constraints, hop]

/-- A range is the conjunction of its constraints where all of them are understood and follow from
the last bounds. -/
theorem satisfies_iff_meets {rangeStr : List Char} {r : VersionRange}
    (hparse : parseVersionRange rangeStr = .ok r) :
    ((∀ c ∈ constraints rangeStr, (operand c).isSome) ∧
        ∀ v, r.satisfies v ↔ ∀ c ∈ constraints rangeStr, meets v c) ↔
      ∀ c ∈ constraints rangeStr, (operand c).isSome ∧ Follows (outerBounds rangeStr) c := by
  have hsat := parseVersionRange_satisfies hparse
  constructor
  · rintro ⟨hsome, hmeets⟩ c hc
    exact ⟨hsome c hc, fun v hv => (hmeets v).mp ((hsat v).mpr hv) c hc⟩
  · intro h
    refine ⟨fun c hc => (h c hc).1, fun v => ⟨fun hv c hc => ?_, fun hv => ?_⟩⟩
    · exact (h c hc).2 v ((hsat v).mp hv)
    · exact (hsat v).mpr fun b hb => hv b (outerBounds_subset _ b hb)

theorem SemanticVersion.compare_lt_of_major {v w w' : SemanticVersion} (h : v.compare w = .lt)
    (hw : w.major < w'.major) : v.compare w' = .lt := by
  simp only [SemanticVersion.compare, Ordering.then_eq_lt, Int.compare_eq_lt, Int.compare_eq_eq]
    at h ⊢
  omega

theorem satisfies_iff_meets_stricter :
    (∀ c ∈ constraints "<3.0.0, >=1.0.0, >= 2.0.0".toList, (operand c).isSome) ∧
      ∀ v, VersionRange.satisfies
          ⟨some ⟨2, 0, 0, [], []⟩, some ⟨3, 0, 0, [], []⟩, true, false, none⟩ v ↔
        ∀ c ∈ constraints "<3.0.0, >=1.0.0, >= 2.0.0".toList, meets v c := by
  refine (satisfies_iff_meets (by decide +kernel)).mpr ?_
  have hcs : constraints "<3.0.0, >=1.0.0, >= 2.0.0".toList =
      ["<3.0.0".toList, ">=1.0.0".toList, ">= 2.0.0".toList] := by decide +kernel
  have hbounds : outerBounds "<3.0.0, >=1.0.0, >= 2.0.0".toList =
      [">= 2.0.0".toList, "<3.0.0".toList] := by decide +kernel
  have hge : ∀ c ∈ [(">=1.0.0", (1 : ℤ)), (">= 2.0.0", 2)], (operator c.1.toList).1 = .ge ∧
      operand c.1.toList = some ⟨c.2, 0, 0, [], []⟩ := by decide +kernel
  have hmeets : ∀ v, meets v ">= 2.0.0".toList → meets v ">=1.0.0".toList := by
    intro v
    obtain ⟨⟨hop₁, hw₁⟩, ⟨hop₂, hw₂⟩, -⟩ := forall_mem_cons.mp hge |>.imp_right forall_mem_cons.mp
    simp only [meets, hop₁, hw₁, hop₂, hw₂, Option.any_some, Relation.holds, decide_eq_true_eq]
    exact fun h hlt => h (SemanticVersion.compare_lt_of_major hlt (by decide))
  rw [hcs, hbounds]
  simp only [forall_mem_cons, Follows]
  exact ⟨⟨by decide +kernel, fun v h => h.2.1⟩, ⟨by decide +kernel, fun v h => hmeets v h.1⟩,
    ⟨by decide +kernel, fun v h => h.1⟩, by simp⟩

/-- The second lower bound replaces the first, and what is not understood is passed over. -/
theorem bound_replaced :
    (∃ r, parseVersionRange ">=2.0.0,>=1.0.0".toList = .ok r ∧ r.satisfies ⟨1, 5, 0, [], []⟩ ∧
      ∃ c ∈ constraints ">=2.0.0,>=1.0.0".toList, ¬ meets ⟨1, 5, 0, [], []⟩ c) ∧
    (∃ r, parseVersionRange "=2.0.0".toList = .ok r ∧ r.satisfies ⟨1, 5, 0, [], []⟩ ∧
      ¬ meets ⟨1, 5, 0, [], []⟩ "=2.0.0".toList) ∧
    (∃ r, parseVersionRange "~1,<2.0.0".toList = .ok r ∧ operand "~1".toList = none) := by
  refine ⟨⟨_, rfl, ?_⟩, ⟨_, rfl, ?_⟩, _, rfl, ?_⟩ <;> decide +kernel

end Cfgms.Workflow
