import Mathlib.Data.List.Count

/-! # Path patterns

The patterns of `path.Match`: a star stands for characters other than the slash, a question
mark for one of them, and brackets for one character of a set.
-/

namespace Cfgms.Go

inductive Glob where
  | star
  | any
  | set (negated : Bool) (ranges : List (Char × Char))
  | char (c : Char)

/-- A character that the pattern does not end with. -/
def takeChar : List Char → Option (Char × List Char)
  | c :: d :: rest => some (c, d :: rest)
  | _ => none

/-- A character of a set, which may be escaped. -/
def getEsc : List Char → Option (Char × List Char)
  | '-' :: _ => none
  | ']' :: _ => none
  | '\\' :: rest => takeChar rest
  | rest => takeChar rest

/-- The ranges of a set, up to the bracket that closes it. -/
def parseRanges : ℕ → List (Char × Char) → List Char → Option (List (Char × Char) × List Char)
  | 0, _, _ => none
  | fuel + 1, ranges, chunk =>
    if chunk.head? = some ']' ∧ ranges ≠ [] then some (ranges, chunk.tail)
    else
      match getEsc chunk with
      | none => none
      | some (lo, '-' :: rest) =>
        match getEsc rest with
        | none => none
        | some (hi, rest) => parseRanges fuel (ranges ++ [(lo, hi)]) rest
      | some (lo, rest) => parseRanges fuel (ranges ++ [(lo, lo)]) rest

/-- The terms of a pattern, unless it is malformed. -/
def parseGlob : ℕ → List Char → Option (List Glob)
  | _, [] => some []
  | 0, _ :: _ => none
  | fuel + 1, c :: rest =>
    match c with
    | '*' => (parseGlob fuel rest).map (.star :: ·)
    | '?' => (parseGlob fuel rest).map (.any :: ·)
    | '[' =>
      let negated := rest.head? = some '^'
      match parseRanges (fuel + 1) [] (if negated then rest.tail else rest) with
      | none => none
      | some (ranges, rest) => (parseGlob fuel rest).map (.set negated ranges :: ·)
    | '\\' =>
      match rest with
      | [] => none
      | d :: rest => (parseGlob fuel rest).map (.char d :: ·)
    | c => (parseGlob fuel rest).map (.char c :: ·)

/-- Some characters other than the slash, and then what `k` asks for. -/
def skipping (k : List Char → Bool) : List Char → Bool
  | [] => k []
  | c :: cs => k (c :: cs) || (c != '/' && skipping k cs)

def matchGlobs : List Glob → List Char → Bool
  | [], s => s.isEmpty
  | .star :: ps, s => skipping (matchGlobs ps) s
  | .any :: ps, c :: cs => c != '/' && matchGlobs ps cs
  | .set negated ranges :: ps, c :: cs =>
    ((ranges.any fun r => decide (r.1 ≤ c ∧ c ≤ r.2)) != negated) && matchGlobs ps cs
  | .char d :: ps, c :: cs => c == d && matchGlobs ps cs
  | _ :: _, [] => false

def pathMatch (pattern name : List Char) : Bool :=
  match parseGlob pattern.length pattern with
  | none => false
  | some ps => matchGlobs ps name

theorem length_parseGlob {fuel : ℕ} {pattern : List Char} {ps : List Glob}
    (h : parseGlob fuel pattern = some ps) : ps.length ≤ fuel := by
  have hcons : ∀ {n : ℕ} {g : Glob} {rest : List Char} {qs : List Glob},
      (∀ {qs'}, parseGlob n rest = some qs' → qs'.length ≤ n) →
      (parseGlob n rest).map (g :: ·) = some qs → qs.length ≤ n + 1 := by
    intro n g rest qs hrest hmap
    obtain ⟨qs', hqs', rfl⟩ := Option.map_eq_some_iff.mp hmap
    simpa using hrest hqs'
  revert h
  fun_induction parseGlob fuel pattern generalizing ps with intro h
  | case1 =>
    cases h
    simp
  | case2 | case5 | case7 => cases h
  | case3 | case4 | case6 | case8 | case9 =>
    rename_i ih
    exact hcons ih h

theorem count_slash_le {ps : List Glob} {s : List Char} (h : matchGlobs ps s = true) :
    s.count '/' ≤ ps.length := by
  have hskip : ∀ (k : List Char → Bool) (n : ℕ), (∀ s, k s = true → s.count '/' ≤ n) →
      ∀ s, skipping k s = true → s.count '/' ≤ n := by
    intro k n hk s
    induction s with
    | nil => exact fun h => hk [] h
    | cons c cs ih =>
      intro h
      rcases Bool.or_eq_true_iff.mp h with h | h
      · exact hk _ h
      obtain ⟨hc, h⟩ := Bool.and_eq_true_iff.mp h
      rw [List.count_cons_of_ne (by simpa using hc)]
      exact ih h
  induction ps generalizing s with
  | nil =>
    obtain rfl : s = [] := by simpa [matchGlobs] using h
    simp
  | cons p ps ih =>
    have hone : ∀ (c : Char) (cs : List Char), matchGlobs ps cs = true →
        (c :: cs).count '/' ≤ ps.length + 1 := by
      intro c cs hcs
      have hle := ih hcs
      rw [List.count_cons]
      split <;> omega
    cases p with
    | star => exact Nat.le_succ_of_le (hskip _ _ (fun _ => ih) s h)
    | any | set _ _ | char _ =>
      cases s with
      | nil => cases h
      | cons c cs => exact hone c cs (Bool.and_eq_true_iff.mp h).2

theorem pathMatch_slashes (pattern : List Char) :
    pathMatch pattern (List.replicate (pattern.length + 1) '/') = false := by
  unfold pathMatch
  split
  · rfl
  next ps hps =>
  by_contra hmatch
  have hcount := count_slash_le (Bool.not_eq_false _ ▸ hmatch)
  have hlength := length_parseGlob hps
  rw [List.count_replicate_self] at hcount
  omega

end Cfgms.Go
