import Mathlib.Data.List.DropRight

/-! # Strings

Functions of the standard library on the characters of a string.
-/

namespace Cfgms.Go

open List

def isSpace (c : Char) : Bool :=
  c ∈ ['\t', '\n', '\x0b', '\x0c', '\r', ' ', '\u0085', '\u00a0', '\u1680', '\u2028',
    '\u2029', '\u202f', '\u205f', '\u3000'] ∨ '\u2000' ≤ c ∧ c ≤ '\u200a'

def trimSpace (s : List Char) : List Char := (s.dropWhile isSpace).rdropWhile isSpace

/-- Lower case by a table of Unicode, which on ASCII is the usual one. -/
structure CaseTable where
  toLower : Char → Char
  ascii : ∀ c, c.val < 128 → toLower c = c.toLower

def CaseTable.asciiOnly : CaseTable := ⟨Char.toLower, fun _ _ => rfl⟩

/-- The number that some digits stand for. -/
def digitsValue (s : List Char) : Option ℕ :=
  if s ≠ [] ∧ s.all Char.isDigit then some (s.foldl (fun n c => 10 * n + (c.toNat - 48)) 0)
  else none

/-- `strconv.Atoi`: an optional sign and decimal digits, in 64 bits. -/
def atoi (s : List Char) : Option ℤ :=
  let value : Option ℤ :=
    match s with
    | '-' :: rest => (digitsValue rest).map fun n => -(n : ℤ)
    | '+' :: rest => (digitsValue rest).map fun n => (n : ℤ)
    | _ => (digitsValue s).map fun n => (n : ℤ)
  value.filter fun v => -9223372036854775808 ≤ v ∧ v ≤ 9223372036854775807

def contains (s sub : List Char) : Bool := s.tails.any sub.isPrefixOf

def cut (sep : Char) (s : List Char) : Option (List Char × List Char) :=
  if sep ∈ s then some (s.takeWhile (· ≠ sep), (s.dropWhile (· ≠ sep)).tail) else none

theorem cut_eq_some_iff {sep : Char} {s a b : List Char} :
    cut sep s = some (a, b) ↔ s = a ++ sep :: b ∧ sep ∉ a := by
  constructor
  · intro h
    unfold cut at h
    split at h
    · rename_i hmem
      obtain ⟨rfl, rfl⟩ := h
      refine ⟨?_, fun hm => by simpa using mem_takeWhile_imp hm⟩
      have hne : s.dropWhile (· ≠ sep) ≠ [] := by
        intro hnil
        rw [dropWhile_eq_nil_iff] at hnil
        simpa using hnil sep hmem
      have hhead : (s.dropWhile (· ≠ sep)).head hne = sep := by
        simpa using head_dropWhile_not (· ≠ sep) hne
      calc s = s.takeWhile (· ≠ sep) ++ s.dropWhile (· ≠ sep) :=
            takeWhile_append_dropWhile.symm
        _ = s.takeWhile (· ≠ sep) ++ sep :: (s.dropWhile (· ≠ sep)).tail := by
            rw [← cons_head_tail hne, hhead, tail_cons]
    · simp at h
  · rintro ⟨rfl, hnot⟩
    have hne : ∀ c ∈ a, decide (c ≠ sep) = true := by
      intro c hc
      exact decide_eq_true fun heq => hnot (heq ▸ hc)
    rw [cut, if_pos (by simp), takeWhile_append_of_pos hne, dropWhile_append_of_pos hne]
    simp

/-- `strings.SplitN` at a character, for a positive number of parts. -/
def splitN (sep : Char) : ℕ → List Char → List (List Char)
  | 0, _ => []
  | 1, s => [s]
  | n + 2, s =>
    match cut sep s with
    | some (part, rest) => part :: splitN sep (n + 1) rest
    | none => [s]

end Cfgms.Go
