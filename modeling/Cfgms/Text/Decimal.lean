import Mathlib

/-! # Decimal text

Numbers written with a fixed number of digits compare as text exactly as they
compare as numbers. Dropping trailing zeros keeps the value of a fraction but not
its place in the text order.
-/

namespace Cfgms.Text

open List

variable {α : Type*} [LT α]

/-- Texts that start with blocks of one length compare block by block. -/
theorem append_lt_append_iff {a b c d : List α} (h : a.length = c.length) :
    a ++ b < c ++ d ↔ a < c ∨ a = c ∧ b < d := by
  induction a generalizing c with
  | nil =>
    obtain rfl : c = [] := length_eq_zero_iff.mp h.symm
    simp
  | cons x a ih =>
    cases c with
    | nil => simp at h
    | cons y c =>
      have hl : a.length = c.length := by simpa using h
      simp only [cons_append, cons_lt_cons_iff, ih hl, List.cons.injEq]
      tauto

theorem append_self_lt_iff {u s t : List Char} : u ++ s < u ++ t ↔ s < t := by
  rw [append_lt_append_iff rfl]
  simp

/-- A number in decimal, filled up with zeros to `w` digits. -/
def padded (w n : ℕ) : String := .ofList ((Nat.toDigits 10 n).leftpad w '0')

theorem padded_injective (w : ℕ) : Function.Injective (padded w) := by
  have hvalue : ∀ n, Nat.ofDigitChars 10 ((Nat.toDigits 10 n).leftpad w '0') 0 = n := by
    intro n
    rw [List.leftpad, Nat.ofDigitChars_append, Nat.ofDigitChars_replicate_zero, Nat.mul_zero]
    exact Nat.ofDigitChars_toDigits (by decide) (by decide)
  intro m n h
  rw [← hvalue m, ← hvalue n, String.ofList_injective h]

def digit (n : ℕ) : Char := Nat.digitChar (n % 10)

/-- The last `w` decimal digits of a number, most significant first. -/
def fixed : ℕ → ℕ → List Char
  | 0, _ => []
  | w + 1, n => fixed w (n / 10) ++ [digit n]

@[simp] theorem length_fixed (w n : ℕ) : (fixed w n).length = w := by
  induction w generalizing n with
  | zero => rfl
  | succ w ih => simp [fixed, ih]

theorem digit_toNat (n : ℕ) : (digit n).toNat = 48 + n % 10 :=
  Nat.toNat_digitChar_of_lt_ten (Nat.mod_lt _ (by decide))

theorem digit_isDigit (n : ℕ) : (digit n).isDigit = true := by
  simp [digit, Nat.isDigit_digitChar, Nat.mod_lt]

theorem digit_lt_digit_iff (m n : ℕ) : digit m < digit n ↔ m % 10 < n % 10 := by
  have h : digit m < digit n ↔ (digit m).toNat < (digit n).toNat := Iff.rfl
  rw [h, digit_toNat, digit_toNat]
  omega

variable {m n w : ℕ}

theorem digit_inj (h : digit m = digit n) : m % 10 = n % 10 := by
  have h' := congrArg Char.toNat h
  rw [digit_toNat, digit_toNat] at h'
  omega

theorem fixed_mod (w n : ℕ) : fixed w (n % 10 ^ w) = fixed w n := by
  induction w generalizing n with
  | zero => rfl
  | succ w ih =>
    have hq : n % 10 ^ (w + 1) / 10 = n / 10 % 10 ^ w := by
      rw [pow_succ, mul_comm, Nat.mod_mul_right_div_self]
    have hd : digit (n % 10 ^ (w + 1)) = digit n := by
      rw [digit, digit, Nat.mod_mod_of_dvd _ (dvd_pow_self 10 (by omega))]
    rw [fixed, fixed, hq, ih, hd]

theorem fixed_injOn (hm : m < 10 ^ w) (hn : n < 10 ^ w) (h : fixed w m = fixed w n) : m = n := by
  induction w generalizing m n with
  | zero => simp at hm hn; omega
  | succ w ih =>
    obtain ⟨h₁, h₂⟩ := append_inj h (by simp)
    have hd := digit_inj (singleton_inj.mp h₂)
    have hq := ih (by rw [pow_succ] at hm; omega) (by rw [pow_succ] at hn; omega) h₁
    omega

theorem fixed_lt_fixed_iff (hm : m < 10 ^ w) (hn : n < 10 ^ w) : fixed w m < fixed w n ↔ m < n := by
  induction w generalizing m n with
  | zero => simp at hm hn; simp [fixed, hm, hn]
  | succ w ih =>
    have hm' : m / 10 < 10 ^ w := by rw [pow_succ] at hm; omega
    have hn' : n / 10 < 10 ^ w := by rw [pow_succ] at hn; omega
    have he : fixed w (m / 10) = fixed w (n / 10) ↔ m / 10 = n / 10 :=
      ⟨fixed_injOn hm' hn', fun h => by rw [h]⟩
    rw [fixed, fixed, append_lt_append_iff (by simp), ih hm' hn', he,
      cons_lt_cons_iff, digit_lt_digit_iff]
    simp only [not_lt_nil, and_false, or_false]
    omega

/-- A fixed-width number at the head of a text is compared first. -/
theorem fixed_append_lt_iff (hm : m < 10 ^ w) (hn : n < 10 ^ w) (s t : List Char) :
    fixed w m ++ s < fixed w n ++ t ↔ m < n ∨ m = n ∧ s < t := by
  rw [append_lt_append_iff (by simp), fixed_lt_fixed_iff hm hn]
  have he : fixed w m = fixed w n ↔ m = n := ⟨fixed_injOn hm hn, fun h => by rw [h]⟩
  rw [he]

/-- Texts that part before either ends compare at the parting, whatever follows. -/
theorem append_lt_append_iff_of_not_isPrefix {u v : List α} (huv : ¬ u <+: v) (hvu : ¬ v <+: u)
    (s t : List α) : u ++ s < v ++ t ↔ u < v := by
  induction u generalizing v with
  | nil => exact absurd nil_prefix huv
  | cons x u ih =>
    cases v with
    | nil => exact absurd nil_prefix hvu
    | cons y v =>
      by_cases hxy : x = y
      · subst hxy
        have huv' : ¬ u <+: v := fun h => huv ((prefix_cons_inj x).mpr h)
        have hvu' : ¬ v <+: u := fun h => hvu ((prefix_cons_inj x).mpr h)
        simp only [cons_append, cons_lt_cons_iff, ih huv' hvu']
      · simp [cons_append, cons_lt_cons_iff, hxy]

/-- A terminator above every character puts a text after its own continuations. -/
theorem terminated_lt_of_isPrefix {u v : List α} {z : α} (hv : ∀ c ∈ v, c < z) (h : u <+: v)
    (hne : u ≠ v) : v ++ [z] < u ++ [z] := by
  obtain ⟨w, rfl⟩ := h
  cases w with
  | nil => simp at hne
  | cons c w =>
    have hc : c < z := hv c (by simp)
    rw [append_assoc, append_lt_append_iff rfl]
    exact Or.inr ⟨rfl, cons_lt_cons_iff.mpr (Or.inl hc)⟩

/-- The `w` decimals of a fraction without their trailing zeros. -/
def trimmed (w n : ℕ) : List Char := (fixed w n).rdropWhile (· == '0')

theorem fixed_eq_trimmed (w n : ℕ) :
    fixed w n = trimmed w n ++ List.replicate (w - (trimmed w n).length) '0' := by
  have hparts := rdropWhile_append_rtakeWhile (l := fixed w n) (p := (· == '0'))
  have hz : (fixed w n).rtakeWhile (· == '0') = List.replicate (w - (trimmed w n).length) '0' := by
    refine eq_replicate_iff.mpr ⟨?_, fun c hc => by simpa using mem_rtakeWhile_imp hc⟩
    have hlength := congrArg length hparts
    rw [length_append, length_fixed] at hlength
    exact (Nat.sub_eq_of_eq_add' hlength.symm).symm
  rw [← hz, trimmed, hparts]

theorem mem_fixed_isDigit {c : Char} (h : c ∈ fixed w n) : c.isDigit = true := by
  induction w generalizing n with
  | zero => simp [fixed] at h
  | succ w ih =>
    rcases mem_append.mp h with h | h
    · exact ih h
    · obtain rfl := mem_singleton.mp h
      exact digit_isDigit n

theorem mem_trimmed_isDigit {c : Char} (h : c ∈ trimmed w n) : c.isDigit = true :=
  mem_fixed_isDigit (( rdropWhile_prefix _ _).subset h)

theorem not_lt_replicate_zero {s : List Char} (hs : ∀ c ∈ s, c.isDigit = true) :
    ¬ s < List.replicate s.length '0' := by
  induction s with
  | nil => simp
  | cons c s ih =>
    have hc : ¬ c < '0' := by
      have := hs c (by simp)
      simp only [Char.isDigit, Bool.and_eq_true, decide_eq_true_eq] at this
      exact Nat.not_lt_of_ge this.1
    rw [length_cons, replicate_succ, cons_lt_cons_iff]
    rintro (h | ⟨-, h⟩)
    · exact hc h
    · exact ih (fun c hc => hs c (mem_cons_of_mem _ hc)) h

variable (hm : m < 10 ^ w)
include hm

variable (hn : n < 10 ^ w)
include hn

theorem trimmed_injOn (h : trimmed w m = trimmed w n) : m = n :=
  fixed_injOn hm hn (by rw [fixed_eq_trimmed, h, ← fixed_eq_trimmed])

theorem trimmed_lt_iff (hmn : ¬ trimmed w m <+: trimmed w n) (hnm : ¬ trimmed w n <+: trimmed w m) :
    trimmed w m < trimmed w n ↔ m < n := by
  rw [← fixed_lt_fixed_iff hm hn, fixed_eq_trimmed, fixed_eq_trimmed w n,
    append_lt_append_iff_of_not_isPrefix hmn hnm]

/-- A fraction whose decimals go on is the larger number. -/
theorem lt_of_trimmed_isPrefix (h : trimmed w m <+: trimmed w n) (hne : m ≠ n) : m < n := by
  obtain ⟨v, hv⟩ := h
  have hk := fixed_eq_trimmed w n
  by_contra hge
  have hlt : fixed w n < fixed w m := (fixed_lt_fixed_iff hn hm).mpr (by omega)
  generalize w - (trimmed w n).length = k at hk
  rw [← hv, append_assoc] at hk
  have hlen : (v ++ List.replicate k '0').length = w - (trimmed w m).length := by
    have hk' := congrArg List.length hk
    rw [length_fixed, length_append] at hk'
    exact (Nat.sub_eq_of_eq_add' hk').symm
  rw [fixed_eq_trimmed w m, hk, append_self_lt_iff, ← hlen] at hlt
  refine not_lt_replicate_zero (fun c hc => ?_) hlt
  exact mem_fixed_isDigit (w := w) (n := n) (by rw [hk]; exact mem_append_right _ hc)

end Cfgms.Text
