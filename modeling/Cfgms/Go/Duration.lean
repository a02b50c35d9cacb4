import Cfgms.Text.Decimal

/-! # Durations as text

`time.Duration.String` and `time.ParseDuration` over nanosecond counts. Parsing adds
a fraction through a `float64` product, so the rounding of that product is part of
the model; on every text that `String` prints, the product is exact.
-/

namespace Cfgms.Go

open Text List

/-- Round a nonnegative rational to an integer, ties to even. -/
def roundHalfEven (x : ℚ) : ℤ :=
  let f := ⌊x⌋
  if x - f < 1 / 2 then f
  else if 1 / 2 < x - f then f + 1
  else if f % 2 = 0 then f else f + 1

/-- The `float64` nearest to a nonnegative rational of normal magnitude. -/
def toFloat64 (q : ℚ) : ℚ :=
  if q = 0 then 0
  else
    let ulp : ℚ := 2 ^ (Int.log 2 q - 52)
    roundHalfEven (q / ulp) * ulp

theorem roundHalfEven_intCast (n : ℤ) : roundHalfEven n = n := by
  simp [roundHalfEven]

theorem toFloat64_natCast {n : ℕ} (h : n < 2 ^ 53) : toFloat64 n = n := by
  unfold toFloat64
  split
  · simp_all
  rename_i hn
  have hn0 : n ≠ 0 := by simpa using hn
  have hlog : Nat.log 2 n ≤ 52 := by
    have := (Nat.log_lt_iff_lt_pow (b := 2) (by decide) hn0).mpr h
    omega
  -- the last bit of a mantissa of this size weighs at most one
  have hulp : (n : ℚ) / 2 ^ (Int.log 2 (n : ℚ) - 52) =
      ((n * 2 ^ (52 - Nat.log 2 n) : ℕ) : ℤ) := by
    rw [Int.log_natCast, div_eq_mul_inv, ← zpow_neg, neg_sub]
    have he : (52 : ℤ) - (Nat.log 2 n : ℤ) = ((52 - Nat.log 2 n : ℕ) : ℤ) := by omega
    rw [he, zpow_natCast]
    push_cast
    ring
  simp only [hulp, roundHalfEven_intCast]
  rw [← hulp]
  exact div_mul_cancel₀ _ (zpow_ne_zero _ (by norm_num))

theorem toFloat64_two_pow (k : ℕ) : toFloat64 ((2 ^ k : ℕ) : ℚ) = ((2 ^ k : ℕ) : ℚ) := by
  have hlog : Int.log 2 ((2 ^ k : ℕ) : ℚ) = k := by
    rw [Int.log_natCast, Nat.log_pow (by decide)]
  have hmantissa : ((2 ^ k : ℕ) : ℚ) / 2 ^ ((k : ℤ) - 52) = ((2 ^ 52 : ℤ) : ℚ) := by
    rw [Nat.cast_pow, ← zpow_natCast, Nat.cast_ofNat, ← zpow_sub₀ (by norm_num), sub_sub_cancel]
    norm_num
  unfold toFloat64
  rw [if_neg (by positivity)]
  dsimp only
  rw [hlog, hmantissa, roundHalfEven_intCast, ← hmantissa]
  exact div_mul_cancel₀ _ (zpow_ne_zero _ (by norm_num))

theorem floor_le_roundHalfEven (x : ℚ) : ⌊x⌋ ≤ roundHalfEven x := by
  unfold roundHalfEven
  dsimp only
  split_ifs <;> omega

/-- The `float64` nearest to a natural number is one, and zero only for zero. -/
theorem exists_toFloat64_natCast (n : ℕ) : ∃ m : ℕ, toFloat64 n = m ∧ (m = 0 ↔ n = 0) := by
  rcases lt_or_ge n (2 ^ 53) with hlt | hge
  · exact ⟨n, toFloat64_natCast hlt, Iff.rfl⟩
  have hn0 : n ≠ 0 := by
    rintro rfl
    exact absurd hge (by decide)
  -- the last bit of a mantissa of this size weighs a power of two
  obtain ⟨k, hk⟩ : ∃ k : ℕ, Nat.log 2 n = k + 52 := by
    have hlog := Nat.log_mono_right (b := 2) hge
    rw [Nat.log_pow (by decide)] at hlog
    exact ⟨Nat.log 2 n - 52, by omega⟩
  have hulp : (2 : ℚ) ^ (Int.log 2 (n : ℚ) - 52) = ((2 ^ k : ℕ) : ℚ) := by
    rw [Int.log_natCast, hk]
    push_cast
    rw [add_sub_cancel_right, zpow_natCast]
  have hone : 1 ≤ roundHalfEven ((n : ℚ) / ((2 ^ k : ℕ) : ℚ)) := by
    refine le_trans ?_ (floor_le_roundHalfEven _)
    rw [Int.le_floor, Int.cast_one, le_div_iff₀ (by positivity), one_mul]
    have hpow : 2 ^ k ≤ n := calc
      2 ^ k ≤ 2 ^ Nat.log 2 n := Nat.pow_le_pow_right (by decide) (by omega)
      _ ≤ n := Nat.pow_log_le_self 2 hn0
    exact_mod_cast hpow
  obtain ⟨r, hr⟩ := Int.eq_ofNat_of_zero_le (zero_le_one.trans hone)
  rw [hr] at hone
  refine ⟨r * 2 ^ k, ?_, ?_⟩
  · simp only [toFloat64, if_neg (show (n : ℚ) ≠ 0 by exact_mod_cast hn0), hulp, hr]
    push_cast
    rfl
  · have hpos : 2 ^ k ≠ 0 := by positivity
    rw [Nat.mul_eq_zero]
    omega

/-- The value of `uint64(float64(f) * (float64(unit) / scale))`. -/
def fractionUnits (f unit scale : ℕ) : ℕ :=
  ⌊toFloat64 (toFloat64 f * toFloat64 (toFloat64 unit / toFloat64 scale))⌋₊

variable {unit : ℕ}

theorem fractionUnits_exact {f scale : ℕ} (hd : scale ∣ unit) (hs : 0 < scale)
    (hu : unit < 2 ^ 53) (hf : f * (unit / scale) < 2 ^ 53) (hq : 0 < unit / scale) :
    fractionUnits f unit scale = f * (unit / scale) := by
  obtain ⟨q, rfl⟩ := hd
  rw [Nat.mul_div_cancel_left q hs] at hf hq ⊢
  have hf' : f < 2 ^ 53 := lt_of_le_of_lt (Nat.le_mul_of_pos_right f hq) hf
  have hs' : scale < 2 ^ 53 := lt_of_le_of_lt (Nat.le_mul_of_pos_right scale hq) hu
  have hq' : q < 2 ^ 53 := lt_of_le_of_lt (Nat.le_mul_of_pos_left q hs) hu
  have hdiv : ((scale * q : ℕ) : ℚ) / (scale : ℚ) = (q : ℚ) := by
    push_cast
    field_simp
  have hmul : (f : ℚ) * (q : ℚ) = ((f * q : ℕ) : ℚ) := by push_cast; rfl
  rw [fractionUnits, toFloat64_natCast hf', toFloat64_natCast hu, toFloat64_natCast hs', hdiv,
    toFloat64_natCast hq', hmul, toFloat64_natCast hf, Nat.floor_natCast]

def fmtInt (v : ℕ) : List Char := Nat.toDigits 10 v

/-- The loop of `fmtFrac`: digits from the last, none before the first nonzero one. -/
def fmtFracLoop : ℕ → ℕ → List Char → List Char × ℕ
  | 0, v, out => (out, v)
  | prec + 1, v, out =>
    fmtFracLoop prec (v / 10) (if out ≠ [] ∨ v % 10 ≠ 0 then digit v :: out else out)

def fmtFrac (v prec : ℕ) : List Char × ℕ :=
  let (digits, rest) := fmtFracLoop prec v []
  (if digits ≠ [] then '.' :: digits else [], rest)

/-- The text of `Duration.String` after the sign. -/
def durationBody (u : ℕ) : List Char :=
  if u < 10 ^ 9 then
    -- below a second the unit is the largest one that leaves a nonzero integer part
    if u = 0 then ['0', 's']
    else if u < 10 ^ 3 then fmtInt (fmtFrac u 0).2 ++ (fmtFrac u 0).1 ++ ['n', 's']
    else if u < 10 ^ 6 then fmtInt (fmtFrac u 3).2 ++ (fmtFrac u 3).1 ++ ['µ', 's']
    else fmtInt (fmtFrac u 6).2 ++ (fmtFrac u 6).1 ++ ['m', 's']
  else
    let seconds := (fmtFrac u 9).2
    let minutes := seconds / 60
    let hours := minutes / 60
    (if 0 < minutes then
      (if 0 < hours then fmtInt hours ++ ['h'] else []) ++ (fmtInt (minutes % 60) ++ ['m'])
      else []) ++
      (fmtInt (seconds % 60) ++ (fmtFrac u 9).1 ++ ['s'])

def durationText (d : ℤ) : List Char :=
  if d < 0 then '-' :: durationBody d.natAbs else durationBody d.natAbs

def leadingInt : ℕ → List Char → Option (ℕ × List Char)
  | x, [] => some (x, [])
  | x, c :: s =>
    if c.isDigit then
      if 2 ^ 63 / 10 < x then none
      else if 2 ^ 63 < x * 10 + (c.toNat - 48) then none
      else leadingInt (x * 10 + (c.toNat - 48)) s
    else some (x, c :: s)

/-- Consume the digits of a fraction; past 63 bits they no longer add precision. -/
def leadingFraction : ℕ → ℕ → Bool → List Char → ℕ × ℕ × List Char
  | x, scale, _, [] => (x, scale, [])
  | x, scale, overflow, c :: s =>
    if c.isDigit then
      if overflow ∨ (2 ^ 63 - 1) / 10 < x then leadingFraction x scale true s
      else if 2 ^ 63 < x * 10 + (c.toNat - 48) then leadingFraction x scale true s
      else leadingFraction (x * 10 + (c.toNat - 48)) (scale * 10) false s
    else (x, scale, c :: s)

def unitMap (u : List Char) : Option ℕ :=
  if u = ['n', 's'] then some 1
  else if u = ['u', 's'] ∨ u = ['µ', 's'] ∨ u = ['μ', 's'] then some (10 ^ 3)
  else if u = ['m', 's'] then some (10 ^ 6)
  else if u = ['s'] then some (10 ^ 9)
  else if u = ['m'] then some (60 * 10 ^ 9)
  else if u = ['h'] then some (3600 * 10 ^ 9)
  else none

def isUnitChar (c : Char) : Bool := !(c == '.' || c.isDigit)

def invalidDuration (orig : String) : String := "time: invalid duration " ++ orig.quote

/-- The part `(\.[0-9]*)?`: the fraction, its scale, the rest and whether it had digits. -/
def optionalFraction : List Char → ℕ × ℕ × List Char × Bool
  | '.' :: s =>
    let (f, scale, rest) := leadingFraction 0 1 false s
    (f, scale, rest, decide (s.length ≠ rest.length))
  | s => (0, 1, s, false)

/-- One pass of the loop of `ParseDuration`: a number, an optional fraction, a unit. -/
def parseComponent (orig : String) (s : List Char) : Except String (ℕ × List Char) :=
  if (s.head?.all isUnitChar) then .error (invalidDuration orig)
  else
    match leadingInt 0 s with
    | none => .error (invalidDuration orig)
    | some (v, s₁) =>
      let (f, scale, s₂, post) := optionalFraction s₁
      if s.length = s₁.length ∧ post = false then .error (invalidDuration orig)
      else
        let u := s₂.takeWhile isUnitChar
        let rest := s₂.dropWhile isUnitChar
        if u = [] then .error ("time: missing unit in duration " ++ orig.quote)
        else
          match unitMap u with
          | none => .error ("time: unknown unit " ++ (String.ofList u).quote ++
              " in duration " ++ orig.quote)
          | some unit =>
            if 2 ^ 63 / unit < v then .error (invalidDuration orig)
            else if 0 < f then
              if 2 ^ 63 < v * unit + fractionUnits f unit scale then
                .error (invalidDuration orig)
              else .ok (v * unit + fractionUnits f unit scale, rest)
            else .ok (v * unit, rest)

/-- The loop of `ParseDuration`, with a sum of 64 bits. Every pass consumes a character, so the
length is fuel enough. -/
def parseLoop (orig : String) : ℕ → ℕ → List Char → Except String ℕ
  | _, d, [] => .ok d
  | 0, _, _ :: _ => .error (invalidDuration orig)
  | fuel + 1, d, c :: s =>
    match parseComponent orig (c :: s) with
    | .error e => .error e
    | .ok (v, rest) =>
      let sum := (d + v) % 2 ^ 64
      if 2 ^ 63 < sum then .error (invalidDuration orig) else parseLoop orig fuel sum rest

def optionalSign : List Char → Bool × List Char
  | '-' :: s => (true, s)
  | '+' :: s => (false, s)
  | s => (false, s)

def parseDuration (orig : String) : Except String ℤ :=
  let (neg, s) := optionalSign orig.toList
  if s = ['0'] then .ok 0
  else if s = [] then .error (invalidDuration orig)
  else
    match parseLoop orig s.length 0 s with
    | .error e => .error e
    | .ok d =>
      if neg then .ok (-(d : ℤ))
      else if 2 ^ 63 - 1 < d then .error (invalidDuration orig) else .ok d

section RoundTrip

variable (v : ℕ)

theorem leadingInt_digits (hv : v ≤ 2 ^ 63) (rest : List Char) :
    leadingInt 0 (fmtInt v ++ rest) = leadingInt v rest := by
  induction v using Nat.strong_induction_on generalizing rest with
  | _ v ih =>
    by_cases hlt : v < 10
    · have hd : (Nat.digitChar v).isDigit = true := by simp [Nat.isDigit_digitChar, hlt]
      rw [fmtInt, Nat.toDigits_of_lt_base hlt, singleton_append, leadingInt, if_pos hd,
        Nat.toNat_digitChar_sub_48_of_lt_ten hlt]
      rw [if_neg (by omega), if_neg (by omega), Nat.zero_mul, Nat.zero_add]
    · have hd : (Nat.digitChar (v % 10)).isDigit = true := by
        simp [Nat.isDigit_digitChar, Nat.mod_lt]
      have hs : fmtInt v = fmtInt (v / 10) ++ [Nat.digitChar (v % 10)] := by
        rw [fmtInt, Nat.toDigits_of_base_le (by decide) (by omega)]
        rfl
      rw [hs, append_assoc, ih (v / 10) (by omega) (by omega), singleton_append,
        leadingInt, if_pos hd, Nat.toNat_digitChar_sub_48_of_lt_ten (Nat.mod_lt _ (by decide))]
      have he : v / 10 * 10 + v % 10 = v := by omega
      rw [he, if_neg (by omega), if_neg (by omega)]

variable {rest : List Char} {fuel : ℕ}

theorem leadingInt_stop {x : ℕ} (h : ∀ c ∈ rest.head?, c.isDigit = false) :
    leadingInt x rest = some (x, rest) := by
  cases rest with
  | nil => rfl
  | cons c rest => simp [leadingInt, h c rfl]

theorem leadingFraction_fixed (k f x scale : ℕ) (rest : List Char)
    (hb : (x + 1) * 10 ^ k ≤ 10 ^ 18) :
    leadingFraction x scale false (fixed k f ++ rest) =
      leadingFraction (x * 10 ^ k + f % 10 ^ k) (scale * 10 ^ k) false rest := by
  induction k generalizing f rest with
  | zero => simp [fixed, Nat.mod_one]
  | succ k ih =>
    have hk : (x + 1) * 10 ^ (k + 1) = 10 * ((x + 1) * 10 ^ k) := by ring
    have hx : (x + 1) * 10 ^ k = x * 10 ^ k + 10 ^ k := by ring
    rw [fixed, append_assoc, ih (f / 10) _ (by omega), singleton_append,
      leadingFraction, if_pos (digit_isDigit f), digit_toNat]
    have hf : f % 10 ^ (k + 1) = f / 10 % 10 ^ k * 10 + f % 10 := by
      rw [pow_succ, mul_comm, Nat.mod_mul]
      omega
    have he : (x * 10 ^ k + f / 10 % 10 ^ k) * 10 + (48 + f % 10 - 48) =
        x * 10 ^ (k + 1) + f % 10 ^ (k + 1) := by
      rw [hf, pow_succ, Nat.add_sub_cancel_left]
      ring
    rw [if_neg (by simp; omega), he, if_neg (by omega), mul_assoc, ← pow_succ]

theorem leadingFraction_stop {x scale : ℕ} (h : ∀ c ∈ rest.head?, c.isDigit = false) :
    leadingFraction x scale false rest = (x, scale, rest) := by
  cases rest with
  | nil => rfl
  | cons c rest => simp [leadingFraction, h c rfl]

theorem fmtFracLoop_cons (p v : ℕ) {out : List Char} (h : out ≠ []) :
    fmtFracLoop p v out = (fixed p v ++ out, v / 10 ^ p) := by
  induction p generalizing v out with
  | zero => simp [fmtFracLoop, fixed]
  | succ p ih =>
    rw [fmtFracLoop, if_pos (.inl h), ih (v / 10) (by simp), fixed, Nat.div_div_eq_div_mul,
      pow_succ, mul_comm 10]
    simp

theorem fmtFracLoop_nil (p v : ℕ) :
    ∃ k f, k ≤ p ∧ fmtFracLoop p v [] = (fixed k f, v / 10 ^ p) ∧ f < 10 ^ k ∧
      v % 10 ^ p = f * 10 ^ (p - k) := by
  induction p generalizing v with
  | zero => exact ⟨0, 0, le_rfl, by simp [fmtFracLoop, fixed], by simp, by simp [Nat.mod_one]⟩
  | succ p ih =>
    have hmod : v % 10 ^ (p + 1) = v / 10 % 10 ^ p * 10 + v % 10 := by
      rw [pow_succ, mul_comm, Nat.mod_mul]
      omega
    have hdiv : v / 10 / 10 ^ p = v / 10 ^ (p + 1) := by
      rw [Nat.div_div_eq_div_mul, pow_succ, mul_comm]
    by_cases h : v % 10 = 0
    · obtain ⟨k, f, hk, he, hf, hv⟩ := ih (v / 10)
      refine ⟨k, f, by omega, ?_, hf, ?_⟩
      · rw [fmtFracLoop, if_neg (by simp [h]), he, hdiv]
      · rw [hmod, hv, h, Nat.succ_sub hk, pow_succ]
        ring
    · refine ⟨p + 1, v % 10 ^ (p + 1), le_rfl, ?_, Nat.mod_lt _ (by positivity), by simp⟩
      rw [fmtFracLoop, if_pos (.inr h), fmtFracLoop_cons p _ (by simp), hdiv]
      rw [fixed_mod]
      rfl

/-- A fraction of `k` digits. -/
def fractionText (k f : ℕ) : List Char := if k = 0 then [] else '.' :: fixed k f

theorem fmtFrac_spec (v p : ℕ) :
    ∃ k f, k ≤ p ∧ (fmtFrac v p).1 = fractionText k f ∧
      (fmtFrac v p).2 = v / 10 ^ p ∧ f < 10 ^ k ∧ v % 10 ^ p = f * 10 ^ (p - k) := by
  obtain ⟨k, f, hk, he, hf, hv⟩ := fmtFracLoop_nil p v
  refine ⟨k, f, hk, ?_, by simp [fmtFrac, he], hf, hv⟩
  cases k with
  | zero | succ => simp [fmtFrac, he, fixed, fractionText]

/-- One printed component: a number, a fraction and a unit. -/
def component (v k f : ℕ) (u : List Char) : List Char := fmtInt v ++ fractionText k f ++ u

theorem fmtInt_head : ∃ c s, fmtInt v = c :: s ∧ c.isDigit = true := by
  cases h : fmtInt v with
  | nil => exact absurd h (by simp [fmtInt])
  | cons c s =>
    refine ⟨c, s, rfl, ?_⟩
    have hc : c ∈ Nat.toDigits 10 v := by
      rw [fmtInt] at h
      simp [h]
    exact Nat.isDigit_of_mem_toDigits (by decide) (by decide) hc

variable {k f : ℕ} {u : List Char}

theorem isDigit_of_isUnitChar {c : Char} (h : isUnitChar c = true) : c.isDigit = false := by
  simp_all [isUnitChar]

theorem optionalFraction_text (hk : k ≤ 9)
    (hf : f < 10 ^ k) (hu : ∀ c ∈ u.head?, isUnitChar c = true) (hne : u ≠ []) :
    optionalFraction (fractionText k f ++ u) = (f, 10 ^ k, u, decide (k ≠ 0)) := by
  have hu' : ∀ c ∈ u.head?, c.isDigit = false := fun c hc => isDigit_of_isUnitChar (hu c hc)
  by_cases h0 : k = 0
  · subst h0
    obtain rfl : f = 0 := by simpa using hf
    cases u with
    | nil => exact absurd rfl hne
    | cons c u =>
      have hc : c ≠ '.' := by
        intro he
        have := hu c rfl
        simp [isUnitChar, he] at this
      unfold optionalFraction
      split
      · rename_i heq
        exact absurd (List.cons.inj heq).1 hc
      · rfl
  · have hp : 10 ^ k ≤ 10 ^ 9 := Nat.pow_le_pow_right (by decide) hk
    rw [fractionText, if_neg h0, cons_append, optionalFraction,
      leadingFraction_fixed k f 0 1 u (by omega), leadingFraction_stop hu']
    simp [Nat.mod_eq_of_lt hf, h0]

/-- A unit is a word of unit characters, and small enough for exact fractions. -/
structure UnitWord (u : List Char) (unit : ℕ) : Prop where
  ne_nil : u ≠ []
  chars : ∀ c ∈ u, isUnitChar c = true
  pos : 0 < unit
  small : unit < 2 ^ 53

theorem unitWord_of_unitMap (h : unitMap u = some unit) : UnitWord u unit := by
  have hword : ∀ {w : List Char} {n : ℕ},
      w ≠ [] ∧ w.all isUnitChar = true ∧ 0 < n ∧ n < 2 ^ 53 → some n = some unit →
      UnitWord w unit := by
    rintro w n ⟨hne, hall, hpos, hsmall⟩ hn
    cases hn
    exact ⟨hne, all_eq_true.mp hall, hpos, hsmall⟩
  unfold unitMap at h
  split_ifs at h with hns hus hms hs hm hh
  · exact hns ▸ hword (by decide) h
  · rcases hus with rfl | rfl | rfl <;> exact hword (by decide) h
  · exact hms ▸ hword (by decide) h
  · exact hs ▸ hword (by decide) h
  · exact hm ▸ hword (by decide) h
  · exact hh ▸ hword (by decide) h

theorem UnitWord.head (h : UnitWord u unit) :
    ∀ c ∈ (u ++ rest).head?, isUnitChar c = true := by
  cases u with
  | nil => exact absurd rfl h.ne_nil
  | cons d u => simpa using h.chars d mem_cons_self

variable (orig : String)

theorem parseComponent_component {v : ℕ}
    (hu : unitMap u = some unit) (hrest : ∀ c ∈ rest.head?, isUnitChar c = false)
    (hk : k ≤ 9) (hf : f < 10 ^ k) (hd : 10 ^ k ∣ unit)
    (hb : v * unit + f * (unit / 10 ^ k) ≤ 2 ^ 63) :
    parseComponent orig (component v k f u ++ rest) =
      .ok (v * unit + f * (unit / 10 ^ k), rest) := by
  have hword := unitWord_of_unitMap hu
  have ⟨hne, hchars, hunit, hsmall⟩ := hword
  obtain ⟨c, s, hcs, hc⟩ := fmtInt_head v
  have hv : v ≤ 2 ^ 63 := le_trans (Nat.le_mul_of_pos_right v hunit) (by omega)
  have hdiv : ¬ 2 ^ 63 / unit < v := by
    rw [not_lt, Nat.le_div_iff_mul_le hunit]
    omega
  have hq : 0 < unit / 10 ^ k := Nat.div_pos (Nat.le_of_dvd hunit hd) (by positivity)
  have hhead : ∀ c ∈ (fractionText k f ++ (u ++ rest)).head?, c.isDigit = false := by
    intro c hc
    by_cases h0 : k = 0
    · exact isDigit_of_isUnitChar (hword.head c (by simpa [fractionText, h0] using hc))
    · obtain rfl : '.' = c := by simpa [fractionText, h0] using hc
      rfl
  have hint : leadingInt 0 (component v k f u ++ rest) =
      some (v, fractionText k f ++ (u ++ rest)) := by
    rw [component, append_assoc, append_assoc, leadingInt_digits v hv, leadingInt_stop hhead]
  have hopt := optionalFraction_text (u := u ++ rest) hk hf hword.head (by simp [hne])
  have htake : (u ++ rest).takeWhile isUnitChar = u := by
    rw [takeWhile_append_of_pos hchars]
    cases rest with
    | nil => simp
    | cons d rest => simp [hrest d rfl]
  have hdrop : (u ++ rest).dropWhile isUnitChar = rest := by
    rw [dropWhile_append_of_pos hchars]
    cases rest with
    | nil => rfl
    | cons d rest => simp [hrest d rfl]
  have hstart : ((component v k f u ++ rest).head?.all isUnitChar) = false := by
    simp [component, hcs, isUnitChar, hc]
  have hlen : ¬ (component v k f u ++ rest).length =
      (fractionText k f ++ (u ++ rest)).length := by
    simp only [component, hcs, length_append, length_cons]
    omega
  rw [parseComponent, if_neg (by rw [hstart]; exact Bool.false_ne_true), hint]
  simp only [hopt, htake, hdrop, hu, hne, hdiv, if_false]
  rw [if_neg fun h => hlen h.1]
  by_cases h0 : 0 < f
  · have hex := fractionUnits_exact (f := f) hd (by positivity) hsmall
      (by
        have : f * (unit / 10 ^ k) < 10 ^ k * (unit / 10 ^ k) :=
          Nat.mul_lt_mul_of_pos_right hf hq
        rw [Nat.mul_div_cancel' hd] at this
        omega) hq
    rw [if_pos h0, hex, if_neg (by omega)]
  · obtain rfl : f = 0 := by omega
    simp

/-- A component that is read back exactly. -/
structure Component where
  (v k f : ℕ)
  u : List Char
  unit : ℕ
  known : unitMap u = some unit
  digits : k ≤ 9
  fraction : f < 10 ^ k
  divides : 10 ^ k ∣ unit

namespace Component

def text (c : Component) : List Char := component c.v c.k c.f c.u

def value (c : Component) : ℕ := c.v * c.unit + c.f * (c.unit / 10 ^ c.k)

theorem head_text (c : Component) :
    ∃ d s, c.text = d :: s ∧ d.isDigit = true ∧ s ≠ [] := by
  obtain ⟨d, s, hds, hd⟩ := fmtInt_head c.v
  have hne := (unitWord_of_unitMap c.known).ne_nil
  exact ⟨d, s ++ fractionText c.k c.f ++ c.u, by simp [text, component, hds], hd, by simp [hne]⟩

theorem exists_whole (v : ℕ) (known : unitMap u = some unit) :
    ∃ c : Component, c.text = fmtInt v ++ u ∧ c.value = v * unit :=
  ⟨⟨v, 0, 0, u, unit, known, by decide, by decide, by simp⟩,
    by simp [text, component, fractionText], by simp [value]⟩

/-- A number with the fraction that `fmtFrac` prints. -/
theorem exists_scaled (w n : ℕ) {p : ℕ} (hp : p ≤ 9) (hu : unitMap u = some (10 ^ p)) :
    ∃ c : Component, c.text = fmtInt w ++ (fmtFrac n p).1 ++ u ∧
      c.value = w * 10 ^ p + n % 10 ^ p := by
  obtain ⟨k, f, hk, htext, -, hf, hv⟩ := fmtFrac_spec n p
  refine ⟨⟨w, k, f, u, 10 ^ p, hu, hk.trans hp, hf, pow_dvd_pow 10 hk⟩, ?_, ?_⟩
  · rw [htext, text, component]
  · rw [hv, value, Nat.pow_div hk (by decide)]

theorem parseLoop_flatMap {fuel d : ℕ} (cs : List Component)
    (hfuel : (cs.flatMap text).length ≤ fuel) (hb : d + (cs.map value).sum ≤ 2 ^ 63) :
    parseLoop orig fuel d (cs.flatMap text) = .ok (d + (cs.map value).sum) := by
  induction cs generalizing fuel d with
  | nil => simp [parseLoop]
  | cons c cs ih =>
    rw [map_cons, sum_cons] at hb ⊢
    have hrest : ∀ e ∈ (cs.flatMap text).head?, isUnitChar e = false := by
      cases cs with
      | nil => simp
      | cons c' cs =>
        obtain ⟨e, s, hes, he, -⟩ := c'.head_text
        simp [hes, isUnitChar, he]
    have hparse := parseComponent_component orig c.known hrest c.digits c.fraction c.divides
      (show c.value ≤ 2 ^ 63 by omega)
    change parseComponent orig (c.text ++ cs.flatMap text) = .ok (c.value, _) at hparse
    obtain ⟨e, s, hes, -⟩ := c.head_text
    rw [flatMap_cons] at hfuel ⊢
    rw [hes, cons_append] at hparse hfuel ⊢
    cases fuel with
    | zero => simp at hfuel
    | succ fuel =>
      rw [parseLoop, hparse]
      dsimp only
      rw [Nat.mod_eq_of_lt (by omega)]
      simp only [length_cons, length_append] at hfuel ⊢
      rw [if_neg (by omega), ih (by omega) (by omega), Nat.add_assoc]

end Component

theorem fmtFrac_rest (v p : ℕ) : (fmtFrac v p).2 = v / 10 ^ p := by
  obtain ⟨k, f, -, -, h, -⟩ := fmtFrac_spec v p
  exact h

/-- A printed duration is a sequence of components that add up to it. -/
theorem durationBody_components (n : ℕ) : ∃ c cs, durationBody n =
    (c :: cs).flatMap Component.text ∧ ((c :: cs).map Component.value).sum = n := by
  have hmin : unitMap ['m'] = some (60 * 10 ^ 9) := by decide
  have hhour : unitMap ['h'] = some (3600 * 10 ^ 9) := by decide
  have hsec : unitMap ['s'] = some (10 ^ 9) := by decide
  unfold durationBody
  split
  · have hsingle {p : ℕ} {u : List Char} (hp : p ≤ 9) (hu : unitMap u = some (10 ^ p)) :
        ∃ c cs, fmtInt (fmtFrac n p).2 ++ (fmtFrac n p).1 ++ u =
          (c :: cs).flatMap Component.text ∧ ((c :: cs).map Component.value).sum = n := by
      obtain ⟨c, htext, hvalue⟩ := Component.exists_scaled (n / 10 ^ p) n hp hu
      refine ⟨c, [], by simp [htext, fmtFrac_rest], ?_⟩
      simp [hvalue, Nat.div_add_mod']
    split_ifs with hzero
    · obtain ⟨c, htext, hvalue⟩ := Component.exists_whole 0 hsec
      refine ⟨c, [], ?_, by simp [hvalue, hzero]⟩
      rw [flatMap_singleton, htext]
      rfl
    all_goals exact hsingle (by decide) (by decide)
  · dsimp only
    rw [fmtFrac_rest]
    obtain ⟨c, htext, hvalue⟩ := Component.exists_scaled (n / 10 ^ 9 % 60) n le_rfl hsec
    rw [← htext]
    obtain ⟨m, hmtext, hmvalue⟩ := Component.exists_whole (n / 10 ^ 9 / 60 % 60) hmin
    obtain ⟨h, hhtext, hhvalue⟩ := Component.exists_whole (n / 10 ^ 9 / 60 / 60) hhour
    split_ifs
    · refine ⟨h, [m, c], by simp [hmtext, hhtext], ?_⟩
      simp only [map_cons, map_nil, sum_cons, sum_nil]
      omega
    · refine ⟨m, [c], by simp [hmtext], ?_⟩
      simp only [map_cons, map_nil, sum_cons, sum_nil]
      omega
    · refine ⟨c, [], by simp, ?_⟩
      simp only [map_cons, map_nil, sum_cons, sum_nil]
      omega

theorem parseDuration_durationText {d : ℤ} (hlo : -2 ^ 63 ≤ d) (hhi : d < 2 ^ 63) :
    parseDuration (String.ofList (durationText d)) = .ok d := by
  obtain ⟨c₀, cs, hbody, hsum⟩ := durationBody_components d.natAbs
  obtain ⟨c, s, hcs, hc, hs⟩ := c₀.head_text
  have hb : durationBody d.natAbs = c :: (s ++ cs.flatMap Component.text) := by
    rw [hbody, flatMap_cons, hcs, cons_append]
  have hloop := Component.parseLoop_flatMap (String.ofList (durationText d)) (d := 0) (c₀ :: cs)
    le_rfl (by omega)
  rw [← hbody, hsum, Nat.zero_add] at hloop
  have hdigit : c ≠ '-' ∧ c ≠ '+' := by
    constructor <;> rintro rfl <;> simp at hc
  have hzero : durationBody d.natAbs ≠ ['0'] := by
    rw [hb]
    simp [hs]
  have hsign : optionalSign (durationText d) = (decide (d < 0), durationBody d.natAbs) := by
    unfold durationText
    by_cases hn : d < 0
    · simp [hn, optionalSign]
    rw [if_neg hn, hb, optionalSign]
    · simp [hn]
    · intro s' h
      exact hdigit.1 (List.cons.inj h).1
    · intro s' h
      exact hdigit.2 (List.cons.inj h).1
  rw [parseDuration, String.toList_ofList, hsign]
  simp only [hzero, if_false]
  rw [if_neg (by simp [hb]), hloop]
  by_cases hn : d < 0
  · simp only [hn, decide_true, if_true, Except.ok.injEq]
    omega
  simp only [hn, decide_false, Bool.false_eq_true, if_false]
  rw [if_neg (by omega)]
  congr 1
  omega

end RoundTrip

variable {orig : String}

theorem parseLoop_le {fuel d n : ℕ} {s : List Char} (hd : d ≤ 2 ^ 63)
    (h : parseLoop orig fuel d s = .ok n) : n ≤ 2 ^ 63 := by
  fun_induction parseLoop orig fuel d s with
  | case1 =>
    cases h
    exact hd
  | case2 | case3 | case4 => cases h
  | case5 fuel d c s v rest _ sum hle ih => exact ih (not_lt.mp hle) h

theorem parseDuration_range {d : ℤ} (h : parseDuration orig = .ok d) :
    -2 ^ 63 ≤ d ∧ d < 2 ^ 63 := by
  revert h
  fun_cases parseDuration orig <;> rintro ⟨⟩
  · norm_num
  all_goals
    have hle := parseLoop_le (Nat.zero_le _) ‹_›
    omega

/-! ## Durations in messages

A message carries whole seconds and the remaining nanoseconds.
-/

def wrapInt64 (x : ℤ) : ℤ := (x + 2 ^ 63) % 2 ^ 64 - 2 ^ 63

theorem wrapInt64_eq {x : ℤ} (hlo : -2 ^ 63 ≤ x) (hhi : x < 2 ^ 63) : wrapInt64 x = x := by
  unfold wrapInt64
  omega

structure PbDuration where
  seconds : ℤ
  nanos : ℤ

namespace PbDuration

def new (d : ℤ) : PbDuration := ⟨d.tdiv (10 ^ 9), d - d.tdiv (10 ^ 9) * 10 ^ 9⟩

/-- The nanosecond count, or the nearest one where it does not fit. -/
def asDuration (x : PbDuration) : ℤ :=
  let d := wrapInt64 (x.seconds * 10 ^ 9)
  let truncated := d.tdiv (10 ^ 9) ≠ x.seconds
  let d := wrapInt64 (d + x.nanos)
  if truncated ∨ (x.seconds < 0 ∧ x.nanos < 0 ∧ 0 < d) ∨ (0 < x.seconds ∧ 0 < x.nanos ∧ d < 0) then
    if x.seconds < 0 then -2 ^ 63 else if 0 < x.seconds then 2 ^ 63 - 1 else d
  else d

theorem asDuration_new {d : ℤ} (hlo : -2 ^ 63 ≤ d) (hhi : d < 2 ^ 63) : (new d).asDuration = d := by
  unfold asDuration new
  dsimp only
  have hq := Int.tdiv_mul_add_tmod d (10 ^ 9)
  have hmod : -10 ^ 9 < d.tmod (10 ^ 9) ∧ d.tmod (10 ^ 9) < 10 ^ 9 :=
    ⟨Int.lt_tmod_of_pos d (by norm_num), Int.tmod_lt_of_pos d (by norm_num)⟩
  have hsign : 0 ≤ d ∧ 0 ≤ d.tmod (10 ^ 9) ∨ d ≤ 0 ∧ d.tmod (10 ^ 9) ≤ 0 := by
    rcases le_total 0 d with hd | hd
    · exact .inl ⟨hd, Int.tmod_nonneg _ hd⟩
    have hneg := Int.tmod_nonneg (10 ^ 9) (neg_nonneg.mpr hd)
    rw [Int.neg_tmod] at hneg
    exact .inr ⟨hd, by omega⟩
  have hfirst : wrapInt64 (d.tdiv (10 ^ 9) * 10 ^ 9) = d.tdiv (10 ^ 9) * 10 ^ 9 :=
    wrapInt64_eq (by omega) (by omega)
  have hrest : wrapInt64 (d.tdiv (10 ^ 9) * 10 ^ 9 + (d - d.tdiv (10 ^ 9) * 10 ^ 9)) = d := by
    rw [add_sub_cancel]
    exact wrapInt64_eq hlo hhi
  rw [hfirst, hrest, Int.mul_tdiv_cancel _ (by norm_num)]
  omega

end PbDuration

end Cfgms.Go
