import Cfgms.Text.Decimal

/-! # Instants as text

`time.Time.Format(time.RFC3339Nano)` of UTC instants, for the years 1 to 9999. The date
and the time of day have fixed width, so they sort as text; the fraction of a second
loses its trailing zeros and does not.
-/

namespace Cfgms.Go

open Text List

/-- Seconds from 0001-01-01 to the Unix epoch. -/
def unixToInternal : ℕ := 62135596800

def isLeap (year : ℕ) : Bool := year % 4 == 0 && (year % 100 != 0 || year % 400 == 0)

/-- Cut off up to three periods of `k` days; the fourth has a day more. -/
def cutPeriods (k d : ℕ) : ℕ × ℕ :=
  let n := d / k
  let n := n - n / 4
  (n, d - k * n)

def yearDay (d : ℕ) : ℕ × ℕ :=
  let n₄₀₀ := d / 146097
  let (n₁₀₀, d) := cutPeriods 36524 (d % 146097)
  let n₄ := d / 1461
  let (n₁, d) := cutPeriods 365 (d % 1461)
  (1 + 400 * n₄₀₀ + 100 * n₁₀₀ + 4 * n₄ + n₁, d)

/-- Days before each month of a year that is not a leap year. -/
def daysBefore : ℕ → ℕ
  | 0 => 0
  | 1 => 31
  | 2 => 59
  | 3 => 90
  | 4 => 120
  | 5 => 151
  | 6 => 181
  | 7 => 212
  | 8 => 243
  | 9 => 273
  | 10 => 304
  | 11 => 334
  | _ => 365

def monthDay (leap : Bool) (yday : ℕ) : ℕ × ℕ :=
  if leap ∧ yday = 59 then (2, 29)
  else
    -- past the leap day the year looks like any other
    let day := if leap ∧ 59 < yday then yday - 1 else yday
    let month := day / 31
    let monthEnd := daysBefore (month + 1)
    if monthEnd ≤ day then (month + 2, day - monthEnd + 1)
    else (month + 1, day - daysBefore month + 1)

/-- The layout `2006-01-02T15:04:05`, from the seconds since 0001-01-01. -/
def dateTime (t : ℕ) : List Char :=
  let (year, yday) := yearDay (t / 86400)
  let (month, day) := monthDay (isLeap year) yday
  fixed 4 year ++ '-' :: (fixed 2 month ++ '-' :: (fixed 2 day ++ 'T' ::
    (fixed 2 (t % 86400 / 3600) ++ ':' :: (fixed 2 (t % 3600 / 60) ++ ':' :: fixed 2 (t % 60)))))

/-- The layout `.999999999`. -/
def fraction (n : ℕ) : List Char := if trimmed 9 n = [] then [] else '.' :: trimmed 9 n

/-- Nanoseconds since 0001-01-01 of an instant given in nanoseconds since the epoch. -/
def sinceYearOne (t : ℤ) : ℕ := (t + unixToInternal * 10 ^ 9).toNat

/-- The text of `t.UTC().Format(time.RFC3339Nano)`. -/
def formatRFC3339Nano (t : ℤ) : List Char :=
  dateTime (sinceYearOne t / 10 ^ 9) ++ fraction (sinceYearOne t % 10 ^ 9) ++ ['Z']

theorem cutPeriods_spec {k d : ℕ} (hd : d ≤ 4 * k) :
    (cutPeriods k d).1 ≤ 3 ∧ k * (cutPeriods k d).1 + (cutPeriods k d).2 = d ∧
      (cutPeriods k d).2 ≤ k ∧ ((cutPeriods k d).2 = k → k = 0 ∨ (cutPeriods k d).1 = 3) := by
  have h4 : d / k ≤ 4 := Nat.div_le_of_le_mul (by rw [mul_comm]; omega)
  have hle : k * (d / k) ≤ d := Nat.mul_div_le d k
  have hmod : d < k * (d / k) + k ∨ k = 0 := by
    rcases Nat.eq_zero_or_pos k with hk | hk
    · exact .inr hk
    · exact .inl (Nat.lt_mul_div_succ d hk)
  unfold cutPeriods
  generalize d / k = n at *
  dsimp only
  by_cases hn : n = 4
  · subst hn
    refine ⟨by omega, ?_, ?_, ?_⟩ <;> omega
  · rw [show n - n / 4 = n by omega]
    refine ⟨by omega, ?_, ?_, ?_⟩ <;> omega

/-- The day number and the year in the mixed radix of the calendar. -/
structure Cycles (d year yday : ℕ) where
  n₄₀₀ : ℕ
  n₁₀₀ : ℕ
  n₄ : ℕ
  n₁ : ℕ
  d_eq : d = 146097 * n₄₀₀ + (36524 * n₁₀₀ + (1461 * n₄ + (365 * n₁ + yday)))
  year_eq : year = 1 + 400 * n₄₀₀ + 100 * n₁₀₀ + 4 * n₄ + n₁
  n₁₀₀_le : n₁₀₀ ≤ 3
  n₄_le : n₄ ≤ 24
  n₁_le : n₁ ≤ 3
  yday_le : yday ≤ 365
  rest₁ : 365 * n₁ + yday < 1461
  rest₄ : 1461 * n₄ + (365 * n₁ + yday) ≤ 36524
  rest₁₀₀ : 36524 * n₁₀₀ + (1461 * n₄ + (365 * n₁ + yday)) < 146097
  last₁ : yday = 365 → n₁ = 3
  last₄ : 1461 * n₄ + (365 * n₁ + yday) = 36524 → n₁₀₀ = 3

def cycles (d : ℕ) : Cycles d (yearDay d).1 (yearDay d).2 :=
  have h₁₀₀ := @cutPeriods_spec 36524 (d % 146097) (by omega)
  have h₁ := @cutPeriods_spec 365 ((cutPeriods 36524 (d % 146097)).2 % 1461) (by omega)
  { n₄₀₀ := d / 146097
    n₁₀₀ := (cutPeriods 36524 (d % 146097)).1
    n₄ := (cutPeriods 36524 (d % 146097)).2 / 1461
    n₁ := (cutPeriods 365 ((cutPeriods 36524 (d % 146097)).2 % 1461)).1
    d_eq := by simp only [yearDay]; omega
    year_eq := rfl
    n₁₀₀_le := h₁₀₀.1
    n₄_le := by omega
    n₁_le := h₁.1
    yday_le := h₁.2.2.1
    rest₁ := by simp only [yearDay]; omega
    rest₄ := by simp only [yearDay]; omega
    rest₁₀₀ := by simp only [yearDay]; omega
    last₁ := by simp only [yearDay]; omega
    last₄ := by simp only [yearDay]; omega }

theorem yearDay_lt {d e : ℕ} (h : d < e) : (yearDay d).1 < (yearDay e).1 ∨
      (yearDay d).1 = (yearDay e).1 ∧ (yearDay d).2 < (yearDay e).2 := by
  obtain ⟨a, b, c, n, hd, hy, hb, hc, hn, hday, h1, h4, h100, -, -⟩ := cycles d
  obtain ⟨a', b', c', n', hd', hy', hb', hc', hn', hday', h1', h4', h100', -, -⟩ := cycles e
  have h₄₀₀ : a < a' ∨ a = a' := by omega
  rcases h₄₀₀ with hlt | rfl
  · omega
  have h₁₀₀ : b < b' ∨ b = b' := by omega
  rcases h₁₀₀ with hlt | rfl
  · omega
  have h₄ : c < c' ∨ c = c' := by omega
  rcases h₄ with hlt | rfl
  · omega
  have h₁ : n < n' ∨ n = n' := by omega
  rcases h₁ with hlt | rfl <;> omega

theorem yearDay_day_le (d : ℕ) :
    (yearDay d).2 < 365 ∨ (yearDay d).2 = 365 ∧ isLeap (yearDay d).1 = true := by
  obtain ⟨a, b, c, n, hd, hy, hb, hc, hn, hday, h1, h4, h100, hlast, hlast₄⟩ := cycles d
  refine hday.lt_or_eq.imp_right fun he => ⟨he, ?_⟩
  -- the last day of a fourth year, and of a century only when four centuries are full
  have hn3 : n = 3 := hlast he
  have h4 : (yearDay d).1 % 4 = 0 := by omega
  have h100 : (yearDay d).1 % 100 ≠ 0 ∨ (yearDay d).1 % 400 = 0 := by omega
  simpa [isLeap, h4] using h100

theorem yearDay_year_lt {d : ℕ} (h : d < 3652059) : (yearDay d).1 < 10 ^ 4 := by
  obtain ⟨a, b, c, n, hd, hy, hb, hc, hn, -⟩ := cycles d
  omega

theorem monthDay_le : ∀ leap : Bool, ∀ yday < 366,
    (monthDay leap yday).1 < 10 ^ 2 ∧ (monthDay leap yday).2 < 32 := by
  decide +kernel

theorem monthDay_next : ∀ leap : Bool, ∀ yday < 365, (leap = true ∨ yday < 364) →
    32 * (monthDay leap yday).1 + (monthDay leap yday).2 <
      32 * (monthDay leap (yday + 1)).1 + (monthDay leap (yday + 1)).2 := by
  decide +kernel

theorem monthDay_lt {leap : Bool} {i j : ℕ} (h : i < j) (hj : j < 365 ∨ j = 365 ∧ leap = true) :
    (monthDay leap i).1 < (monthDay leap j).1 ∨
      (monthDay leap i).1 = (monthDay leap j).1 ∧ (monthDay leap i).2 < (monthDay leap j).2 := by
  have key : 32 * (monthDay leap i).1 + (monthDay leap i).2 <
      32 * (monthDay leap j).1 + (monthDay leap j).2 := by
    induction j, h using Nat.le_induction with
    | base => exact monthDay_next leap i (by omega) (hj.symm.imp And.right (by omega))
    | succ j hij ih =>
      have hstep := monthDay_next leap j (by omega) (hj.symm.imp And.right (by omega))
      exact (ih (by omega)).trans hstep
  have hi := (monthDay_le leap i (by omega)).2
  have hj := (monthDay_le leap j (by omega)).2
  omega

/-- Days up to the end of the year 9999, in seconds. -/
def maxSeconds : ℕ := 3652059 * 86400

theorem length_dateTime (t : ℕ) : (dateTime t).length = 19 := by
  simp [dateTime]

theorem clock_lt {t u : ℕ} (h : t % 86400 < u % 86400) :
    fixed 2 (t % 86400 / 3600) ++ ':' :: (fixed 2 (t % 3600 / 60) ++ ':' :: fixed 2 (t % 60)) <
    fixed 2 (u % 86400 / 3600) ++ ':' :: (fixed 2 (u % 3600 / 60) ++ ':' :: fixed 2 (u % 60)) := by
  rw [fixed_append_lt_iff (by omega) (by omega), cons_lt_cons_self,
    fixed_append_lt_iff (by omega) (by omega), cons_lt_cons_self,
    fixed_lt_fixed_iff (by omega) (by omega)]
  omega

theorem dateTime_lt {t u : ℕ} (h : t < u) (hu : u < maxSeconds) : dateTime t < dateTime u := by
  have hdays : t / 86400 < 3652059 ∧ u / 86400 < 3652059 := by unfold maxSeconds at hu; omega
  have hyt := yearDay_year_lt hdays.1
  have hyu := yearDay_year_lt hdays.2
  have hmt := monthDay_le (isLeap (yearDay (t / 86400)).1) (yearDay (t / 86400)).2
    (by have := yearDay_day_le (t / 86400); omega)
  have hmu := monthDay_le (isLeap (yearDay (u / 86400)).1) (yearDay (u / 86400)).2
    (by have := yearDay_day_le (u / 86400); omega)
  have hday : t / 86400 < u / 86400 ∨ t / 86400 = u / 86400 := by omega
  simp only [dateTime]
  rw [fixed_append_lt_iff hyt hyu]
  rcases hday with hlt | heq
  · refine (yearDay_lt hlt).imp_right fun ⟨hy, hyday⟩ => ⟨hy, ?_⟩
    rw [hy] at hmt ⊢
    rw [cons_lt_cons_self, fixed_append_lt_iff hmt.1 hmu.1]
    refine (monthDay_lt hyday (yearDay_day_le _)).imp_right fun ⟨hm, hd⟩ => ⟨hm, ?_⟩
    rw [cons_lt_cons_self, fixed_append_lt_iff (by omega) (by omega)]
    exact .inl hd
  · -- on one day the time of day decides
    rw [heq, cons_lt_cons_self, append_self_lt_iff, cons_lt_cons_self, append_self_lt_iff,
      cons_lt_cons_self]
    exact .inr ⟨rfl, clock_lt (by omega)⟩

theorem mem_fraction_lt {n : ℕ} {c : Char} (h : c ∈ fraction n) : c < 'Z' := by
  have hdigit : ∀ c : Char, c.isDigit = true → c < 'Z' := by
    intro c hc
    simp only [Char.isDigit, Bool.and_eq_true, decide_eq_true_eq] at hc
    exact Nat.lt_of_le_of_lt hc.2 (by decide)
  unfold fraction at h
  split at h
  · cases h
  rcases mem_cons.mp h with rfl | h
  · decide
  · exact hdigit c (mem_trimmed_isDigit h)

theorem fraction_isPrefix_iff {m n : ℕ} :
    fraction m <+: fraction n ↔ trimmed 9 m <+: trimmed 9 n := by
  unfold fraction
  split_ifs with hm hn hn <;> simp [*]

theorem fraction_lt_iff {m n : ℕ} (hm : m < 10 ^ 9) (hn : n < 10 ^ 9)
    (hmn : ¬ trimmed 9 m <+: trimmed 9 n) (hnm : ¬ trimmed 9 n <+: trimmed 9 m) :
    fraction m < fraction n ↔ m < n := by
  have hm0 : trimmed 9 m ≠ [] := fun h => hmn (by rw [h]; exact nil_prefix)
  have hn0 : trimmed 9 n ≠ [] := fun h => hnm (by rw [h]; exact nil_prefix)
  rw [fraction, fraction, if_neg hm0, if_neg hn0, cons_lt_cons_self,
    trimmed_lt_iff hm hn hmn hnm]

/-- The instant lies in the years 1 to 9999. -/
def InYears (t : ℤ) : Prop :=
  0 ≤ t + unixToInternal * 10 ^ 9 ∧ t + unixToInternal * 10 ^ 9 < maxSeconds * 10 ^ 9

/-- Different instants of one second such that the written fraction of one begins the
written fraction of the other. -/
def Clash (t u : ℤ) : Prop :=
  t ≠ u ∧ sinceYearOne t / 10 ^ 9 = sinceYearOne u / 10 ^ 9 ∧
    (trimmed 9 (sinceYearOne t % 10 ^ 9) <+: trimmed 9 (sinceYearOne u % 10 ^ 9) ∨
      trimmed 9 (sinceYearOne u % 10 ^ 9) <+: trimmed 9 (sinceYearOne t % 10 ^ 9))

instance (t u : ℤ) : Decidable (Clash t u) :=
  @instDecidableAnd _ _ inferInstance (@instDecidableAnd _ _ inferInstance inferInstance)

variable {t u : ℤ}

theorem Clash.symm (h : Clash t u) : Clash u t := ⟨h.1.symm, h.2.1.symm, h.2.2.symm⟩

variable (ht : InYears t)
include ht

theorem sinceYearOne_lt_iff (hu : InYears u) : sinceYearOne t < sinceYearOne u ↔ t < u := by
  unfold sinceYearOne InYears at *
  omega

theorem sinceYearOne_div_lt : sinceYearOne t / 10 ^ 9 < maxSeconds := by
  unfold sinceYearOne InYears at *
  omega

omit ht in
theorem formatRFC3339Nano_lt_of_second (hu : InYears u)
    (h : sinceYearOne t / 10 ^ 9 < sinceYearOne u / 10 ^ 9) :
    formatRFC3339Nano t < formatRFC3339Nano u := by
  unfold formatRFC3339Nano
  rw [append_assoc, append_assoc, append_lt_append_iff (by simp only [length_dateTime])]
  exact .inl (dateTime_lt h (sinceYearOne_div_lt hu))

variable (hu : InYears u)
include hu

theorem formatRFC3339Nano_lt_of_clash
    (h : Clash t u) (hlt : u < t) : formatRFC3339Nano t < formatRFC3339Nano u := by
  obtain ⟨hne, hsec, hpre⟩ := h
  have hlt' := (sinceYearOne_lt_iff hu ht).mpr hlt
  have hbt : sinceYearOne t % 10 ^ 9 < 10 ^ 9 := Nat.mod_lt _ (by decide)
  have hbu : sinceYearOne u % 10 ^ 9 < 10 ^ 9 := Nat.mod_lt _ (by decide)
  -- the later instant's fraction is the longer one
  have hpre' : trimmed 9 (sinceYearOne u % 10 ^ 9) <+: trimmed 9 (sinceYearOne t % 10 ^ 9) := by
    rcases hpre with hpre | hpre
    · exact absurd (lt_of_trimmed_isPrefix hbt hbu hpre (by omega)) (by omega)
    · exact hpre
  unfold formatRFC3339Nano
  rw [hsec, append_assoc, append_assoc, append_self_lt_iff]
  refine terminated_lt_of_isPrefix (fun _ => mem_fraction_lt) (fraction_isPrefix_iff.mpr hpre')
    fun he => ?_
  have hback : fraction (sinceYearOne t % 10 ^ 9) <+: fraction (sinceYearOne u % 10 ^ 9) := by
    rw [he]
  have heq := trimmed_injOn hbu hbt (hpre'.eq_of_length_le (fraction_isPrefix_iff.mp hback).length_le)
  omega

theorem formatRFC3339Nano_lt_of_lt
    (h : ¬ Clash t u) (hlt : t < u) : formatRFC3339Nano t < formatRFC3339Nano u := by
  have hlt' := (sinceYearOne_lt_iff ht hu).mpr hlt
  rcases (Nat.div_le_div_right hlt'.le : sinceYearOne t / 10 ^ 9 ≤ _).lt_or_eq with hsec | hsec
  · exact formatRFC3339Nano_lt_of_second hu hsec
  have hnot : ¬ (trimmed 9 (sinceYearOne t % 10 ^ 9) <+: trimmed 9 (sinceYearOne u % 10 ^ 9) ∨
      trimmed 9 (sinceYearOne u % 10 ^ 9) <+: trimmed 9 (sinceYearOne t % 10 ^ 9)) :=
    fun hpre => h ⟨hlt.ne, hsec, hpre⟩
  obtain ⟨htu, hut⟩ := not_or.mp hnot
  have hbt : sinceYearOne t % 10 ^ 9 < 10 ^ 9 := Nat.mod_lt _ (by decide)
  have hbu : sinceYearOne u % 10 ^ 9 < 10 ^ 9 := Nat.mod_lt _ (by decide)
  unfold formatRFC3339Nano
  rw [hsec, append_assoc, append_assoc, append_self_lt_iff,
    append_lt_append_iff_of_not_isPrefix (by rwa [fraction_isPrefix_iff])
      (by rwa [fraction_isPrefix_iff]), fraction_lt_iff hbt hbu htu hut]
  omega

theorem formatRFC3339Nano_lt_iff :
    formatRFC3339Nano t < formatRFC3339Nano u ↔ if Clash t u then u < t else t < u := by
  rcases lt_trichotomy t u with hlt | rfl | hlt
  · by_cases hc : Clash t u
    · have := formatRFC3339Nano_lt_of_clash hu ht hc.symm hlt
      simp only [hc, if_true, not_lt_of_gt hlt, iff_false]
      exact lt_asymm this
    · simp only [hc, if_false, hlt, iff_true]
      exact formatRFC3339Nano_lt_of_lt ht hu hc hlt
  · simp
  · by_cases hc : Clash t u
    · simp only [hc, if_true, hlt, iff_true]
      exact formatRFC3339Nano_lt_of_clash ht hu hc hlt
    · have := formatRFC3339Nano_lt_of_lt hu ht (fun h => hc h.symm) hlt
      simp only [hc, if_false, not_lt_of_gt hlt, iff_false]
      exact lt_asymm this

end Cfgms.Go
