import Cfgms.Go.Rfc3339

/-! # Calendar months

Months are numbered through, January of the year 0 being month 0, and a day is found from its
month and its place in that month. A month is four to five weeks long, and four months in a row
are at least a week longer than sixteen weeks.
-/

namespace Cfgms.Go

/-- Days from 0001-01-01 to the first day of a year. -/
def yearStart (y : ℤ) : ℤ := 365 * (y - 1) + (y - 1) / 4 - (y - 1) / 100 + (y - 1) / 400

def isLeapYear (y : ℤ) : Bool := y % 4 == 0 && (y % 100 != 0 || y % 400 == 0)

/-- Days from 0001-01-01 to the first day of a month. -/
def monthStart (k : ℤ) : ℤ :=
  yearStart (k / 12) + daysBefore (k % 12).toNat +
    if isLeapYear (k / 12) ∧ 2 ≤ k % 12 then 1 else 0

def civilMonth (d : ℤ) : ℕ := (monthDay (inLeapYear d) (civilYear d).2).1

def civilDay (d : ℤ) : ℕ := (monthDay (inLeapYear d) (civilYear d).2).2

/-- The number of the month that a day falls in. -/
def monthOf (d : ℤ) : ℤ := 12 * (civilYear d).1 + (civilMonth d - 1)

/-- Weekdays are counted from Sunday; 0001-01-01 was a Monday. -/
def weekday (d : ℤ) : ℤ := (d + 1) % 7

/-- `AddDate` for days, which are counted in seconds of 64 bits. -/
def addDays (d n : ℤ) : ℤ := d + (n * 86400).bmod (2 ^ 64) / 86400

theorem addDays_eq {d n : ℤ} (h : -2 ^ 44 ≤ n ∧ n ≤ 2 ^ 44) : addDays d n = d + n := by
  rw [addDays, Int.bmod_eq_of_le (by omega) (by omega), Int.mul_ediv_cancel _ (by decide)]

theorem yearStart_succ (y : ℤ) :
    yearStart (y + 1) = yearStart y + 365 + if isLeapYear y then 1 else 0 := by
  simp only [yearStart, isLeapYear, Bool.and_eq_true, beq_iff_eq, Bool.or_eq_true, bne_iff_ne]
  split <;> omega

variable (d : ℤ)

theorem isLeapYear_civilYear : isLeapYear (civilYear d).1 = inLeapYear d := by
  simp only [isLeapYear, inLeapYear, isLeap, civilYear]
  generalize (yearDay (d % 146097).toNat).1 = y
  rw [Bool.eq_iff_iff]
  simp only [Bool.and_eq_true, beq_iff_eq, Bool.or_eq_true, bne_iff_ne]
  omega

theorem yearStart_civilYear : yearStart (civilYear d).1 + (civilYear d).2 = d := by
  simp only [yearStart, civilYear]
  obtain ⟨a, b, c, n, hd, hy, hb, hc, hn, -⟩ := cycles (d % 146097).toNat
  generalize (yearDay (d % 146097).toNat).1 = y at *
  generalize (yearDay (d % 146097).toNat).2 = yday at *
  have h₄ : ((y : ℤ) + 400 * (d / 146097) - 1) / 4 = 100 * a + 25 * b + c + 100 * (d / 146097) := by
    omega
  have h₁₀₀ : ((y : ℤ) + 400 * (d / 146097) - 1) / 100 = 4 * a + b + 4 * (d / 146097) := by
    omega
  have h₄₀₀ : ((y : ℤ) + 400 * (d / 146097) - 1) / 400 = a + d / 146097 := by omega
  rw [h₄, h₁₀₀, h₄₀₀]
  omega

theorem monthDay_spec : ∀ leap : Bool, ∀ yday < 366, (leap = true ∨ yday < 365) →
    1 ≤ (monthDay leap yday).1 ∧ (monthDay leap yday).1 ≤ 12 ∧ 1 ≤ (monthDay leap yday).2 ∧
      yday + 1 = daysBefore ((monthDay leap yday).1 - 1) +
        (if leap ∧ 3 ≤ (monthDay leap yday).1 then 1 else 0) + (monthDay leap yday).2 ∧
      yday < daysBefore (monthDay leap yday).1 +
        (if leap ∧ 2 ≤ (monthDay leap yday).1 then 1 else 0) := by
  decide +kernel

theorem civilDate_spec : 1 ≤ civilMonth d ∧ civilMonth d ≤ 12 ∧ 1 ≤ civilDay d ∧
      (civilYear d).2 + 1 = daysBefore (civilMonth d - 1) +
        (if inLeapYear d ∧ 3 ≤ civilMonth d then 1 else 0) + civilDay d ∧
      (civilYear d).2 < daysBefore (civilMonth d) +
        (if inLeapYear d ∧ 2 ≤ civilMonth d then 1 else 0) := by
  have hday := civilYear_day_le d
  apply monthDay_spec
  · rcases hday with hday | hday <;> omega
  · exact hday.symm.imp And.right id

theorem monthOf_div : monthOf d / 12 = (civilYear d).1 ∧ monthOf d % 12 = civilMonth d - 1 := by
  have hspec := civilDate_spec d
  simp only [monthOf]
  omega

theorem monthStart_monthOf : monthStart (monthOf d) + civilDay d = d + 1 := by
  obtain ⟨hlo, hhi, hday, hspec, -⟩ := civilDate_spec d
  have hyear := yearStart_civilYear d
  obtain ⟨hdiv, hmod⟩ := monthOf_div d
  have hnat : (monthOf d % 12).toNat = civilMonth d - 1 := by omega
  have hleap : (isLeapYear (monthOf d / 12) ∧ 2 ≤ monthOf d % 12) ↔
      (inLeapYear d ∧ 3 ≤ civilMonth d) := by
    rw [hdiv, isLeapYear_civilYear]
    exact and_congr_right fun _ => by omega
  have hcast : ((civilYear d).2 : ℤ) + 1 = daysBefore (civilMonth d - 1) +
      (if inLeapYear d ∧ 3 ≤ civilMonth d then 1 else 0) + civilDay d := by exact_mod_cast hspec
  rw [monthStart, hnat, if_congr hleap rfl rfl, hdiv]
  linarith

/-- Days of a year before a month, counted from January; the thirteenth starts the next year. -/
def monthOffset (leap : Bool) (m : ℕ) : ℕ := daysBefore m + if leap ∧ 2 ≤ m then 1 else 0

theorem monthOffset_succ : ∀ leap : Bool, ∀ m < 12,
    monthOffset leap m + 28 ≤ monthOffset leap (m + 1) ∧
      monthOffset leap (m + 1) ≤ monthOffset leap m + 31 := by
  decide

theorem monthOffset_add_four : ∀ leap leap' : Bool, ∀ m < 12, monthOffset leap m + 119 ≤
      if m ≤ 8 then monthOffset leap (m + 4)
      else monthOffset leap 12 + monthOffset leap' (m - 8) := by
  decide

theorem monthStart_eq (y : ℤ) {m : ℕ} (hm : m ≤ 12) :
    monthStart (12 * y + m) = yearStart y + monthOffset (isLeapYear y) m := by
  rcases hm.lt_or_eq with hlt | rfl
  · have hdiv : (12 * y + m) / 12 = y := by omega
    have hmod : (12 * y + m) % 12 = m := by omega
    rw [monthStart, hdiv, hmod, Int.toNat_natCast, monthOffset]
    simp only [Nat.ofNat_le_cast]
    push_cast
    ring
  · have hdiv : (12 * y + (12 : ℕ)) / 12 = y + 1 := by omega
    have hmod : (12 * y + (12 : ℕ)) % 12 = 0 := by omega
    rw [monthStart, hdiv, hmod, yearStart_succ, monthOffset]
    cases isLeapYear y
    · simp [daysBefore]
    · simp [daysBefore]
      ring

theorem yearStart_succ_eq (y : ℤ) :
    yearStart (y + 1) = yearStart y + monthOffset (isLeapYear y) 12 := by
  rw [yearStart_succ]
  cases isLeapYear y
  · simp [monthOffset, daysBefore]
  · simp [monthOffset, daysBefore]
    ring

theorem exists_month (k : ℤ) : ∃ (y : ℤ) (m : ℕ), m < 12 ∧ k = 12 * y + m :=
  ⟨k / 12, (k % 12).toNat, by omega, by omega⟩

theorem monthStart_succ (k : ℤ) :
    monthStart k + 28 ≤ monthStart (k + 1) ∧ monthStart (k + 1) ≤ monthStart k + 31 := by
  obtain ⟨y, m, hm, rfl⟩ := exists_month k
  have hnext : 12 * y + m + 1 = 12 * y + (m + 1 : ℕ) := by push_cast; ring
  have hoffset := monthOffset_succ (isLeapYear y) m hm
  rw [hnext, monthStart_eq y hm.le, monthStart_eq y (show m + 1 ≤ 12 by omega)]
  omega

theorem monthStart_add_four (k : ℤ) : monthStart k + 119 ≤ monthStart (k + 4) := by
  obtain ⟨y, m, hm, rfl⟩ := exists_month k
  have hoffset := monthOffset_add_four (isLeapYear y) (isLeapYear (y + 1)) m hm
  by_cases h8 : m ≤ 8
  · have hnext : 12 * y + m + 4 = 12 * y + (m + 4 : ℕ) := by push_cast; ring
    rw [if_pos h8] at hoffset
    rw [hnext, monthStart_eq y hm.le, monthStart_eq y (by omega)]
    omega
  · have hnext : 12 * y + m + 4 = 12 * (y + 1) + (m - 8 : ℕ) := by omega
    rw [if_neg h8] at hoffset
    rw [hnext, monthStart_eq y hm.le, monthStart_eq (y + 1) (by omega), yearStart_succ_eq]
    omega

theorem monthStart_mono {j k : ℤ} (h : j ≤ k) : monthStart j + 28 * (k - j) ≤ monthStart k := by
  induction k, h using Int.leInduction with
  | base => simp
  | succ k hjk ih =>
    have hnext := (monthStart_succ k).1
    omega

theorem monthStart_le {j k : ℤ} (h : j ≤ k) : monthStart k ≤ monthStart j + 31 * (k - j) := by
  induction k, h using Int.leInduction with
  | base => simp
  | succ k hjk ih =>
    have hnext := (monthStart_succ k).2
    omega

theorem lt_monthStart_succ : d < monthStart (monthOf d + 1) := by
  obtain ⟨hlo, hhi, -, -, hlast⟩ := civilDate_spec d
  have hyear := yearStart_civilYear d
  have hnext : monthOf d + 1 = 12 * (civilYear d).1 + civilMonth d := by
    simp only [monthOf]
    ring
  have hoffset : (civilYear d).2 < monthOffset (inLeapYear d) (civilMonth d) := hlast
  rw [hnext, monthStart_eq _ hhi, isLeapYear_civilYear]
  omega

theorem monthOf_eq_iff {d k : ℤ} : monthOf d = k ↔ monthStart k ≤ d ∧ d < monthStart (k + 1) := by
  have hstart := monthStart_monthOf d
  have hday := (civilDate_spec d).2.2.1
  have hend := lt_monthStart_succ d
  constructor
  · rintro rfl
    exact ⟨by omega, hend⟩
  · rintro ⟨hle, hlt⟩
    rcases lt_trichotomy (monthOf d) k with hlow | heq | hhigh
    · have hmono := monthStart_mono (show monthOf d + 1 ≤ k by omega)
      omega
    · exact heq
    · have hmono := monthStart_mono (show k + 1 ≤ monthOf d by omega)
      omega

end Cfgms.Go
