import Cfgms.Go.Time

/-! # Instants in whole seconds

`time.Time.Format(time.RFC3339)` of UTC instants of any year. Two instants have the same text
exactly if they lie in the same second.
-/

namespace Cfgms.Go

open Text List

/-- The year, in full, and the day of that year, from the days since 0001-01-01. The calendar
repeats itself every 400 years. -/
def civilYear (d : ℤ) : ℤ × ℕ :=
  ((yearDay (d % 146097).toNat).1 + 400 * (d / 146097), (yearDay (d % 146097).toNat).2)

def inLeapYear (d : ℤ) : Bool := isLeap (yearDay (d % 146097).toNat).1

/-- At least four digits, after the sign. -/
def yearText : ℤ → List Char
  | .ofNat n => (padded 4 n).toList
  | .negSucc n => '-' :: (padded 4 (n + 1)).toList

/-- The layout `-01-02T15:04:05Z`, from the day and the second of that day. -/
def dayClockText (d : ℤ) (s : ℕ) : List Char :=
  let (month, day) := monthDay (inLeapYear d) (civilYear d).2
  '-' :: (fixed 2 month ++ '-' :: (fixed 2 day ++ 'T' ::
    (fixed 2 (s / 3600) ++ ':' :: (fixed 2 (s % 3600 / 60) ++ ':' :: (fixed 2 (s % 60) ++ ['Z'])))))

/-- Seconds since 0001-01-01 of an instant given in nanoseconds since the epoch. -/
def secondsOf (t : ℤ) : ℤ := t / 1000000000 + unixToInternal

def isZero (t : ℤ) : Bool := secondsOf t == 0 && t % 1000000000 == 0

/-- The text of `t.UTC().Format(time.RFC3339)`. -/
def formatRFC3339 (t : ℤ) : List Char :=
  yearText (civilYear (secondsOf t / 86400)).1 ++
    dayClockText (secondsOf t / 86400) (secondsOf t % 86400).toNat

theorem isDigit_of_mem_padded {w n : ℕ} {c : Char} (h : c ∈ (padded w n).toList) :
    c.isDigit = true := by
  rw [padded, String.toList_ofList, List.leftpad, mem_append] at h
  rcases h with h | h
  · rw [eq_of_mem_replicate h]
    decide
  · exact Nat.isDigit_of_mem_toDigits (by decide) (by decide) h

theorem yearText_injective : Function.Injective yearText := by
  have hdigit : ∀ n, '-' ∉ (padded 4 n).toList := fun n hn =>
    absurd (isDigit_of_mem_padded hn) (by decide)
  intro m n h
  cases m with
  | ofNat m =>
    cases n with
    | ofNat n => rw [padded_injective 4 (String.toList_injective h)]
    | negSucc n =>
      have hlist : (padded 4 m).toList = '-' :: (padded 4 (n + 1)).toList := h
      exact absurd (hlist ▸ mem_cons_self) (hdigit m)
  | negSucc m =>
    cases n with
    | ofNat n =>
      have hlist : '-' :: (padded 4 (m + 1)).toList = (padded 4 n).toList := h
      exact absurd (hlist ▸ mem_cons_self) (hdigit n)
    | negSucc n =>
      have hlist := (List.cons.inj h).2
      have := padded_injective 4 (String.toList_injective hlist)
      rw [Nat.succ.inj this]

theorem length_dayClockText (d : ℤ) (s : ℕ) : (dayClockText d s).length = 16 := by
  simp [dayClockText]

theorem yearDay_inj {d e : ℕ} (h : yearDay d = yearDay e) : d = e := by
  rcases Nat.lt_trichotomy d e with hlt | heq | hgt
  · have := yearDay_lt hlt
    simp [h] at this
  · exact heq
  · have := yearDay_lt hgt
    simp [h] at this

theorem monthDay_inj {leap : Bool} {i j : ℕ} (hi : i < 365 ∨ i = 365 ∧ leap = true)
    (hj : j < 365 ∨ j = 365 ∧ leap = true) (h : monthDay leap i = monthDay leap j) : i = j := by
  rcases Nat.lt_trichotomy i j with hlt | heq | hgt
  · have := monthDay_lt hlt hj
    simp [h] at this
  · exact heq
  · have := monthDay_lt hgt hi
    simp [h] at this

theorem yearDay_range {d : ℕ} (h : d < 146097) : 1 ≤ (yearDay d).1 ∧ (yearDay d).1 ≤ 400 := by
  obtain ⟨a, b, c, n, hd, hy, hb, hc, hn, -⟩ := cycles d
  omega

variable {d e : ℤ}

theorem civilYear_inj (h : civilYear d = civilYear e) : d = e := by
  have hrange : ∀ d : ℤ, (d % 146097).toNat < 146097 := by omega
  have hd := yearDay_range (hrange d)
  have he := yearDay_range (hrange e)
  obtain ⟨hyear, hday⟩ := Prod.mk.inj h
  have hperiod : d / 146097 = e / 146097 := by omega
  have hsame := Prod.ext (by omega) hday
  have hrest := yearDay_inj hsame
  omega

theorem inLeapYear_eq (h : (civilYear d).1 = (civilYear e).1) : inLeapYear d = inLeapYear e := by
  have hrange : ∀ d : ℤ, (d % 146097).toNat < 146097 := by omega
  have hd := yearDay_range (hrange d)
  have he := yearDay_range (hrange e)
  simp only [civilYear] at h
  have hsame : (yearDay (d % 146097).toNat).1 = (yearDay (e % 146097).toNat).1 := by omega
  rw [inLeapYear, inLeapYear, hsame]

theorem civilYear_day_le (d : ℤ) :
    (civilYear d).2 < 365 ∨ (civilYear d).2 = 365 ∧ inLeapYear d = true := yearDay_day_le _

theorem dayClockText_inj {s u : ℕ} (hs : s < 86400) (hu : u < 86400)
    (hyear : (civilYear d).1 = (civilYear e).1) (h : dayClockText d s = dayClockText e u) :
    d = e ∧ s = u := by
  have hdday := civilYear_day_le d
  have heday := civilYear_day_le e
  have hdm := monthDay_le (inLeapYear d) (civilYear d).2 (by omega)
  have hem := monthDay_le (inLeapYear e) (civilYear e).2 (by omega)
  -- the fields have fixed width, so the texts agree field by field
  have hfield : ∀ {m n : ℕ} {c : Char} {v w : List Char}, m < 10 ^ 2 → n < 10 ^ 2 →
      c :: (fixed 2 m ++ v) = c :: (fixed 2 n ++ w) → m = n ∧ v = w := by
    intro m n c v w hm hn h
    obtain ⟨hfixed, h⟩ := append_inj (List.cons.inj h).2 (by simp)
    exact ⟨fixed_injOn hm hn hfixed, h⟩
  simp only [dayClockText] at h
  obtain ⟨hmonth, h⟩ := hfield hdm.1 hem.1 h
  obtain ⟨hday, h⟩ := hfield (by omega) (by omega) h
  obtain ⟨hhour, h⟩ := hfield (by omega) (by omega) h
  obtain ⟨hminute, h⟩ := hfield (by omega) (by omega) h
  obtain ⟨hsecond, -⟩ := hfield (by omega) (by omega) h
  rw [inLeapYear_eq hyear] at hmonth hday hdday
  have hyday := monthDay_inj hdday heday (Prod.ext hmonth hday)
  exact ⟨civilYear_inj (Prod.ext hyear hyday), by omega⟩

theorem formatRFC3339_inj {t u : ℤ} :
    formatRFC3339 t = formatRFC3339 u ↔ t / 1000000000 = u / 1000000000 := by
  constructor
  · intro h
    obtain ⟨hyear, hrest⟩ := append_inj' h (by simp only [length_dayClockText])
    obtain ⟨hday, hclock⟩ := dayClockText_inj (by omega) (by omega) (yearText_injective hyear) hrest
    have hseconds : secondsOf t = secondsOf u := by omega
    simpa [secondsOf] using hseconds
  · intro h
    rw [formatRFC3339, formatRFC3339, secondsOf, h, secondsOf]

theorem mem_formatRFC3339 {t : ℤ} {c : Char} (h : c ∈ formatRFC3339 t) :
    c.isDigit ∨ c = '-' ∨ c = 'T' ∨ c = ':' ∨ c = 'Z' := by
  have hfixed : ∀ {n}, c ∈ fixed 2 n → c.isDigit := mem_fixed_isDigit
  rcases mem_append.mp h with hyear | hrest
  · cases hy : (civilYear (secondsOf t / 86400)).1 with
    | ofNat n =>
      rw [hy] at hyear
      exact .inl (isDigit_of_mem_padded hyear)
    | negSucc n =>
      rw [hy] at hyear
      rcases mem_cons.mp hyear with rfl | hyear
      · exact .inr (.inl rfl)
      · exact .inl (isDigit_of_mem_padded hyear)
  · simp only [dayClockText, mem_cons, mem_append, not_mem_nil, or_false] at hrest
    grind

end Cfgms.Go
