import Cfgms.Maintenance.Schedule

/-! # Next window start

What a schedule means is stated on its own: the nth of a weekday lies in its month, and the
window opens on that day or on a weekday next to it. The search agrees with that meaning where
months have the weekday often enough; a missing fifth one is counted into the next month.
-/

namespace Cfgms.Maintenance

open Go

/-- The day is the nth of a weekday in a month, the last one for -1. -/
def IsNth (wd : Weekday) (n k d : ℤ) : Prop :=
  Go.weekday d = wd.toInt ∧ monthStart k ≤ d ∧ d < monthStart (k + 1) ∧
    (1 ≤ n ∧ 7 * (n - 1) ≤ d - monthStart k ∧ d - monthStart k < 7 * n ∨
      n = -1 ∧ monthStart (k + 1) ≤ d + 7)

/-- The first of a weekday after a day. -/
def Follows (wd : Weekday) (e d : ℤ) : Prop := Go.weekday d = wd.toInt ∧ e < d ∧ d ≤ e + 7

/-- The last of a weekday before a day. -/
def Precedes (wd : Weekday) (e d : ℤ) : Prop := Go.weekday d = wd.toInt ∧ e - 7 ≤ d ∧ d < e

def ScheduledDay (s : Schedule) (d : ℤ) : Prop :=
  match s.freq with
  | .weekly => ∃ wd ∈ s.days, Go.weekday d = wd.toInt
  | .monthly =>
    (∃ n ∈ s.nth, ∃ k, IsNth s.weekday n k d) ∨
    (∃ a ∈ s.after, ∃ k e, IsNth a.weekday a.nth k e ∧ Follows s.weekday e d) ∨
    ∃ b ∈ s.before, ∃ k e, IsNth b.weekday b.nth k e ∧ Precedes s.weekday e d

def ScheduledStart (offset : ℤ) (s : Schedule) (t : ℤ) : Prop :=
  ∃ d, ScheduledDay s d ∧ t = startOn offset s d

/-- The day outside of a month that counting weeks from its first of a weekday leads to. -/
def CountedOut (wd : Weekday) (n k e : ℤ) : Prop :=
  n ≠ -1 ∧ Go.weekday e = wd.toInt ∧ 7 * (n - 1) ≤ e - monthStart k ∧ e - monthStart k < 7 * n ∧
    ¬ (monthStart k ≤ e ∧ e < monthStart (k + 1))

/-- A day that an anchor leads to which is missing in its month and counted out of it. -/
def RolledDay (s : Schedule) (d : ℤ) : Prop :=
  (∃ a ∈ s.after, ∃ k e, CountedOut a.weekday a.nth k e ∧ Follows s.weekday e d ∧
    (monthOf d = k ∨ monthOf d = k + 1)) ∨
  ∃ b ∈ s.before, ∃ k e, CountedOut b.weekday b.nth k e ∧ Precedes s.weekday e d ∧
    (monthOf d = k ∨ monthOf d = k - 1)

/-- The index of the weekday that a monthly schedule counts. -/
def Schedule.index (s : Schedule) : Option ℤ :=
  match s.nth, s.after, s.before with
  | some n, _, _ => some n
  | none, some a, _ => some a.nth
  | none, none, b => b.map (·.nth)

/-- A month can have an nth of a weekday. -/
def ValidIndex (n : ℤ) : Prop := n = -1 ∨ 1 ≤ n ∧ n ≤ 5

/-- Counting does not leave the 64 bits of a time. -/
def BoundedIndex (n : ℤ) : Prop := -2 ^ 40 ≤ n ∧ n ≤ 2 ^ 40

structure Accepted (s : Schedule) : Prop where
  hour : 0 ≤ s.start.hour ∧ s.start.hour ≤ 23
  minute : 0 ≤ s.start.minute ∧ s.start.minute ≤ 59
  rule : s.freq = .weekly ∧ s.days ≠ [] ∧ s.nth = none ∧ s.after = none ∧ s.before = none ∨
    s.freq = .monthly ∧
      ((∃ n, s.nth = some n ∧ s.after = none ∧ s.before = none) ∨
        (∃ a, s.nth = none ∧ s.after = some a ∧ s.before = none) ∨
        ∃ b, s.nth = none ∧ s.after = none ∧ s.before = some b)

section Parse

variable {Location : Type} {p : Platform Location}

theorem parseTimeOfDay_bounds {text : String} {allowEndOfDay : Bool} {t : TimeOfDay}
    (h : parseTimeOfDay text allowEndOfDay = .ok t) :
    (0 ≤ t.hour ∧ t.hour ≤ 23) ∧ 0 ≤ t.minute ∧ t.minute ≤ 59 := by
  revert h
  fun_cases parseTimeOfDay text allowEndOfDay <;> rintro ⟨⟩
  · decide
  · dsimp only
    omega

theorem parseWeekdays_ne_nil {field : String} {days : List String} {wds : List Weekday}
    (hdays : days ≠ []) (h : parseWeekdays p field days = .ok wds) : wds ≠ [] := by
  revert h
  fun_cases parseWeekdays p field days <;> rintro ⟨⟩
  · exact absurd rfl hdays
  · simp

variable {rs : RawSchedule} {s : Schedule}

theorem parseRule_accepted {field : String} {freq : Freq}
    {start endTime : TimeOfDay} (hcheck : checkFields field rs freq = none)
    (hhour : 0 ≤ start.hour ∧ start.hour ≤ 23) (hminute : 0 ≤ start.minute ∧ start.minute ≤ 59)
    (h : parseRule p field rs freq start endTime = .ok s) : Accepted s := by
  unfold checkFields at hcheck
  revert h
  fun_cases parseRule p field rs freq start endTime <;> rintro ⟨⟩
  · next wds hwds =>
    dsimp only at hcheck
    split_ifs at hcheck with hcount hnth hafter hbefore hdays
    exact ⟨hhour, hminute, .inl ⟨rfl, parseWeekdays_ne_nil hdays hwds, rfl, rfl, rfl⟩⟩
  · exact ⟨hhour, hminute, .inr ⟨rfl, .inl ⟨_, rfl, rfl, rfl⟩⟩⟩
  · exact ⟨hhour, hminute, .inr ⟨rfl, .inr (.inl ⟨_, rfl, rfl, rfl⟩)⟩⟩
  · exact ⟨hhour, hminute, .inr ⟨rfl, .inr (.inr ⟨_, rfl, rfl, rfl⟩)⟩⟩
  · next hnth hafter hbefore =>
    dsimp only at hcheck
    split_ifs at hcheck with hcount hdays hzero
    simp [RawSchedule.anchorCount, hnth, hafter, hbefore] at hzero

variable {ws : List String}
variable {i : ℕ} {loc : Option Location}

theorem validateSchedule_passed (h : validateSchedule p i rs loc = .ok (s, ws)) :
    ∃ field freq start endTime, checkFields field rs freq = none ∧
      parseTimeOfDay rs.start false = .ok start ∧
      parseTimeOfDay rs.endTime true = .ok endTime ∧
      parseRule p field rs freq start endTime = .ok s := by
  revert h
  fun_cases validateSchedule p i rs loc <;> rintro ⟨⟩
  all_goals exact ⟨_, _, _, _, ‹_›, ‹_›, ‹_›, ‹_›⟩

theorem validateSchedules_passed {raw : List RawSchedule} {schedules : List Schedule}
    (h : validateSchedules p loc i raw = .ok (schedules, ws)) :
    ∀ s ∈ schedules, ∃ i rs ws, validateSchedule p i rs loc = .ok (s, ws) := by
  revert h
  fun_induction validateSchedules p loc i raw generalizing schedules ws with rintro ⟨⟩
  | case1 => simp
  | case4 i rs rest s ws' hs ss wss hss ih =>
    rw [List.forall_mem_cons]
    exact ⟨⟨i, rs, ws', hs⟩, ih hss⟩

variable {data : List UInt8} {config : Config}

theorem parse_passed (h : parse p data = .ok (config, ws)) :
    ∀ s ∈ config.schedules, ∃ i rs loc ws, validateSchedule p i rs loc = .ok (s, ws) := by
  revert h
  fun_cases parse p data <;> rintro ⟨⟩
  intro s hs
  obtain ⟨i, rs, ws, hvalid⟩ := validateSchedules_passed ‹_› s hs
  exact ⟨i, rs, _, ws, hvalid⟩

theorem parse_accepted
    (h : parse p data = .ok (config, ws)) : ∀ s ∈ config.schedules, Accepted s := by
  intro s hs
  obtain ⟨i, rs, loc, ws, hvalid⟩ := parse_passed h s hs
  obtain ⟨field, freq, start, endTime, hcheck, hstart, -, hrule⟩ := validateSchedule_passed hvalid
  have hbounds := parseTimeOfDay_bounds hstart
  exact parseRule_accepted hcheck hbounds.1 hbounds.2 hrule

end Parse

theorem Weekday.toInt_bounds (wd : Weekday) : 0 ≤ wd.toInt ∧ wd.toInt ≤ 6 := by
  cases wd <;> decide

theorem Weekday.toInt_injective : Function.Injective Weekday.toInt := by
  intro a b h
  cases a <;> cases b <;> first | rfl | exact absurd h (by decide)

theorem ValidIndex.bounded {n : ℤ} (h : ValidIndex n) : BoundedIndex n := by
  unfold ValidIndex at h
  unfold BoundedIndex
  omega

theorem nthWeekdayOfMonth_spec (k : ℤ) (wd : Weekday) {n : ℤ} (hn : BoundedIndex n) :
    Go.weekday (nthWeekdayOfMonth k wd n) = wd.toInt ∧
      7 * (n - 1) ≤ nthWeekdayOfMonth k wd n - monthStart k ∧
      nthWeekdayOfMonth k wd n - monthStart k < 7 * n := by
  have hwd := wd.toInt_bounds
  unfold BoundedIndex at hn
  rw [nthWeekdayOfMonth, addDays_eq (by omega)]
  simp only [Go.weekday]
  omega

theorem lastWeekdayOfMonth_spec (k : ℤ) (wd : Weekday) :
    Go.weekday (lastWeekdayOfMonth k wd) = wd.toInt ∧
      lastWeekdayOfMonth k wd < monthStart (k + 1) ∧
      monthStart (k + 1) ≤ lastWeekdayOfMonth k wd + 7 := by
  have hwd := wd.toInt_bounds
  simp only [lastWeekdayOfMonth, Go.weekday]
  omega

variable {d k : ℤ} {wd : Weekday} {s : Schedule}
variable {n : ℤ}

theorem IsNth.validIndex (h : IsNth wd n k d) : ValidIndex n := by
  have hlength := monthStart_succ k
  unfold IsNth at h
  unfold ValidIndex
  omega

/-- An nth weekday that is missing in its month is counted out of it. -/
theorem anchorDate_eq_iff (wd : Weekday) (hn : BoundedIndex n) (k e : ℤ) :
    anchorDate k wd n = e ↔ IsNth wd n k e ∨ CountedOut wd n k e := by
  have hlength := monthStart_succ k
  have hlast := lastWeekdayOfMonth_spec k wd
  have hnth := nthWeekdayOfMonth_spec k wd hn
  unfold anchorDate IsNth CountedOut
  simp only [Go.weekday] at *
  split <;> omega

theorem weekday_anchorDate (k : ℤ) (wd : Weekday) (hn : BoundedIndex n) :
    Go.weekday (anchorDate k wd n) = wd.toInt := by
  rcases (anchorDate_eq_iff wd hn k _).mp rfl with h | h
  · exact h.1
  · exact h.2.1

theorem weekdayAnchored_eq_iff {anchorWD : Weekday} (hn : BoundedIndex n) :
    (weekdayAfterAnchor k wd anchorWD n = d ↔ Follows wd (anchorDate k anchorWD n) d) ∧
      (weekdayBeforeAnchor k wd anchorWD n = d ↔ Precedes wd (anchorDate k anchorWD n) d) := by
  have hanchor := weekday_anchorDate k anchorWD hn
  have hwd := wd.toInt_bounds
  unfold weekdayAfterAnchor weekdayBeforeAnchor Follows Precedes
  generalize anchorDate k anchorWD n = e at *
  by_cases heq : wd = anchorWD
  · subst heq
    simp only [Go.weekday, if_true] at *
    omega
  · have hne : wd.toInt ≠ anchorWD.toInt := fun h => heq (Weekday.toInt_injective h)
    simp only [hanchor, if_neg heq]
    simp only [Go.weekday] at *
    constructor
    all_goals split <;> omega

theorem monthly_nth_iff (hnth : s.nth = some n)
    (hafter : s.after = none) (hbefore : s.before = none) (hn : BoundedIndex n) (d : ℤ) :
    isMonthlyScheduledDay d s ↔ ∃ k, IsNth s.weekday n k d := by
  have hmonth := (monthOf_eq_iff (d := d)).mp rfl
  have hcode : isMonthlyScheduledDay d s ↔
      Go.weekday d = s.weekday.toInt ∧ anchorDate (monthOf d) s.weekday n = d := by
    simp [isMonthlyScheduledDay, resolveMonthlyDate, hnth, hafter, hbefore]
  rw [hcode, anchorDate_eq_iff _ hn]
  constructor
  · rintro ⟨-, h | h⟩
    · exact ⟨_, h⟩
    · exact absurd hmonth h.2.2.2.2
  · rintro ⟨k, hk⟩
    obtain rfl : monthOf d = k := monthOf_eq_iff.mpr ⟨hk.2.1, hk.2.2.1⟩
    exact ⟨hk.1, .inl hk⟩

/-- An anchor in its month is found from the months next to the day, and so are those that are
counted out of these months. -/
theorem exists_anchorDate_iff {R : ℤ → Prop} {near : ℤ → Prop} (hn : BoundedIndex n)
    (hnear : ∀ k e, IsNth wd n k e → R e → near k) :
    (∃ k, near k ∧ R (anchorDate k wd n)) ↔ (∃ k e, IsNth wd n k e ∧ R e) ∨
      ∃ k e, CountedOut wd n k e ∧ R e ∧ near k := by
  constructor
  · rintro ⟨k, hk, hR⟩
    rcases (anchorDate_eq_iff wd hn k _).mp rfl with h | h
    · exact .inl ⟨k, _, h, hR⟩
    · exact .inr ⟨k, _, h, hR, hk⟩
  · rintro (⟨k, e, h, hR⟩ | ⟨k, e, h, hR, hk⟩)
    · exact ⟨k, hnear k e h hR, (anchorDate_eq_iff wd hn k e).mpr (.inl h) ▸ hR⟩
    · exact ⟨k, hk, (anchorDate_eq_iff wd hn k e).mpr (.inr h) ▸ hR⟩

theorem monthly_after_iff {a : Anchor} (hnth : s.nth = none)
    (hafter : s.after = some a) (hn : BoundedIndex a.nth) (d : ℤ) :
    isMonthlyScheduledDay d s ↔
      (∃ k e, IsNth a.weekday a.nth k e ∧ Follows s.weekday e d) ∨
      ∃ k e, CountedOut a.weekday a.nth k e ∧ Follows s.weekday e d ∧
        (monthOf d = k ∨ monthOf d = k + 1) := by
  rw [← exists_anchorDate_iff (R := (Follows s.weekday · d)) hn]
  · have hresolve (k : ℤ) :
        resolveMonthlyDate k s = weekdayAfterAnchor k s.weekday a.weekday a.nth := by
      simp [resolveMonthlyDate, hnth, hafter]
    simp only [isMonthlyScheduledDay, hresolve, hafter, Option.isSome_some, if_true,
      Bool.and_eq_true, Bool.or_eq_true, decide_eq_true_eq, (weekdayAnchored_eq_iff hn).1]
    constructor
    · rintro ⟨-, h | h⟩
      · exact ⟨_, .inl rfl, h⟩
      · exact ⟨_, .inr (by omega), h⟩
    · rintro ⟨k, rfl | hk, h⟩
      · exact ⟨h.1, .inl h⟩
      · exact ⟨h.1, .inr (by rwa [hk, add_sub_cancel_right])⟩
  · rintro k e ⟨-, hlo, hhi, -⟩ ⟨-, hgt, hle⟩
    have hlength := monthStart_succ (k + 1)
    rw [monthOf_eq_iff, monthOf_eq_iff]
    omega

theorem monthly_before_iff {b : Anchor} (hnth : s.nth = none)
    (hafter : s.after = none) (hbefore : s.before = some b) (hn : BoundedIndex b.nth) (d : ℤ) :
    isMonthlyScheduledDay d s ↔
      (∃ k e, IsNth b.weekday b.nth k e ∧ Precedes s.weekday e d) ∨
      ∃ k e, CountedOut b.weekday b.nth k e ∧ Precedes s.weekday e d ∧
        (monthOf d = k ∨ monthOf d = k - 1) := by
  rw [← exists_anchorDate_iff (R := (Precedes s.weekday · d)) hn]
  · have hresolve (k : ℤ) :
        resolveMonthlyDate k s = weekdayBeforeAnchor k s.weekday b.weekday b.nth := by
      simp [resolveMonthlyDate, hnth, hafter, hbefore]
    simp only [isMonthlyScheduledDay, hresolve, hafter, hbefore, Option.isSome_none,
      Option.isSome_some, Bool.false_eq_true, if_false, Bool.true_and, Bool.and_eq_true,
      Bool.or_eq_true, decide_eq_true_eq, (weekdayAnchored_eq_iff hn).2]
    constructor
    · rintro ⟨-, h | h⟩
      · exact ⟨_, .inl rfl, h⟩
      · exact ⟨_, .inr (by omega), h⟩
    · rintro ⟨k, rfl | hk, h⟩
      · exact ⟨h.1, .inl h⟩
      · exact ⟨h.1, .inr (by rwa [hk, sub_add_cancel])⟩
  · rintro k e ⟨-, hlo, hhi, -⟩ ⟨-, hge, hlt⟩
    have hlength := monthStart_succ (k - 1)
    rw [monthOf_eq_iff, monthOf_eq_iff]
    rw [sub_add_cancel] at hlength ⊢
    omega

theorem Accepted.isScheduledDay_iff (h : Accepted s)
    (hindex : ∀ n ∈ s.index, BoundedIndex n) (d : ℤ) :
    isScheduledDay d s ↔ ScheduledDay s d ∨ RolledDay s d := by
  rcases h.rule with ⟨hfreq, -, hnth, hafter, hbefore⟩ | ⟨hfreq, hrule⟩
  · simp [isScheduledDay, ScheduledDay, RolledDay, hfreq, hafter, hbefore]
  rcases hrule with ⟨n, hnth, hafter, hbefore⟩ | ⟨a, hnth, hafter, hbefore⟩ |
    ⟨b, hnth, hafter, hbefore⟩
  · have hn : BoundedIndex n := hindex n (by simp [Schedule.index, hnth])
    simp [isScheduledDay, ScheduledDay, RolledDay, hfreq, hnth, hafter, hbefore,
      monthly_nth_iff hnth hafter hbefore hn]
  · have hn : BoundedIndex a.nth := hindex a.nth (by simp [Schedule.index, hnth, hafter])
    simp [isScheduledDay, ScheduledDay, RolledDay, hfreq, hnth, hafter, hbefore,
      monthly_after_iff hnth hafter hn]
  · have hn : BoundedIndex b.nth :=
      hindex b.nth (by simp [Schedule.index, hnth, hafter, hbefore])
    simp [isScheduledDay, ScheduledDay, RolledDay, hfreq, hnth, hafter, hbefore,
      monthly_before_iff hnth hafter hbefore hn]

theorem Accepted.validIndex_of_scheduledDay (h : Accepted s)
    (hd : ScheduledDay s d) : ∀ n ∈ s.index, ValidIndex n := by
  intro n hn
  unfold ScheduledDay at hd
  rcases h.rule with ⟨hfreq, -, hnth, hafter, hbefore⟩ | ⟨hfreq, hrule⟩
  · simp [Schedule.index, hnth, hafter, hbefore] at hn
  rw [hfreq] at hd
  rcases hrule with ⟨m, hnth, hafter, hbefore⟩ | ⟨a, hnth, hafter, hbefore⟩ |
    ⟨b, hnth, hafter, hbefore⟩
  · obtain rfl : m = n := by simpa [Schedule.index, hnth] using hn
    obtain ⟨k, hk⟩ := by simpa [hnth, hafter, hbefore] using hd
    exact hk.validIndex
  · obtain rfl : a.nth = n := by simpa [Schedule.index, hnth, hafter] using hn
    obtain ⟨k, e, he, -⟩ := by simpa [hnth, hafter, hbefore] using hd
    exact he.validIndex
  · obtain rfl : b.nth = n := by simpa [Schedule.index, hnth, hafter, hbefore] using hn
    obtain ⟨k, e, he, -⟩ := by simpa [hnth, hafter, hbefore] using hd
    exact he.validIndex

theorem first_add_of_missing (hn : ValidIndex n) (h : ∀ e, ¬ IsNth wd n k e) :
    nthWeekdayOfMonth (k + 1) wd 1 = nthWeekdayOfMonth k wd 1 + 28 := by
  have hone : BoundedIndex 1 := ValidIndex.bounded (.inr (by omega))
  have hfirst := nthWeekdayOfMonth_spec k wd hone
  have hnext := nthWeekdayOfMonth_spec (k + 1) wd hone
  have hlength := monthStart_succ k
  have hout := ((anchorDate_eq_iff wd hn.bounded k _).mp rfl).resolve_left (h _)
  unfold CountedOut at hout
  unfold ValidIndex at hn
  simp only [Go.weekday] at *
  omega

theorem exists_isNth (hn : ValidIndex n) (wd : Weekday) (k : ℤ) :
    ∃ k' e, k ≤ k' ∧ k' ≤ k + 3 ∧ IsNth wd n k' e := by
  by_contra! hnone
  -- four months without the weekday would have only sixteen weeks
  have h₁ := first_add_of_missing hn fun e => hnone k e (by omega) (by omega)
  have h₂ := first_add_of_missing hn fun e => hnone (k + 1) e (by omega) (by omega)
  have h₃ := first_add_of_missing hn fun e => hnone (k + 2) e (by omega) (by omega)
  have h₄ := first_add_of_missing hn fun e => hnone (k + 3) e (by omega) (by omega)
  rw [show k + 1 + 1 = k + 2 by ring] at h₂
  rw [show k + 2 + 1 = k + 3 by ring] at h₃
  rw [show k + 3 + 1 = k + 4 by ring] at h₄
  have hone : BoundedIndex 1 := ValidIndex.bounded (.inr (by omega))
  have hfirst := nthWeekdayOfMonth_spec k wd hone
  have hlast := nthWeekdayOfMonth_spec (k + 4) wd hone
  have hlength := monthStart_add_four k
  omega

theorem exists_weekday (wd : Weekday) (t : ℤ) : ∃ d, t < d ∧ d ≤ t + 7 ∧
    Go.weekday d = wd.toInt := by
  have hwd := wd.toInt_bounds
  refine ⟨t + 1 + (wd.toInt - t - 2) % 7, by omega, by omega, ?_⟩
  simp only [Go.weekday]
  omega

theorem Accepted.exists_scheduledDay (h : Accepted s)
    (hindex : ∀ n ∈ s.index, ValidIndex n) (t : ℤ) :
    ∃ d, t < d ∧ d ≤ t + 400 ∧ ScheduledDay s d := by
  have hmonth := (monthOf_eq_iff (d := t)).mp rfl
  have hnth : ∀ {n : ℤ}, ValidIndex n → ∀ wd : Weekday, ∃ k e, IsNth wd n k e ∧
      t + 7 < e ∧ e ≤ t + 200 := by
    intro n hn wd
    obtain ⟨k, e, hlo, hhi, he⟩ := exists_isNth hn wd (monthOf t + 2)
    refine ⟨k, e, he, ?_, ?_⟩
    · have hmono := monthStart_mono (show monthOf t + 1 ≤ k by omega)
      have hstart := he.2.1
      omega
    · have hle := monthStart_le (show monthOf t ≤ k + 1 by omega)
      have hend := he.2.2.1
      omega
  unfold ScheduledDay
  rcases h.rule with ⟨hfreq, hdays, -⟩ | ⟨hfreq, hrule⟩
  · rw [hfreq]
    obtain ⟨wd, hwd⟩ := List.exists_mem_of_ne_nil _ hdays
    obtain ⟨d, hlo, hhi, hd⟩ := exists_weekday wd t
    exact ⟨d, hlo, by omega, wd, hwd, hd⟩
  · rw [hfreq]
    rcases hrule with ⟨n, hn, -, -⟩ | ⟨a, hn, ha, -⟩ | ⟨b, hn, ha, hb⟩
    · obtain ⟨k, e, he, hlo, hhi⟩ :=
        hnth (hindex n (by simp [Schedule.index, hn])) s.weekday
      exact ⟨e, by omega, by omega, .inl ⟨n, hn, k, he⟩⟩
    · obtain ⟨k, e, he, hlo, hhi⟩ :=
        hnth (hindex a.nth (by simp [Schedule.index, hn, ha])) a.weekday
      obtain ⟨d, hd, hd', hwd⟩ := exists_weekday s.weekday e
      exact ⟨d, by omega, by omega, .inr (.inl ⟨a, ha, k, e, he, hwd, hd, hd'⟩)⟩
    · obtain ⟨k, e, he, hlo, hhi⟩ :=
        hnth (hindex b.nth (by simp [Schedule.index, hn, ha, hb])) b.weekday
      obtain ⟨d, hd, hd', hwd⟩ := exists_weekday s.weekday (e - 8)
      refine ⟨d, by omega, by omega, .inr (.inr ⟨b, hb, k, e, he, hwd, ?_, ?_⟩)⟩ <;> omega

theorem searchDays_cases (offset : ℤ) (s : Schedule) (n : ℕ) (b : ℤ) :
    (∃ d, b ≤ d ∧ d < b + n ∧ isScheduledDay d s ∧ searchDays offset s n b = startOn offset s d ∧
      ∀ d', b ≤ d' → isScheduledDay d' s → d ≤ d') ∨
    (∀ d, b ≤ d → d < b + n → ¬ isScheduledDay d s) ∧ searchDays offset s n b = 0 := by
  induction n generalizing b with
  | zero => exact .inr ⟨fun d hlo hhi => by simp at hhi; omega, rfl⟩
  | succ n ih =>
    unfold searchDays
    push_cast
    by_cases hday : isScheduledDay b s
    · exact .inl ⟨b, le_rfl, by omega, hday, if_pos hday, fun _ hle _ => hle⟩
    have hnext : ∀ d, b ≤ d → isScheduledDay d s → b + 1 ≤ d := by
      intro d hle hd
      have hne : b ≠ d := fun heq => hday (heq ▸ hd)
      omega
    rw [if_neg hday]
    rcases ih (b + 1) with ⟨d, hlo, hhi, hd, heq, hmin⟩ | ⟨hnone, heq⟩
    · exact .inl ⟨d, by omega, by omega, hd, heq, fun d' hle hd' => hmin d' (hnext d' hle hd') hd'⟩
    · exact .inr ⟨fun d hlo hhi hd => hnone d (hnext d hlo hd) (by omega) hd, heq⟩

theorem startOn_le_iff {offset : ℤ} {d' : ℤ} :
    startOn offset s d ≤ startOn offset s d' ↔ d ≤ d' := by
  simp only [startOn]
  omega

section Search

variable {s : Schedule} (h : Accepted s) (offset after : ℤ)

include h

theorem Accepted.localDay_le {d : ℤ} (hd : after ≤ startOn offset s d) :
    localDay offset after ≤ d := by
  have hhour := h.hour
  have hminute := h.minute
  simp only [startOn, localDay] at *
  omega

theorem Accepted.le_startOn {d : ℤ} (hd : localDay offset after < d) :
    after ≤ startOn offset s d := by
  have hhour := h.hour
  have hminute := h.minute
  simp only [startOn, localDay] at *
  omega

theorem Accepted.nextOccurrence_spec (hindex : ∀ n ∈ s.index, ValidIndex n) :
    ∃ d, (ScheduledDay s d ∨ RolledDay s d) ∧ nextOccurrence offset after s = startOn offset s d ∧
      after ≤ startOn offset s d ∧
      ∀ d', ScheduledDay s d' ∨ RolledDay s d' → after ≤ startOn offset s d' → d ≤ d' := by
  obtain ⟨e, hlo, hhi, he⟩ := h.exists_scheduledDay hindex (localDay offset after)
  have hbounded : ∀ n ∈ s.index, BoundedIndex n := fun n hn => (hindex n hn).bounded
  have htaken := (h.isScheduledDay_iff hbounded e).mpr (.inl he)
  simp only [← h.isScheduledDay_iff hbounded]
  unfold nextOccurrence
  dsimp only
  split
  · next htoday =>
    refine ⟨_, htoday.2, rfl, not_lt.mp htoday.1, fun d' _ hd' => ?_⟩
    exact h.localDay_le offset after hd'
  · next htoday =>
    obtain ⟨d, hd₁, -, hd₂, hsearch, hmin⟩ :=
      (searchDays_cases offset s 400 (localDay offset after + 1)).resolve_right
        fun hnone => hnone.1 e (by omega) (by push_cast; omega) htaken
    refine ⟨d, hd₂, hsearch, h.le_startOn offset after (by omega), fun d' hd' hafter => ?_⟩
    have hle := h.localDay_le offset after hafter
    have hne : localDay offset after ≠ d' := by
      rintro rfl
      exact htoday ⟨not_lt.mpr hafter, hd'⟩
    exact hmin d' (by omega) hd'

end Search

def IsFirstStart (offset after : ℤ) (s : Schedule) (t : ℤ) : Prop :=
  ScheduledStart offset s t ∧ after ≤ t ∧ ∀ t', ScheduledStart offset s t' → after ≤ t' → t ≤ t'

/-- The next occurrence is the first scheduled start, and not the zero time, exactly if the
schedule counts a weekday that a month can have, no day that a missing anchor leads to
comes before the first scheduled one, and that one is not the zero time. -/
theorem next_occurrence {Location : Type} (p : Platform Location) {data : List UInt8}
    {config : Config} {warnings : List String} (hparse : parse p data = .ok (config, warnings))
    {s : Schedule} (hs : s ∈ config.schedules) (offset after : ℤ) :
    (IsFirstStart offset after s (nextOccurrence offset after s) ∧
      nextOccurrence offset after s ≠ 0) ↔
    ((∀ n ∈ s.index, ValidIndex n) ∧
      (∀ d, RolledDay s d → after ≤ startOn offset s d →
        ∃ d' ≤ d, ScheduledDay s d' ∧ after ≤ startOn offset s d') ∧
      ¬ IsFirstStart offset after s 0) := by
  have haccepted := parse_accepted hparse s hs
  constructor
  · rintro ⟨hfirst, hnonzero⟩
    obtain ⟨⟨d₀, hd₀, hr⟩, hafter, hmin⟩ := hfirst
    have hindex := haccepted.validIndex_of_scheduledDay hd₀
    refine ⟨hindex, fun d hd hd' => ?_, fun hzero => ?_⟩
    · -- the search does not pass over a day that the code takes
      obtain ⟨d₁, -, heq, -, hmin₁⟩ := haccepted.nextOccurrence_spec offset after hindex
      have hsame := hr.symm.trans heq
      exact ⟨d₀, (startOn_le_iff.mp hsame.le).trans (hmin₁ d (.inr hd) hd'), hd₀, hr ▸ hafter⟩
    · have hle := hmin 0 hzero.1 hzero.2.1
      have hge := hzero.2.2 _ ⟨d₀, hd₀, hr⟩ hafter
      exact hnonzero (le_antisymm hle hge)
  · rintro ⟨hindex, hrolled, hzero⟩
    obtain ⟨d, hd, heq, hafter, hmin⟩ := haccepted.nextOccurrence_spec offset after hindex
    have hproper : ScheduledDay s d := by
      rcases hd with hd | hd
      · exact hd
      obtain ⟨d', hle, hd', hafter'⟩ := hrolled d hd hafter
      exact le_antisymm hle (hmin d' (.inl hd') hafter') ▸ hd'
    have hfirst : IsFirstStart offset after s (nextOccurrence offset after s) := by
      rw [heq]
      refine ⟨⟨d, hproper, rfl⟩, hafter, ?_⟩
      rintro t' ⟨d', hd', rfl⟩ hafter'
      exact startOn_le_iff.mpr (hmin d' (.inl hd') hafter')
    refine ⟨hfirst, fun hnil => hzero ?_⟩
    rw [hnil] at hfirst
    exact hfirst

def decodingTo (raw : RawConfig) : Platform Unit :=
  ⟨fun _ => .ok raw, fun _ => .error "unknown time zone", fun _ _ => "", String.quote,
    .asciiOnly⟩

def monthlyNth (weekday : String) (n : ℤ) : RawConfig :=
  ⟨"", [⟨"monthly", weekday, [], some n, none, none, "02:00", "04:00"⟩]⟩

def monthlySchedule (weekday : Weekday) (n : ℤ) : Schedule :=
  ⟨.monthly, weekday, [], some n, none, none, ⟨2, 0, false⟩, ⟨4, 0, false⟩⟩

def newYear2026 : ℤ := 63902822400000000000

theorem next_occurrence_second_thursday : parse (decodingTo (monthlyNth "thursday" 2)) [] =
        .ok (⟨"", [monthlySchedule .thursday 2]⟩, []) ∧
      IsFirstStart 0 newYear2026 (monthlySchedule .thursday 2)
          (nextOccurrence 0 newYear2026 (monthlySchedule .thursday 2)) ∧
        nextOccurrence 0 newYear2026 (monthlySchedule .thursday 2) ≠ 0 := by
  have hparse : parse (decodingTo (monthlyNth "thursday" 2)) [] =
      .ok (⟨"", [monthlySchedule .thursday 2]⟩, []) := rfl
  refine ⟨hparse, (next_occurrence _ hparse (List.mem_singleton_self _) 0 newYear2026).mpr ?_⟩
  refine ⟨?_, ?_, ?_⟩
  · rintro n ⟨⟩
    exact .inr (by decide)
  · rintro d (⟨a, ha, -⟩ | ⟨b, hb, -⟩)
    · cases ha
    · cases hb
  · rintro ⟨-, hafter, -⟩
    exact absurd hafter (by decide)

/-- A sixth Monday is accepted, and its next occurrence is the zero time. -/
theorem sixth_monday_never : parse (decodingTo (monthlyNth "monday" 6)) [] =
        .ok (⟨"", [monthlySchedule .monday 6]⟩, []) ∧
      nextOccurrence 0 newYear2026 (monthlySchedule .monday 6) = 0 :=
  ⟨rfl, by decide +kernel⟩

/-- A day is taken exactly if the rule of some month yields it, where the days that missing anchors
lead to are themselves days of some month. -/
theorem monthly_day_iff {Location : Type} (p : Platform Location) {data : List UInt8}
    {config : Config} {warnings : List String} (hparse : parse p data = .ok (config, warnings))
    {s : Schedule} (hs : s ∈ config.schedules) (hfreq : s.freq = .monthly)
    (hindex : ∀ n ∈ s.index, BoundedIndex n) (d : ℤ) :
    (isMonthlyScheduledDay d s ↔ ScheduledDay s d) ↔ (RolledDay s d → ScheduledDay s d) := by
  have hiff := (parse_accepted hparse s hs).isScheduledDay_iff hindex d
  rw [isScheduledDay, hfreq] at hiff
  rw [hiff, or_iff_left_iff_imp]

def rawAfterFifth : RawConfig :=
  ⟨"", [⟨"monthly", "saturday", [], none, some ⟨"thursday", 5⟩, none, "02:00", "04:00"⟩]⟩

def afterFifth : Schedule :=
  ⟨.monthly, .saturday, [], none, some ⟨.thursday, 5⟩, none, ⟨2, 0, false⟩, ⟨4, 0, false⟩⟩

/-- The last day of January 2026 comes after its fifth Thursday. -/
theorem monthly_day_fifth_thursday :
    isMonthlyScheduledDay 739646 afterFifth ↔ ScheduledDay afterFifth 739646 := by
  have hparse : parse (decodingTo rawAfterFifth) [] = .ok (⟨"", [afterFifth]⟩, []) := rfl
  refine (monthly_day_iff _ hparse (List.mem_singleton_self _) rfl ?_ _).mpr fun _ => ?_
  · rintro n ⟨⟩
    exact ⟨by decide, by decide⟩
  · refine .inr (.inl ⟨_, rfl, 24312, 739644, ⟨?_, ?_, ?_, .inl ?_⟩, ?_, ?_, ?_⟩) <;> decide +kernel

/-- February 2026 has no fifth Thursday, and yet the first Saturday of March is taken. -/
theorem missing_fifth_taken :
    parse (decodingTo rawAfterFifth) [] = .ok (⟨"", [afterFifth]⟩, []) ∧
      isMonthlyScheduledDay 739681 afterFifth ∧ ¬ ScheduledDay afterFifth 739681 := by
  refine ⟨rfl, by decide +kernel, ?_⟩
  rintro (⟨n, hn, -⟩ | ⟨a, ha, k, e, he, hfollows⟩ | ⟨b, hb, -⟩)
  · cases hn
  · -- the Thursday before is the first one of its month
    cases ha
    obtain ⟨hweekday, hlo, hhi, hfifth⟩ := he
    obtain rfl : e = 739679 := by
      have hnear := hfollows.2
      simp only [Go.weekday, Weekday.toInt] at hweekday
      omega
    have hmonth := monthOf_eq_iff.mpr ⟨hlo, hhi⟩
    have hstart : monthStart (monthOf 739679) = 739675 := by decide +kernel
    rw [hmonth] at hstart
    simp only at hfifth
    omega
  · cases hb

end Cfgms.Maintenance
