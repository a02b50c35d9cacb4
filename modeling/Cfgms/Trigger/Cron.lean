import Cfgms.Go.Calendar
import Cfgms.Go.Strings
import Cfgms.Machine.Fallible

/-! # Cron triggers

A cron expression is read into six fields, and the next run is searched for second by second or
minute by minute, for a year at most. The first matching second is found if it is among those
looked at; otherwise a run is due that the expression excludes.
-/

namespace Cfgms.Trigger

open Go Fallible

structure CronField where
  values : List ℤ
  wildcard : Bool
  step : ℤ
  rangeMin : ℤ
  rangeMax : ℤ
deriving DecidableEq

/-- A parsed expression; the zone is its offset from UTC in seconds. -/
structure CronSchedule where
  second : CronField
  minute : CronField
  hour : CronField
  day : CronField
  month : CronField
  weekday : CronField
  timezone : ℤ
deriving DecidableEq

/-- The loop `i += step` up to `stop`; the counter wraps. -/
def stepsFrom (stop step : ℤ) : ℕ → ℤ → List ℤ
  | 0, _ => []
  | n + 1, i => if stop < i then [] else i :: stepsFrom stop step n ((i + step).bmod (2 ^ 64))

/-- The counter has `2 ^ 64` values, so that as many rounds suffice. -/
def steps (start stop step : ℤ) : List ℤ := stepsFrom stop step (2 ^ 64) start

def parseItem (min max step : ℤ) (item : List Char) : Except String (List ℤ) :=
  if '-' ∈ item then
    match item.splitOn '-' with
    | [lo, hi] =>
      match atoi lo with
      | none => .error ("invalid range start: " ++ .ofList lo)
      | some start =>
        match atoi hi with
        | none => .error ("invalid range end: " ++ .ofList hi)
        | some stop =>
          if start < min ∨ max < stop ∨ stop < start then
            .error ("range " ++ toString start ++ "-" ++ toString stop ++
              " is outside valid range " ++ toString min ++ "-" ++ toString max)
          else .ok (steps start stop step)
    | _ => .error ("invalid range format: " ++ .ofList item)
  else
    match atoi item with
    | none => .error ("invalid value: " ++ .ofList item)
    | some value =>
      if value < min ∨ max < value then
        .error ("value " ++ toString value ++ " is outside valid range " ++ toString min ++
          "-" ++ toString max)
      else .ok [value]

def parseItems (min max step : ℤ) : List (List Char) → Except String (List ℤ)
  | [] => .ok []
  | item :: items =>
    match parseItem min max step item with
    | .error err => .error err
    | .ok values =>
      match parseItems min max step items with
      | .error err => .error err
      | .ok rest => .ok (values ++ rest)

def parseStep (field : List Char) : List (List Char) → Except String ℤ
  | [_] => .ok 1
  | [_, text] =>
    match atoi text with
    | none => .error ("invalid step value: " ++ .ofList text)
    | some step =>
      if step ≤ 0 then .error ("invalid step value: " ++ .ofList text) else .ok step
  | _ => .error ("invalid field format: " ++ .ofList field)

def parseCronField (field : List Char) (min max : ℤ) : Except String CronField :=
  if field = ['*'] then .ok ⟨[], true, 0, min, max⟩
  else
    match parseStep field (field.splitOn '/') with
    | .error err => .error err
    | .ok step =>
      let rangeExpr := (field.splitOn '/').headD []
      if rangeExpr = ['*'] then .ok ⟨steps min max step, false, step, min, max⟩
      else
        match parseItems min max step (rangeExpr.splitOn ',') with
        | .error err => .error err
        | .ok values => .ok ⟨values, false, step, min, max⟩

def textFields (s : List Char) : List (List Char) := (s.splitOnP isSpace).filter (· ≠ [])

def namedField (name : String) (field : List Char) (min max : ℤ) : Except String CronField :=
  match parseCronField field min max with
  | .error err => .error ("invalid " ++ name ++ " field: " ++ err)
  | .ok f => .ok f

def parseTimezone (loadLocation : String → Except String ℤ) (timezone : String) :
    Except String ℤ :=
  if timezone = "" then .ok 0
  else
    match loadLocation timezone with
    | .error err => .error ("invalid timezone " ++ timezone ++ ": " ++ err)
    | .ok offset => .ok offset

def parseCronExpression (loadLocation : String → Except String ℤ) (expression : List Char)
    (timezone : String) : Except String CronSchedule := do
  let fields := textFields (trimSpace expression)
  let fields := if fields.length = 5 then ['0'] :: fields else fields
  match fields with
  | [f₀, f₁, f₂, f₃, f₄, f₅] =>
    let timezone ← parseTimezone loadLocation timezone
    let second ← namedField "second" f₀ 0 59
    let minute ← namedField "minute" f₁ 0 59
    let hour ← namedField "hour" f₂ 0 23
    let day ← namedField "day" f₃ 1 31
    let month ← namedField "month" f₄ 1 12
    let weekday ← namedField "weekday" f₅ 0 6
    return ⟨second, minute, hour, day, month, weekday, timezone⟩
  | _ => .error ("invalid cron expression: expected 5 or 6 fields, got " ++
      toString fields.length)

def fieldMatches (field : CronField) (value : ℤ) : Bool :=
  field.wildcard || field.values.contains value

/-- Whether a second, counted from 0001-01-01 UTC, matches in the zone of the schedule. -/
def timeMatches (schedule : CronSchedule) (t : ℤ) : Bool :=
  let clock := t + schedule.timezone
  let date := clock / 86400
  fieldMatches schedule.second (clock % 60) &&
  fieldMatches schedule.minute (clock / 60 % 60) &&
  fieldMatches schedule.hour (clock / 3600 % 24) &&
  fieldMatches schedule.day (civilDay date) &&
  fieldMatches schedule.month (civilMonth date) &&
  fieldMatches schedule.weekday (Go.weekday date)

/-- The first match among so many seconds that are `increment` apart. -/
def searchRun (schedule : CronSchedule) (increment : ℤ) : ℕ → ℤ → Option ℤ
  | 0, _ => none
  | attempts + 1, next =>
    if timeMatches schedule next then some next
    else searchRun schedule increment attempts (next + increment)

/-- The time between the seconds that are looked at. -/
def increment (schedule : CronSchedule) : ℤ :=
  if !schedule.second.wildcard || 1 < schedule.second.step then 1 else 60

/-- A year of seconds, or of minutes. -/
def maxAttempts (schedule : CronSchedule) : ℕ :=
  if !schedule.second.wildcard || 1 < schedule.second.step then 366 * 24 * 60 * 60
  else 366 * 24 * 60

/-- Seconds since 0001-01-01 of an instant in nanoseconds. -/
def wholeSeconds (t : ℤ) : ℤ := t / 1000000000

/-- The next run after an instant, both in nanoseconds since 0001-01-01 UTC. -/
def calculateNextRun (schedule : CronSchedule) (t : ℤ) : ℤ :=
  let step := increment schedule
  let next := wholeSeconds t / step * step + step
  match searchRun schedule step (maxAttempts schedule) next with
  | some second => second * 1000000000
  | none => t + 3600 * 1000000000

variable {schedule : CronSchedule} {step : ℤ} {n : ℕ} {next : ℤ}

theorem searchRun_eq : searchRun schedule step n next =
    ((List.range n).find? fun i : ℕ => timeMatches schedule (next + i * step)).map
      fun i : ℕ => next + i * step := by
  fun_induction searchRun schedule step n next with
  | case1 => rfl
  | case2 n next hmatch => simp [List.range_succ_eq_map, hmatch]
  | case3 n next hmatch ih =>
    have hshift (i : ℕ) : next + step + i * step = next + (i + 1) * step := by ring
    simp [List.range_succ_eq_map, hmatch, ih, Function.comp_def, hshift]

variable {t u : ℤ}

theorem timeMatches_of_same_minute (hwild : schedule.second.wildcard = true)
    (h : (t + schedule.timezone) / 60 = (u + schedule.timezone) / 60) :
    timeMatches schedule t = timeMatches schedule u := by
  have hhour : (t + schedule.timezone) / 3600 = (u + schedule.timezone) / 3600 := by omega
  have hdate : (t + schedule.timezone) / 86400 = (u + schedule.timezone) / 86400 := by omega
  simp [timeMatches, fieldMatches, hwild, h, hhour, hdate]

variable {field : List Char} {min max : ℤ} {f : CronField}

theorem namedField_wildcard {name : String}
    (h : namedField name field min max = .ok f) (hwild : f.wildcard = true) : f.step = 0 := by
  unfold namedField at h
  split at h
  · cases h
  next heq =>
  cases h
  revert heq
  fun_cases parseCronField field min max <;> rintro ⟨⟩
  · rfl
  all_goals cases hwild

theorem parseCronExpression_second {loadLocation : String → Except String ℤ}
    {expression : List Char} {timezone : String}
    (h : parseCronExpression loadLocation expression timezone = .ok schedule)
    (hwild : schedule.second.wildcard = true) : schedule.second.step = 0 := by
  unfold parseCronExpression at h
  dsimp only at h
  split at h
  · obtain ⟨zone, -, h⟩ := bind_eq_ok.mp h
    obtain ⟨second, hsecond, h⟩ := bind_eq_ok.mp h
    obtain ⟨minute, -, h⟩ := bind_eq_ok.mp h
    obtain ⟨hour, -, h⟩ := bind_eq_ok.mp h
    obtain ⟨day, -, h⟩ := bind_eq_ok.mp h
    obtain ⟨month, -, h⟩ := bind_eq_ok.mp h
    obtain ⟨weekday, -, h⟩ := bind_eq_ok.mp h
    cases h
    exact namedField_wildcard hsecond hwild
  · cases h

/-- The instant is after `t`, its second matches, and no whole second between them does. -/
def IsNextRun (schedule : CronSchedule) (t r : ℤ) : Prop :=
  t < r ∧ timeMatches schedule (wholeSeconds r) ∧
    ∀ u, t < u * 1000000000 → u * 1000000000 < r → ¬ timeMatches schedule u

/-- The seconds that are looked at: those of the next 366 days, or their whole minutes if every
second matches. -/
def LookedAt (schedule : CronSchedule) (t u : ℤ) : Prop :=
  wholeSeconds t < u ∧ u ≤ wholeSeconds t + 366 * 86400 ∧
    (schedule.second.wildcard = true → u % 60 = 0)

theorem lookedAt_iff (hstep : schedule.second.wildcard = true → schedule.second.step = 0) :
    LookedAt schedule t u ↔ ∃ i < maxAttempts schedule,
      u = wholeSeconds t / increment schedule * increment schedule + increment schedule +
        i * increment schedule := by
  unfold LookedAt
  generalize wholeSeconds t = w
  cases hwild : schedule.second.wildcard with
  | false =>
    have hinc : increment schedule = 1 := by simp [increment, hwild]
    have hmax : maxAttempts schedule = 366 * 24 * 60 * 60 := by simp [maxAttempts, hwild]
    rw [hinc, hmax]
    constructor
    · rintro ⟨hlo, hhi, -⟩
      exact ⟨(u - w - 1).toNat, by omega, by omega⟩
    · rintro ⟨i, hi, rfl⟩
      refine ⟨by omega, by omega, by simp⟩
  | true =>
    have hinc : increment schedule = 60 := by simp [increment, hwild, hstep hwild]
    have hmax : maxAttempts schedule = 366 * 24 * 60 := by simp [maxAttempts, hwild, hstep hwild]
    rw [hinc, hmax]
    constructor
    · rintro ⟨hlo, hhi, hgrid⟩
      have hgrid := hgrid rfl
      exact ⟨((u - w / 60 * 60 - 60) / 60).toNat, by omega, by omega⟩
    · rintro ⟨i, hi, rfl⟩
      refine ⟨by omega, by omega, fun _ => by omega⟩

theorem calculateNextRun_cases (t : ℤ)
    (hstep : schedule.second.wildcard = true → schedule.second.step = 0) :
    (∃ r, calculateNextRun schedule t = r * 1000000000 ∧ LookedAt schedule t r ∧
      timeMatches schedule r ∧ ∀ u, LookedAt schedule t u → u < r → ¬ timeMatches schedule u) ∨
    (calculateNextRun schedule t = t + 3600 * 1000000000 ∧
      ∀ u, LookedAt schedule t u → ¬ timeMatches schedule u) := by
  have hpos : 0 < increment schedule := by
    unfold increment
    split <;> decide
  cases hr : searchRun schedule (increment schedule) (maxAttempts schedule)
    (wholeSeconds t / increment schedule * increment schedule + increment schedule) with
  | some r =>
    have hrun : calculateNextRun schedule t = r * 1000000000 := by
      simp [calculateNextRun, hr]
    rw [searchRun_eq] at hr
    obtain ⟨i, hi, heq⟩ := Option.map_eq_some_iff.mp hr
    obtain ⟨hmatch, hrange, hbefore⟩ := List.find?_range_eq_some.mp hi
    refine .inl ⟨r, hrun, (lookedAt_iff hstep).mpr ⟨i, List.mem_range.mp hrange, heq.symm⟩,
      heq ▸ hmatch, fun u hu hlt => ?_⟩
    obtain ⟨j, -, rfl⟩ := (lookedAt_iff hstep).mp hu
    have hji : (j : ℤ) < i := by
      exact lt_of_mul_lt_mul_right (by linarith) hpos.le
    simpa using hbefore j (by exact_mod_cast hji)
  | none =>
    have hrun : calculateNextRun schedule t = t + 3600 * 1000000000 := by
      simp [calculateNextRun, hr]
    refine .inr ⟨hrun, fun u hu => ?_⟩
    obtain ⟨i, hi, rfl⟩ := (lookedAt_iff hstep).mp hu
    rw [searchRun_eq, Option.map_eq_none_iff, List.find?_range_eq_none] at hr
    simpa using hr i hi

theorem lookedAt_hour_ahead (schedule : CronSchedule) (t : ℤ) : ∃ u, LookedAt schedule t u ∧
      timeMatches schedule u = timeMatches schedule (wholeSeconds t + 3600) := by
  cases hwild : schedule.second.wildcard with
  | false => exact ⟨wholeSeconds t + 3600, ⟨by omega, by omega, by simp [hwild]⟩, rfl⟩
  | true =>
    -- the whole minute of UTC that lies in the local minute of that second
    let z := schedule.timezone
    let u := ((wholeSeconds t + 3600 + z) / 60 * 60 - z + 59) / 60 * 60
    have hminute : (u + z) / 60 = (wholeSeconds t + 3600 + z) / 60 := by omega
    exact ⟨u, ⟨by omega, by omega, fun _ => by omega⟩, timeMatches_of_same_minute hwild hminute⟩

theorem wholeSeconds_mul (u : ℤ) : wholeSeconds (u * 1000000000) = u :=
  Int.mul_ediv_cancel u (by decide)

/-- The next run is right exactly if the first matching second is among those looked at. -/
theorem next_run {loadLocation : String → Except String ℤ} {expression : List Char}
    {timezone : String} {schedule : CronSchedule}
    (h : parseCronExpression loadLocation expression timezone = .ok schedule) (t : ℤ) :
    IsNextRun schedule t (calculateNextRun schedule t) ↔
      ∃ u, IsNextRun schedule t (u * 1000000000) ∧ u ≤ wholeSeconds t + 366 * 86400 ∧
        (schedule.second.wildcard = true → u % 60 = 0) := by
  have hafter (u : ℤ) : wholeSeconds t < u ↔ t < u * 1000000000 := by
    unfold wholeSeconds
    omega
  have hcases := calculateNextRun_cases t (parseCronExpression_second h)
  constructor
  · intro hnext
    rcases hcases with ⟨r, heq, ⟨-, hhorizon, hgrid⟩, -⟩ | ⟨heq, hnone⟩
    · rw [heq] at hnext
      exact ⟨r, hnext, hhorizon, hgrid⟩
    -- the fallback cannot match: its minute has been looked at
    obtain ⟨u, hu, hsame⟩ := lookedAt_hour_ahead schedule t
    have hmatch := hnext.2.1
    have hhour : wholeSeconds (calculateNextRun schedule t) = wholeSeconds t + 3600 := by
      unfold wholeSeconds
      omega
    rw [hhour, ← hsame] at hmatch
    exact absurd hmatch (hnone u hu)
  · rintro ⟨u, hnext, hhorizon, hgrid⟩
    have hmatch : timeMatches schedule u := by simpa only [wholeSeconds_mul] using hnext.2.1
    have hlooked : LookedAt schedule t u := ⟨(hafter u).mpr hnext.1, hhorizon, hgrid⟩
    rcases hcases with ⟨r, heq, ⟨hr, -⟩, hrmatch, hbefore⟩ | ⟨-, hnone⟩
    · have hle : r ≤ u := le_of_not_gt fun hlt => hbefore u hlooked hlt hmatch
      have hge : u ≤ r := le_of_not_gt fun hlt =>
        hnext.2.2 r ((hafter r).mp hr) (by omega) hrmatch
      rw [heq, le_antisymm hle hge]
      exact hnext
    · exact absurd hmatch (hnone u hlooked)

def utcOnly (name : String) : Except String ℤ := .error ("unknown time zone " ++ name)

/-- `0 9 * * *` -/
def nineDaily : CronSchedule where
  second := ⟨[0], false, 1, 0, 59⟩
  minute := ⟨[0], false, 1, 0, 59⟩
  hour := ⟨[9], false, 1, 0, 23⟩
  day := ⟨[], true, 0, 1, 31⟩
  month := ⟨[], true, 0, 1, 12⟩
  weekday := ⟨[], true, 0, 0, 6⟩
  timezone := 0

/-- `0 0 29 2 *` -/
def leapDay : CronSchedule where
  second := ⟨[0], false, 1, 0, 59⟩
  minute := ⟨[0], false, 1, 0, 59⟩
  hour := ⟨[0], false, 1, 0, 23⟩
  day := ⟨[29], false, 1, 1, 31⟩
  month := ⟨[2], false, 1, 1, 12⟩
  weekday := ⟨[], true, 0, 0, 6⟩
  timezone := 0

theorem parse_nineDaily : parseCronExpression utcOnly "0 9 * * *".toList "" = .ok nineDaily := by
  decide +kernel

theorem parse_leapDay : parseCronExpression utcOnly "0 0 29 2 *".toList "" = .ok leapDay := by
  decide +kernel

theorem nineDaily_hour (h : timeMatches nineDaily u) : u / 3600 % 24 = 9 := by
  simp only [timeMatches, fieldMatches, nineDaily, Bool.and_eq_true, Bool.false_or,
    List.contains_iff_mem, List.mem_singleton, add_zero] at h
  exact h.1.1.1.2

/-- From 08:00 on 2024-01-01 the next run is at 09:00. -/
theorem next_run_nine_daily : parseCronExpression utcOnly "0 9 * * *".toList "" = .ok nineDaily ∧
    IsNextRun nineDaily 63839692800000000000
      (calculateNextRun nineDaily 63839692800000000000) := by
  refine ⟨parse_nineDaily, (next_run parse_nineDaily _).mpr ⟨63839696400, ⟨by decide,
    by decide +kernel, fun u hlo hhi h => ?_⟩, by decide +kernel, by decide⟩⟩
  have hhour := nineDaily_hour h
  omega

theorem leapDay_date (h : timeMatches leapDay u) :
    civilMonth (u / 86400) = 2 ∧ civilDay (u / 86400) = 29 := by
  simp only [timeMatches, fieldMatches, leapDay, Bool.and_eq_true, Bool.false_or,
    List.contains_iff_mem, List.mem_singleton, add_zero] at h
  exact ⟨by exact_mod_cast h.1.2, by exact_mod_cast h.1.1.2⟩

theorem not_leapDay (hlo : 739310 ≤ u / 86400) (hhi : u / 86400 ≤ 739676) :
    ¬ timeMatches leapDay u := by
  intro h
  have hdays : ∀ i < 367, ¬ (civilMonth (739310 + i : ℕ) = 2 ∧
      civilDay (739310 + i : ℕ) = 29) := by
    decide +kernel
  apply hdays (u / 86400 - 739310).toNat (by omega)
  have hday : ((739310 + (u / 86400 - 739310).toNat : ℕ) : ℤ) = u / 86400 := by omega
  rw [hday]
  exact leapDay_date h

/-- From 2025-03-01 on, a run on 29 February is due an hour later. -/
theorem leap_day_hourly : parseCronExpression utcOnly "0 0 29 2 *".toList "" = .ok leapDay ∧
    ¬ IsNextRun leapDay 63876384000000000000
      (calculateNextRun leapDay 63876384000000000000) := by
  refine ⟨parse_leapDay, fun hnext => ?_⟩
  have hstart : wholeSeconds 63876384000000000000 = 63876384000 := by decide
  rcases calculateNextRun_cases 63876384000000000000 (parseCronExpression_second parse_leapDay)
    with ⟨r, -, ⟨hlo, hhi, -⟩, hmatch, -⟩ | ⟨heq, -⟩
  · rw [hstart] at hlo hhi
    exact not_leapDay (by omega) (by omega) hmatch
  · rw [heq] at hnext
    exact not_leapDay (by decide) (by decide) hnext.2.1

end Cfgms.Trigger
