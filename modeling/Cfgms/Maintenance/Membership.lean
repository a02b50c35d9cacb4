import Cfgms.Maintenance.Occurrence

/-! # Window membership

Whether an instant lies in a window is decided on clock minutes, for a window that opens today
or, past midnight, for one that opened the day before. The meaning is an interval of minutes on
the time line for each day the window opens on.
-/

namespace Cfgms.Maintenance

open Go

def TimeOfDay.minutesSinceMidnight (t : TimeOfDay) : ℤ :=
  if t.endOfDay then 24 * 60 else t.hour * 60 + t.minute

/-- Minutes since 0001-01-01 in a zone. -/
def localMinute (offset t : ℤ) : ℤ := (t + offset) / 60000000000

/-- The clock reading of an instant, in minutes since midnight. -/
def clockMinute (offset t : ℤ) : ℤ := localMinute offset t % 1440

def inWindow (offset now : ℤ) (s : Schedule) : Bool :=
  let nowMin := clockMinute offset now
  let startMin := s.start.minutesSinceMidnight
  let endMin := s.endTime.minutesSinceMidnight
  if startMin < endMin then
    if nowMin < startMin ∨ endMin < nowMin then false else isScheduledDay (localDay offset now) s
  else if startMin ≤ nowMin then isScheduledDay (localDay offset now) s
  else if nowMin ≤ endMin then isScheduledDay (localDay offset now - 1) s
  else false

def startMinute (s : Schedule) (d : ℤ) : ℤ := d * 1440 + s.start.hour * 60 + s.start.minute

/-- The last minute of the window that opens on a day. It is on the next day if the end time is
not after the start time. -/
def endMinute (s : Schedule) (d : ℤ) : ℤ :=
  if s.endTime.endOfDay then d * 1440 + 1439
  else
    let sameDay := d * 1440 + s.endTime.hour * 60 + s.endTime.minute
    if startMinute s d < sameDay then sameDay else sameDay + 1440

def Covers (offset : ℤ) (s : Schedule) (d t : ℤ) : Prop :=
  startMinute s d ≤ localMinute offset t ∧ localMinute offset t ≤ endMinute s d

/-- What parsing has checked of the times. -/
structure AcceptedTimes (s : Schedule) : Prop where
  start : s.start.endOfDay = false
  hour : 0 ≤ s.start.hour ∧ s.start.hour ≤ 23
  minute : 0 ≤ s.start.minute ∧ s.start.minute ≤ 59
  lastHour : 0 ≤ s.endTime.hour ∧ s.endTime.hour ≤ 23
  lastMinute : 0 ≤ s.endTime.minute ∧ s.endTime.minute ≤ 59

section Parse

variable {Location : Type} {p : Platform Location}

theorem parseTimeOfDay_endOfDay {text : String} {t : TimeOfDay}
    (h : parseTimeOfDay text false = .ok t) : t.endOfDay = false := by
  revert h
  fun_cases parseTimeOfDay text false <;> rintro ⟨⟩
  · simp_all
  · rfl

theorem parseRule_times {field : String} {rs : RawSchedule} {freq : Freq}
    {start endTime : TimeOfDay} {s : Schedule}
    (h : parseRule p field rs freq start endTime = .ok s) :
    s.start = start ∧ s.endTime = endTime := by
  revert h
  fun_cases parseRule p field rs freq start endTime <;> rintro ⟨⟩ <;> exact ⟨rfl, rfl⟩

theorem parse_acceptedTimes {data : List UInt8} {config : Config} {ws : List String}
    (h : parse p data = .ok (config, ws)) : ∀ s ∈ config.schedules, AcceptedTimes s := by
  intro s hs
  obtain ⟨i, rs, loc, ws, hvalid⟩ := parse_passed h s hs
  obtain ⟨field, freq, start, endTime, -, hstart, hend, hrule⟩ := validateSchedule_passed hvalid
  obtain ⟨rfl, rfl⟩ := parseRule_times hrule
  have hbounds := parseTimeOfDay_bounds hstart
  have hends := parseTimeOfDay_bounds hend
  exact ⟨parseTimeOfDay_endOfDay hstart, hbounds.1, hbounds.2, hends.1, hends.2⟩

end Parse

/-- The clock shows a time at which the window is open on some day. -/
def AtWindowTime (offset : ℤ) (s : Schedule) (t : ℤ) : Prop :=
  if s.start.minutesSinceMidnight < s.endTime.minutesSinceMidnight then
    s.start.minutesSinceMidnight ≤ clockMinute offset t ∧
      clockMinute offset t ≤ s.endTime.minutesSinceMidnight
  else
    s.start.minutesSinceMidnight ≤ clockMinute offset t ∨
      clockMinute offset t ≤ s.endTime.minutesSinceMidnight

def openingDay (offset : ℤ) (s : Schedule) (t : ℤ) : ℤ :=
  if s.start.minutesSinceMidnight ≤ clockMinute offset t then localDay offset t
  else localDay offset t - 1

/-- The window ends at the time it starts, and the clock shows that time. -/
def AtTurn (offset : ℤ) (s : Schedule) (t : ℤ) : Prop :=
  s.start.minutesSinceMidnight = s.endTime.minutesSinceMidnight ∧
    clockMinute offset t = s.start.minutesSinceMidnight

variable {s : Schedule}

theorem inWindow_iff {offset now : ℤ} : inWindow offset now s ↔
      AtWindowTime offset s now ∧ isScheduledDay (openingDay offset s now) s := by
  unfold inWindow AtWindowTime openingDay
  split_ifs <;> grind

theorem localMinute_eq (offset t : ℤ) :
    localMinute offset t = localDay offset t * 1440 + clockMinute offset t := by
  simp only [clockMinute, localMinute, localDay]
  omega

section Accepted

variable {s : Schedule} (h : AcceptedTimes s)

include h

theorem AcceptedTimes.covers_iff {offset d t : ℤ} :
    Covers offset s d t ↔ (AtWindowTime offset s t ∧ d = openingDay offset s t) ∨
      (AtTurn offset s t ∧ d = localDay offset t - 1) := by
  have hclock : 0 ≤ clockMinute offset t ∧ clockMinute offset t < 1440 := by
    unfold clockMinute
    omega
  obtain ⟨hstart, hhour, hminute, hendHour, hendMinute⟩ := h
  simp only [Covers, startMinute, endMinute, AtWindowTime, openingDay, AtTurn,
    TimeOfDay.minutesSinceMidnight, localMinute_eq, hstart, Bool.false_eq_true, if_false]
  generalize clockMinute offset t = m at *
  generalize localDay offset t = today at *
  cases s.endTime.endOfDay
  · -- the end is compared on the time line and on the clock
    have hsame : d * 1440 + s.start.hour * 60 + s.start.minute <
        d * 1440 + s.endTime.hour * 60 + s.endTime.minute ↔
        s.start.hour * 60 + s.start.minute < s.endTime.hour * 60 + s.endTime.minute := by omega
    simp only [Bool.false_eq_true, if_false, hsame]
    split_ifs <;> omega
  · simp only [if_true]
    split_ifs <;> omega

theorem AcceptedTimes.inWindow_startOn {offset d : ℤ} (hd : isScheduledDay d s) :
    inWindow offset (startOn offset s d) s := by
  obtain ⟨hstart, hhour, hminute, -, -⟩ := h
  have hmin : s.start.minutesSinceMidnight = s.start.hour * 60 + s.start.minute := by
    simp [TimeOfDay.minutesSinceMidnight, hstart]
  have hclock : clockMinute offset (startOn offset s d) = s.start.minutesSinceMidnight := by
    simp only [clockMinute, localMinute, startOn]
    omega
  have hday : localDay offset (startOn offset s d) = d := by
    simp only [localDay, startOn]
    omega
  rw [inWindow_iff, openingDay, hclock, if_pos le_rfl, hday]
  refine ⟨?_, hd⟩
  unfold AtWindowTime
  rw [hclock]
  split
  · next hlt => exact ⟨le_rfl, hlt.le⟩
  · exact .inl le_rfl

end Accepted

/-- Some day of the next 400, today included if its start is not past. -/
def SomeDay (offset after : ℤ) (s : Schedule) (P : ℤ → Prop) : Prop :=
  ∃ d, localDay offset after ≤ d ∧ d ≤ localDay offset after + 400 ∧ after ≤ startOn offset s d ∧ P d

theorem Accepted.nextOccurrence_cases (h : Accepted s) (offset after : ℤ) :
    (SomeDay offset after s (isScheduledDay · s) ∧
      ∃ d, isScheduledDay d s ∧ nextOccurrence offset after s = startOn offset s d) ∨
    ¬ SomeDay offset after s (isScheduledDay · s) ∧ nextOccurrence offset after s = 0 := by
  unfold nextOccurrence
  dsimp only
  split
  · next htoday =>
    refine .inl ⟨⟨_, le_rfl, by omega, not_lt.mp htoday.1, htoday.2⟩, _, htoday.2, rfl⟩
  next htoday =>
  rcases searchDays_cases offset s 400 (localDay offset after + 1) with
    ⟨d, hlo, hhi, hd, heq, -⟩ | ⟨hnone, heq⟩
  · push_cast at hhi
    exact .inl ⟨⟨d, by omega, by omega, h.le_startOn offset after (by omega), hd⟩, d, hd, heq⟩
  · refine .inr ⟨?_, heq⟩
    rintro ⟨d, hlo, hhi, hafter, hd⟩
    rcases hlo.eq_or_lt with rfl | hlt
    · exact htoday ⟨not_lt.mpr hafter, hd⟩
    · exact hnone d (by omega) (by push_cast; omega) hd

/-- A search that comes upon no scheduled day comes upon a day that a missing anchor leads to, or
its answer, the zero time, lies in the window of such a day. -/
def RolledOccurrence (offset after : ℤ) (s : Schedule) : Prop :=
  SomeDay offset after s (RolledDay s) ∨
    AtWindowTime offset s 0 ∧ RolledDay s (openingDay offset s 0)

theorem inWindow_nextOccurrence_iff (h : Accepted s) (htimes : AcceptedTimes s)
    (hindex : ∀ n ∈ s.index, BoundedIndex n) (offset after : ℤ) :
    inWindow offset (nextOccurrence offset after s) s ↔
      (∀ n ∈ s.index, ValidIndex n) ∨ RolledOccurrence offset after s := by
  have hnext : inWindow offset (nextOccurrence offset after s) s ↔
      SomeDay offset after s (isScheduledDay · s) ∨
        AtWindowTime offset s 0 ∧ isScheduledDay (openingDay offset s 0) s := by
    rcases h.nextOccurrence_cases offset after with ⟨hfinds, d, hd, heq⟩ | ⟨hnone, heq⟩
    · rw [heq]
      exact iff_of_true (htimes.inWindow_startOn hd) (.inl hfinds)
    · rw [heq, inWindow_iff]
      exact (or_iff_right hnone).symm
  rw [hnext]
  by_cases hvalid : ∀ n ∈ s.index, ValidIndex n
  · obtain ⟨d, hlo, hhi, hd⟩ := h.exists_scheduledDay hvalid (localDay offset after)
    refine iff_of_true (.inl ⟨d, hlo.le, hhi, h.le_startOn offset after hlo, ?_⟩) (.inl hvalid)
    exact (h.isScheduledDay_iff hindex d).mpr (.inl hd)
  · have hrolled : ∀ d, isScheduledDay d s ↔ RolledDay s d := fun d =>
      (h.isScheduledDay_iff hindex d).trans
        (or_iff_right fun hd => hvalid (h.validIndex_of_scheduledDay hd))
    simp only [hrolled, or_iff_right hvalid, RolledOccurrence]

/-- An instant is found to be in a window exactly if it lies in the window of a scheduled day,
and every next occurrence is found to be in a window, exactly if the day on which the window would
have opened is not one that a missing anchor leads to, the minute is not the one in which the
window of the day before ends as today's would start, and the schedule counts a weekday that a
month can have. -/
theorem in_window {Location : Type} (p : Platform Location) {data : List UInt8}
    {config : Config} {warnings : List String} (hparse : parse p data = .ok (config, warnings))
    {s : Schedule} (hs : s ∈ config.schedules) (hindex : ∀ n ∈ s.index, BoundedIndex n)
    (offset now after : ℤ) :
    ((inWindow offset now s ↔ ∃ d, ScheduledDay s d ∧ Covers offset s d now) ∧
      inWindow offset (nextOccurrence offset after s) s) ↔
    ((AtWindowTime offset s now → RolledDay s (openingDay offset s now) →
        ScheduledDay s (openingDay offset s now) ∨
          AtTurn offset s now ∧ ScheduledDay s (localDay offset now - 1)) ∧
      (AtTurn offset s now → ScheduledDay s (localDay offset now - 1) →
        ScheduledDay s (localDay offset now) ∨ RolledDay s (localDay offset now)) ∧
      ((∀ n ∈ s.index, ValidIndex n) ∨ RolledOccurrence offset after s)) := by
  have haccepted := parse_accepted hparse s hs
  have htimes := parse_acceptedTimes hparse s hs
  have hcovered : (∃ d, ScheduledDay s d ∧ Covers offset s d now) ↔
      AtWindowTime offset s now ∧ ScheduledDay s (openingDay offset s now) ∨
        AtTurn offset s now ∧ ScheduledDay s (localDay offset now - 1) := by
    constructor
    · rintro ⟨d, hd, hcovers⟩
      rcases htimes.covers_iff.mp hcovers with ⟨hat, rfl⟩ | ⟨hturn, rfl⟩
      · exact .inl ⟨hat, hd⟩
      · exact .inr ⟨hturn, hd⟩
    · rintro (⟨hat, hd⟩ | ⟨hturn, hd⟩)
      · exact ⟨_, hd, htimes.covers_iff.mpr (.inl ⟨hat, rfl⟩)⟩
      · exact ⟨_, hd, htimes.covers_iff.mpr (.inr ⟨hturn, rfl⟩)⟩
  -- at the turn the code asks for today
  have hturn : AtTurn offset s now →
      AtWindowTime offset s now ∧ openingDay offset s now = localDay offset now := by
    rintro ⟨hsame, hclock⟩
    simp [AtWindowTime, openingDay, hsame, hclock]
  rw [inWindow_nextOccurrence_iff haccepted htimes hindex, ← and_assoc]
  refine and_congr_left fun _ => ?_
  rw [inWindow_iff, hcovered, haccepted.isScheduledDay_iff hindex]
  constructor
  · intro hiff
    refine ⟨fun hat hd => ?_, fun hat hd => ?_⟩
    · exact (hiff.mp ⟨hat, .inr hd⟩).imp And.right id
    · rw [← (hturn hat).2]
      exact (hiff.mpr (.inr ⟨hat, hd⟩)).2
  · rintro ⟨hcounted, hedge⟩
    constructor
    · rintro ⟨hat, hd | hd⟩
      · exact .inl ⟨hat, hd⟩
      · exact (hcounted hat hd).imp (fun hd => ⟨hat, hd⟩) id
    · rintro (⟨hat, hd⟩ | ⟨hat, hd⟩)
      · exact ⟨hat, .inl hd⟩
      · obtain ⟨htime, heq⟩ := hturn hat
        exact ⟨htime, heq ▸ hedge hat hd⟩

def mondays (endTime : String) : RawConfig :=
  ⟨"", [⟨"weekly", "", ["monday"], none, none, none, "02:00", endTime⟩]⟩

def mondaySchedule (endHour : ℤ) : Schedule :=
  ⟨.weekly, .sunday, [.monday], none, none, none, ⟨2, 0, false⟩, ⟨endHour, 0, false⟩⟩

def tuesdayAtTwo : ℤ := newYear2026 + (5 * 24 + 2) * 3600000000000

theorem in_window_monday_to_tuesday :
    parse (decodingTo (mondays "01:00")) [] = .ok (⟨"", [mondaySchedule 1]⟩, []) ∧
      (inWindow 0 (tuesdayAtTwo - 5400000000000) (mondaySchedule 1) ↔
        ∃ d, ScheduledDay (mondaySchedule 1) d ∧
          Covers 0 (mondaySchedule 1) d (tuesdayAtTwo - 5400000000000)) ∧
      inWindow 0 (nextOccurrence 0 newYear2026 (mondaySchedule 1)) (mondaySchedule 1) := by
  have hparse : parse (decodingTo (mondays "01:00")) [] =
      .ok (⟨"", [mondaySchedule 1]⟩, []) := rfl
  refine ⟨hparse, (in_window _ hparse (List.mem_singleton_self _) nofun 0
    (tuesdayAtTwo - 5400000000000) newYear2026).mpr ⟨fun _ _ => .inl ?_, ?_, .inl nofun⟩⟩
  · exact ⟨.monday, by simp [mondaySchedule], by decide⟩
  · rintro ⟨hsame, -⟩
    exact absurd hsame (by decide)

/-- A window from two to two that opens on Mondays is not open on Tuesday at two, though Monday's
window ends only then. -/
theorem tuesday_at_two :
    parse (decodingTo (mondays "02:00")) [] = .ok (⟨"", [mondaySchedule 2]⟩, []) ∧
      inWindow 0 tuesdayAtTwo (mondaySchedule 2) = false ∧
      ∃ d, ScheduledDay (mondaySchedule 2) d ∧ Covers 0 (mondaySchedule 2) d tuesdayAtTwo := by
  refine ⟨rfl, by decide, localDay 0 tuesdayAtTwo - 1, ⟨.monday, ?_, by decide⟩, ?_⟩
  · simp [mondaySchedule]
  · exact ⟨by decide, by decide⟩

end Cfgms.Maintenance
