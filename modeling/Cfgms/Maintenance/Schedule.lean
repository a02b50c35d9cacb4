import Cfgms.Go.Calendar
import Cfgms.Go.Strings

/-! # Reboot window schedules

A schedule opens a window on days of the week, or once a month: on the nth of a weekday, or on a
weekday after or before such a day. The next start is found day by day.
-/

namespace Cfgms.Maintenance

open Go

inductive Weekday where
  | sunday
  | monday
  | tuesday
  | wednesday
  | thursday
  | friday
  | saturday
  deriving DecidableEq

def Weekday.toInt : Weekday → ℤ
  | .sunday => 0
  | .monday => 1
  | .tuesday => 2
  | .wednesday => 3
  | .thursday => 4
  | .friday => 5
  | .saturday => 6

inductive Freq where
  | monthly
  | weekly
  deriving DecidableEq

structure TimeOfDay where
  hour : ℤ
  minute : ℤ
  endOfDay : Bool

structure Anchor where
  weekday : Weekday
  nth : ℤ

structure Schedule where
  freq : Freq
  weekday : Weekday
  days : List Weekday
  nth : Option ℤ
  after : Option Anchor
  before : Option Anchor
  start : TimeOfDay
  endTime : TimeOfDay

structure Config where
  timezone : String
  schedules : List Schedule

structure RawAnchor where
  weekday : String
  nth : ℤ

structure RawSchedule where
  freq : String
  weekday : String
  days : List String
  nth : Option ℤ
  after : Option RawAnchor
  before : Option RawAnchor
  start : String
  endTime : String

structure RawConfig where
  timezone : String
  schedules : List RawSchedule

/-- What parsing takes from elsewhere: the YAML decoder, the time zones and what they say of
skipped hours, quotation, and the letters of Unicode. -/
structure Platform (Location : Type) where
  unmarshal : List UInt8 → Except String RawConfig
  loadLocation : String → Except String Location
  dstWarning : Schedule → Location → String
  quote : String → String
  table : CaseTable

section Parse

variable {Location : Type} (p : Platform Location)

def Platform.lower (s : List Char) : String := .ofList (s.map p.table.toLower)

def parseWeekday (s : String) : Except String Weekday :=
  match p.lower (trimSpace s.toList) with
  | "sunday" => .ok .sunday
  | "monday" => .ok .monday
  | "tuesday" => .ok .tuesday
  | "wednesday" => .ok .wednesday
  | "thursday" => .ok .thursday
  | "friday" => .ok .friday
  | "saturday" => .ok .saturday
  | _ => .error ("unknown weekday " ++ p.quote s)

def parseTimeOfDay (s : String) (allowEndOfDay : Bool) : Except String TimeOfDay :=
  if s = "" then .error "time string is empty"
  else if allowEndOfDay ∧ s = "24:00" then .ok ⟨0, 0, true⟩
  else if ':' ∉ s.toList then .error "expected HH:MM format"
  else
    match atoi (s.toList.takeWhile (· ≠ ':')) with
    | none => .error "hour must be 00–23"
    | some h =>
      if h < 0 ∨ 23 < h then .error "hour must be 00–23"
      else
        match atoi (s.toList.dropWhile (· ≠ ':')).tail with
        | none => .error "minute must be 00–59"
        | some m =>
          if m < 0 ∨ 59 < m then .error "minute must be 00–59" else .ok ⟨h, m, false⟩

def parseWeekdays (field : String) : List String → Except String (List Weekday)
  | [] => .ok []
  | d :: ds =>
    match parseWeekday p d with
    | .error err => .error (field ++ ": invalid day " ++ p.quote d ++ ": " ++ err)
    | .ok wd =>
      match parseWeekdays field ds with
      | .error err => .error err
      | .ok wds => .ok (wd :: wds)

def parseAnchor (field name : String) (a : RawAnchor) : Except String Anchor :=
  match parseWeekday p a.weekday with
  | .error err =>
    .error (field ++ ": invalid " ++ name ++ ".weekday " ++ p.quote a.weekday ++ ": " ++ err)
  | .ok wd => .ok ⟨wd, a.nth⟩

/-- How many of `nth`, `after` and `before` are given. -/
def RawSchedule.anchorCount (rs : RawSchedule) : ℕ :=
  rs.nth.toList.length + rs.after.toList.length + rs.before.toList.length

def parseFreq (field : String) (rs : RawSchedule) : Except String Freq :=
  match p.lower rs.freq.toList with
  | "monthly" => .ok .monthly
  | "weekly" => .ok .weekly
  | "" => .error (field ++ ": freq is required")
  | _ => .error (field ++ ": invalid freq " ++ p.quote rs.freq ++
      " (must be 'monthly' or 'weekly')")

/-- The rules on which fields go together. -/
def checkFields (field : String) (rs : RawSchedule) (freq : Freq) : Option String :=
  if 1 < rs.anchorCount then
    some (field ++ ": nth, after, and before are mutually exclusive; specify exactly one")
  else
    match freq with
    | .weekly =>
      if rs.nth.isSome then some (field ++ ": nth is only valid with freq: monthly")
      else if rs.after.isSome then some (field ++ ": after is only valid with freq: monthly")
      else if rs.before.isSome then some (field ++ ": before is only valid with freq: monthly")
      else if rs.days = [] then
        some (field ++ ": freq: weekly requires at least one entry in days")
      else none
    | .monthly =>
      if rs.days ≠ [] then some (field ++ ": days: is only valid with freq: weekly")
      else if rs.anchorCount = 0 then
        some (field ++ ": freq: monthly requires exactly one of nth, after, or before")
      else none

def parseRule (field : String) (rs : RawSchedule) (freq : Freq) (start endTime : TimeOfDay) :
    Except String Schedule :=
  match freq with
  | .weekly =>
    match parseWeekdays p field rs.days with
    | .error err => .error err
    | .ok days => .ok ⟨.weekly, .sunday, days, none, none, none, start, endTime⟩
  | .monthly =>
    match parseWeekday p rs.weekday with
    | .error err =>
      .error (field ++ ": invalid weekday " ++ p.quote rs.weekday ++ ": " ++ err)
    | .ok wd =>
      match rs.nth, rs.after, rs.before with
      | some n, _, _ => .ok ⟨.monthly, wd, [], some n, none, none, start, endTime⟩
      | none, some a, _ =>
        match parseAnchor p field "after" a with
        | .error err => .error err
        | .ok a => .ok ⟨.monthly, wd, [], none, some a, none, start, endTime⟩
      | none, none, some b =>
        match parseAnchor p field "before" b with
        | .error err => .error err
        | .ok b => .ok ⟨.monthly, wd, [], none, none, some b, start, endTime⟩
      | none, none, none => .ok ⟨.monthly, wd, [], none, none, none, start, endTime⟩

def validateSchedule (i : ℕ) (rs : RawSchedule) (loc : Option Location) :
    Except String (Schedule × List String) :=
  let field := "schedules[" ++ toString i ++ "]"
  match parseFreq p field rs with
  | .error err => .error err
  | .ok freq =>
    match checkFields field rs freq with
    | some err => .error err
    | none =>
      match parseTimeOfDay rs.start false with
      | .error err => .error (field ++ ": invalid start " ++ p.quote rs.start ++ ": " ++ err)
      | .ok start =>
        match parseTimeOfDay rs.endTime true with
        | .error err => .error (field ++ ": invalid end " ++ p.quote rs.endTime ++ ": " ++ err)
        | .ok endTime =>
          match parseRule p field rs freq start endTime with
          | .error err => .error err
          | .ok s =>
            match loc with
            | none => .ok (s, [])
            | some loc =>
              if endTime.endOfDay ∨ p.dstWarning s loc = "" then .ok (s, [])
              else .ok (s, [p.dstWarning s loc])

def validateSchedules (loc : Option Location) :
    ℕ → List RawSchedule → Except String (List Schedule × List String)
  | _, [] => .ok ([], [])
  | i, rs :: rest =>
    match validateSchedule p i rs loc with
    | .error err => .error err
    | .ok (s, ws) =>
      match validateSchedules loc (i + 1) rest with
      | .error err => .error err
      | .ok (ss, wss) => .ok (s :: ss, ws ++ wss)

def parse (data : List UInt8) : Except String (Config × List String) :=
  match p.unmarshal data with
  | .error err => .error ("unmarshal reboot_window: " ++ err)
  | .ok raw =>
    if raw.schedules = [] then
      .error "reboot_window: schedules must contain at least one entry"
    else
      let loc : Except String (Option Location) :=
        if raw.timezone = "" ∨ raw.timezone = "device" then .ok none
        else (p.loadLocation raw.timezone).map some
      match loc with
      | .error err =>
        .error ("reboot_window: invalid timezone " ++ p.quote raw.timezone ++ ": " ++ err)
      | .ok loc =>
        match validateSchedules p loc 0 raw.schedules with
        | .error err => .error err
        | .ok (schedules, warnings) => .ok (⟨raw.timezone, schedules⟩, warnings)

end Parse

def nthWeekdayOfMonth (k : ℤ) (wd : Weekday) (nth : ℤ) : ℤ :=
  addDays (monthStart k) ((wd.toInt - Go.weekday (monthStart k) + 7) % 7 + (nth - 1) * 7)

def lastWeekdayOfMonth (k : ℤ) (wd : Weekday) : ℤ :=
  let lastDay := monthStart (k + 1) - 1
  lastDay - (Go.weekday lastDay - wd.toInt + 7) % 7

def anchorDate (k : ℤ) (anchorWD : Weekday) (anchorNth : ℤ) : ℤ :=
  if anchorNth = -1 then lastWeekdayOfMonth k anchorWD
  else nthWeekdayOfMonth k anchorWD anchorNth

def weekdayAfterAnchor (k : ℤ) (wd anchorWD : Weekday) (anchorNth : ℤ) : ℤ :=
  let anchor := anchorDate k anchorWD anchorNth
  if wd = anchorWD then anchor + 7
  else
    let daysAfter := (wd.toInt - Go.weekday anchor + 7) % 7
    anchor + if daysAfter = 0 then 7 else daysAfter

def weekdayBeforeAnchor (k : ℤ) (wd anchorWD : Weekday) (anchorNth : ℤ) : ℤ :=
  let anchor := anchorDate k anchorWD anchorNth
  if wd = anchorWD then anchor - 7
  else
    let daysBack := (Go.weekday anchor - wd.toInt + 7) % 7
    anchor - if daysBack = 0 then 7 else daysBack

/-- The day of a monthly schedule that belongs to a month; the zero day if no rule is given. -/
def resolveMonthlyDate (k : ℤ) (s : Schedule) : ℤ :=
  match s.nth, s.after, s.before with
  | some nth, _, _ => anchorDate k s.weekday nth
  | none, some a, _ => weekdayAfterAnchor k s.weekday a.weekday a.nth
  | none, none, some b => weekdayBeforeAnchor k s.weekday b.weekday b.nth
  | none, none, none => 0

def isMonthlyScheduledDay (d : ℤ) (s : Schedule) : Bool :=
  Go.weekday d = s.weekday.toInt &&
    (resolveMonthlyDate (monthOf d) s = d ||
      if s.after.isSome then resolveMonthlyDate (monthOf d - 1) s = d
      else s.before.isSome && resolveMonthlyDate (monthOf d + 1) s = d)

def isScheduledDay (d : ℤ) (s : Schedule) : Bool :=
  match s.freq with
  | .weekly => s.days.any fun wd => Go.weekday d = wd.toInt
  | .monthly => isMonthlyScheduledDay d s

/-- The day of an instant in a zone, both in nanoseconds since 0001-01-01. -/
def localDay (offset t : ℤ) : ℤ := (t + offset) / 86400000000000

def startOn (offset : ℤ) (s : Schedule) (d : ℤ) : ℤ :=
  d * 86400000000000 + (s.start.hour * 3600 + s.start.minute * 60) * 1000000000 - offset

/-- The first of some days on which the window opens, or the zero time. -/
def searchDays (offset : ℤ) (s : Schedule) : ℕ → ℤ → ℤ
  | 0, _ => 0
  | n + 1, d => if isScheduledDay d s then startOn offset s d else searchDays offset s n (d + 1)

def nextOccurrence (offset after : ℤ) (s : Schedule) : ℤ :=
  let today := localDay offset after
  if ¬ startOn offset s today < after ∧ isScheduledDay today s then startOn offset s today
  else searchDays offset s 400 (today + 1)

end Cfgms.Maintenance
