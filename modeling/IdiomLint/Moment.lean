import IdiomLint.Number.Integer

/-!
# Moments

Dates, and dates with a time of day. A moment whose distance from universal time is known is a point in
time, and two such moments are the same when they are the same point, however they are written.
-/

namespace IdiomLint

/-- A time of day, with its distance from universal time in seconds if that is known. -/
structure Clock where
  hour : Nat
  minute : Nat
  second : Nat
  microsecond : Nat
  zone : Option Int
  deriving DecidableEq

/-- A date, or a date and a time of day. -/
structure Moment where
  year : Nat
  month : Nat
  day : Nat
  clock : Option Clock
  deriving DecidableEq

namespace Moment

/-! ## The calendar -/

/-- Does a year have a day more? -/
def isLeap (year : Nat) : Bool := year % 4 == 0 && (year % 100 != 0 || year % 400 == 0)

/-- How many days a month has. -/
def daysIn (year month : Nat) : Nat :=
  if month = 2 then if isLeap year then 29 else 28
  else if month = 4 ∨ month = 6 ∨ month = 9 ∨ month = 11 then 30 else 31

/-- The number of a day, the first day of the year 1 having the number 1. -/
def dayNumber (m : Moment) : Nat :=
  let years := m.year - 1
  years * 365 + years / 4 - years / 100 + years / 400 +
    ((List.range (m.month - 1)).map fun n => daysIn m.year (n + 1)).sum + m.day

/-- How many millionths of a second a point in time lies after the beginning of the calendar; nothing
for a moment that is no point in time. -/
def instant? (m : Moment) : Option Int := do
  let c ← m.clock
  let zone ← c.zone
  let seconds : Int := m.dayNumber * 86400 + c.hour * 3600 + c.minute * 60 + c.second - zone
  some (seconds * 1000000 + c.microsecond)

/-- Are two moments the same? -/
def same (m n : Moment) : Bool :=
  match m.instant?, n.instant? with
  | some a, some b => a == b
  | _, _ => m == n

/-! ## Notations -/

/-- A number with leading zeros up to a width. -/
def padded (width n : Nat) : String :=
  let digits := Integer.decimal n
  String.ofList (List.replicate (width - digits.length) '0') ++ digits

/-- The distance from universal time, as `+hh:mm` with seconds if there are any. -/
def zoneText (seconds : Int) : String :=
  let n := seconds.natAbs
  let rest := n % 3600
  (if seconds < 0 then "-" else "+") ++ padded 2 (n / 3600) ++ ":" ++ padded 2 (rest / 60) ++
    (if rest % 60 = 0 then "" else ":" ++ padded 2 (rest % 60))

/-- A moment in the usual notation. -/
def shown (m : Moment) : String :=
  let date := padded 4 m.year ++ "-" ++ padded 2 m.month ++ "-" ++ padded 2 m.day
  match m.clock with
  | none => date
  | some c =>
    date ++ " " ++ padded 2 c.hour ++ ":" ++ padded 2 c.minute ++ ":" ++ padded 2 c.second ++
      (if c.microsecond = 0 then "" else "." ++ padded 6 c.microsecond) ++
      (c.zone.map zoneText).getD ""

/-- The distance from universal time as whole days and the seconds beyond them. -/
def zoneLiteral (seconds : Int) : String :=
  if seconds = 0 then "datetime.timezone.utc"
  else
    let days := Int.fdiv seconds 86400
    let rest := Int.fmod seconds 86400
    let parts := (if days = 0 then [] else ["days=" ++ Integer.decimal days]) ++
      (if rest = 0 then [] else ["seconds=" ++ Integer.decimal rest])
    "datetime.timezone(datetime.timedelta(" ++ ", ".intercalate parts ++ "))"

/-- A moment inside a list or a table. Seconds and parts of seconds are left out when they are zero. -/
def literal (m : Moment) : String :=
  let date := [m.year, m.month, m.day].map fun (n : Nat) => Integer.decimal n
  match m.clock with
  | none => "datetime.date(" ++ ", ".intercalate date ++ ")"
  | some c =>
    let small := if c.microsecond ≠ 0 then [c.second, c.microsecond]
      else if c.second ≠ 0 then [c.second] else []
    let time := ([c.hour, c.minute] ++ small).map fun (n : Nat) => Integer.decimal n
    let zone := (c.zone.map fun z => "tzinfo=" ++ zoneLiteral z).toList
    "datetime.datetime(" ++ ", ".intercalate (date ++ time ++ zone) ++ ")"

end Moment

end IdiomLint
