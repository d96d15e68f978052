import IdiomLint.Datum
import IdiomLint.Yaml.Cursor

/-!
# Dates in YAML

A date is written with hyphens between year, month and day; a time may follow after a `T` or blanks,
with a fraction of the second and a distance from universal time.
-/

namespace IdiomLint.Yaml.Moment

/-- The number written by digits. -/
def value (digits : List Char) : Nat := digits.foldl (fun n d => n * 10 + (d.toNat - '0'.toNat)) 0

/-- At least so many and at most so many digits, and what follows them. -/
def digits? (least most : Nat) (cs : List Char) : Option (List Char × List Char) :=
  let front := (cs.take most).takeWhile Char.isDigit
  if least ≤ front.length then some (front, cs.drop front.length) else none

/-- What follows a character. -/
def after? (ch : Char) : List Char → Option (List Char)
  | c :: rest => if c = ch then some rest else none
  | [] => none

/-- What separates a date from a time. -/
def separator? (cs : List Char) : Option (List Char) :=
  match cs with
  | 'T' :: rest => some rest
  | 't' :: rest => some rest
  | c :: rest => if isBlank c then some (rest.dropWhile isBlank) else none
  | [] => none

/-- The fraction of a second in millionths. Further digits are cut off. -/
def fraction (cs : List Char) : Nat × List Char :=
  match cs with
  | '.' :: rest =>
    let ds := rest.takeWhile Char.isDigit
    let six := (ds ++ List.replicate 6 '0').take 6
    (value six, rest.drop ds.length)
  | _ => (0, cs)

/-- The distance from universal time at the end of a time, in seconds. -/
def zone? (cs : List Char) : Option (Option Int) :=
  match cs.dropWhile isBlank with
  | [] => if cs.isEmpty then some none else none
  | ['Z'] => some (some 0)
  | sign :: rest =>
    if sign = '+' ∨ sign = '-' then do
      let (hours, rest) ← digits? 1 2 rest
      let minutes ← match rest with
        | [] => some []
        | c :: rest => do
          let (minutes, rest) ← digits? 2 2 (← after? ':' (c :: rest))
          if rest.isEmpty then some minutes else none
      let seconds : Int := value hours * 3600 + value minutes * 60
      some (some (if sign = '-' then -seconds else seconds))
    else none

/-- A time of day up to the end of the text. -/
def clock? (cs : List Char) : Option Clock := do
  let (hour, cs) ← digits? 1 2 cs
  let (minute, cs) ← digits? 2 2 (← after? ':' cs)
  let (second, cs) ← digits? 2 2 (← after? ':' cs)
  let (microsecond, cs) := fraction cs
  some ⟨value hour, value minute, value second, microsecond, ← zone? cs⟩

/-- A date, whether it is written in full, and the time after it. Nothing is said about its being a
day of the calendar. -/
def read? (cs : List Char) : Option (Moment × Bool) := do
  let (year, cs) ← digits? 4 4 cs
  let (month, cs) ← digits? 1 2 (← after? '-' cs)
  let (day, cs) ← digits? 1 2 (← after? '-' cs)
  let full := month.length == 2 && day.length == 2
  if cs.isEmpty then some (⟨value year, value month, value day, none⟩, full)
  else some (⟨value year, value month, value day, some (← clock? (← separator? cs))⟩, true)

/-- Is a plain text a date? Without a time, month and day need two digits. -/
def isMoment (cs : List Char) : Bool :=
  match read? cs with
  | some (_, full) => full
  | none => false

/-- Is a moment one of the calendar and the clock, and less than a day away from universal time? -/
def isValid (m : Moment) : Bool :=
  1 ≤ m.year && 1 ≤ m.month && m.month ≤ 12 && 1 ≤ m.day && m.day ≤ IdiomLint.Moment.daysIn m.year m.month &&
    match m.clock with
    | none => true
    | some c =>
      c.hour ≤ 23 && c.minute ≤ 59 && c.second ≤ 59 &&
        (c.zone.map fun z => decide (z.natAbs < 86400)).getD true

/-- A text without the line feed at its end. -/
def withoutNewline (cs : List Char) : List Char := if cs.getLast? = some '\n' then cs.dropLast else cs

/-- The moment that a text denotes. A line feed may follow it. -/
def ofText (s : String) : Except Fault Moment :=
  match read? (withoutNewline s.toList) with
  | none => .error .badMoment
  | some (m, _) => if isValid m then .ok m else .error .badNumber

end IdiomLint.Yaml.Moment
