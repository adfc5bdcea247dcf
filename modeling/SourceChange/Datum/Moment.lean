import SourceChange.Text.Basic

/-!
Days of the calendar and times of the day, as configuration files hold them.

A moment is a day, a time of the day, or both, and both together may say how far they are from universal
time. `Moment.text` is the form in which a moment is printed, `Moment.shown` the one it has in a list.
-/

namespace SourceChange

/-- A day of the calendar. -/
structure Day where
  year : Nat
  month : Nat
  day : Nat
  deriving DecidableEq, Repr

/-- A time of the day, to the microsecond. -/
structure Clock where
  hour : Nat
  minute : Nat
  second : Nat
  micro : Nat
  deriving DecidableEq, Repr

/-- A day, a time of the day, or both; the offset counts the minutes ahead of universal time. -/
inductive Moment where
  | day (d : Day)
  | clock (c : Clock)
  | full (d : Day) (c : Clock) (offset : Option Int)
  deriving DecidableEq, Repr

/-- Why numbers make no moment. -/
inductive MomentFault where
  | year (n : Nat)
  | month
  | day
  | hour
  | minute
  | second
  /-- An offset of a day or more, in minutes. -/
  | offset (minutes : Int)
  deriving DecidableEq, Repr

/-- A number with at least the given number of digits. -/
def padded (width n : Nat) : String :=
  let ds := Nat.toDigits 10 n
  String.ofList (List.replicate (width - ds.length) '0' ++ ds)

namespace Day

/-- Whether a year has a day more than others. -/
def isLeapYear (year : Nat) : Bool := year % 4 == 0 && (year % 100 != 0 || year % 400 == 0)

/-- How many days a month has. -/
def daysIn (year month : Nat) : Nat :=
  if month == 2 then if isLeapYear year then 29 else 28
  else if [4, 6, 9, 11].contains month then 30
  else 31

/-- A day by its numbers. -/
def of? (year month day : Nat) : Except MomentFault Day := do
  if year == 0 then throw (.year year)
  if !(1 ≤ month && month ≤ 12) then throw .month
  if !(1 ≤ day && day ≤ daysIn year month) then throw .day
  return ⟨year, month, day⟩

/-- The text of a day. -/
def text (d : Day) : String := padded 4 d.year ++ "-" ++ padded 2 d.month ++ "-" ++ padded 2 d.day

end Day

namespace Clock

/-- A time of the day by its numbers. -/
def of? (hour minute second micro : Nat) : Except MomentFault Clock := do
  if 23 < hour then throw .hour
  if 59 < minute then throw .minute
  if 59 < second then throw .second
  return ⟨hour, minute, second, micro⟩

/-- The text of a time of the day. -/
def text (c : Clock) : String :=
  padded 2 c.hour ++ ":" ++ padded 2 c.minute ++ ":" ++ padded 2 c.second ++
    if c.micro == 0 then "" else "." ++ padded 6 c.micro

/-- The numbers of a time of the day, without the zeros that end them. -/
def numbers (c : Clock) : List Nat :=
  if c.micro != 0 then [c.hour, c.minute, c.second, c.micro]
  else if c.second != 0 then [c.hour, c.minute, c.second]
  else [c.hour, c.minute]

end Clock

namespace Moment

/-- Numbers with commas between them. -/
def listed (ns : List Nat) : String := Text.join ", " (ns.map toString)

/-- An offset as a span of whole days and of the seconds beyond them. -/
def spanShown (minutes : Int) : String :=
  let days := minutes.fdiv 1440
  let seconds := (minutes - days * 1440) * 60
  let parts :=
    (if days == 0 then [] else ["days=" ++ toString days]) ++
    (if seconds == 0 then [] else ["seconds=" ++ toString seconds])
  "datetime.timedelta(" ++ Text.join ", " (if parts.isEmpty then ["0"] else parts) ++ ")"

/-- An offset as it is shown in a list. -/
def zoneShown (minutes : Int) : String :=
  if minutes == 0 then "datetime.timezone.utc"
  else "datetime.timezone(" ++ spanShown minutes ++ ")"

/-- The text of an offset. -/
def offsetText (minutes : Int) : String :=
  let n := minutes.natAbs
  (if minutes < 0 then "-" else "+") ++ padded 2 (n / 60) ++ ":" ++ padded 2 (n % 60)

/-- The name of the kind of a moment. -/
def kindName : Moment → String
  | day _ => "date"
  | clock _ => "time"
  | full _ _ _ => "datetime"

/-- The text of a moment. -/
def text : Moment → String
  | day d => d.text
  | clock c => c.text
  | full d c offset => d.text ++ " " ++ c.text ++ (offset.map offsetText).getD ""

/-- A moment as it is shown in a list. -/
def shown (m : Moment) : String :=
  let numbers := match m with
    | day d => listed [d.year, d.month, d.day]
    | clock c => listed c.numbers
    | full d c none => listed (d.year :: d.month :: d.day :: c.numbers)
    | full d c (some z) => listed (d.year :: d.month :: d.day :: c.numbers) ++ ", tzinfo=" ++ zoneShown z
  "datetime." ++ m.kindName ++ "(" ++ numbers ++ ")"

/-- Refuses an offset of a day or more. -/
def checkOffset (minutes : Int) : Except MomentFault Int :=
  if minutes.natAbs < 1440 then .ok minutes else .error (.offset minutes)

end Moment

namespace MomentFault

/-- The wording of a fault. -/
def message : MomentFault → String
  | year n => "year " ++ toString n ++ " is out of range"
  | month => "month must be in 1..12"
  | day => "day is out of range for month"
  | hour => "hour must be in 0..23"
  | minute => "minute must be in 0..59"
  | second => "second must be in 0..59"
  | offset minutes =>
    "offset must be a timedelta strictly between -timedelta(hours=24) and timedelta(hours=24), not " ++
      Moment.spanShown minutes ++ "."

end MomentFault

end SourceChange
