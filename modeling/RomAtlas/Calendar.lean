/-!
# Days and times

A project file may hold days of the calendar and times of a day. A time may say how far it is ahead
of universal time; two such times are the same if they are the same instant.

* `Date.ofNumbers`, `Moment.ofNumbers`: accept exactly the days and times that exist.
-/

namespace RomAtlas

/-- What is wrong with the numbers of a day or time. -/
inductive CalendarFault where
  | year (year : Nat)
  | month
  | day
  | hour
  | minute
  | second
  /-- The distance from universal time, in minutes, is a day or more. -/
  | offset (minutes : Int)
deriving DecidableEq, Repr

/-- A day of the calendar. -/
structure Date where
  year : Nat
  month : Nat
  day : Nat
deriving DecidableEq, Repr

/-- A time of a day, to the microsecond. -/
structure Moment where
  date : Date
  hour : Nat
  minute : Nat
  second : Nat
  micro : Nat
  /-- The minutes by which the time is ahead of universal time, if known. -/
  offset : Option Int
deriving DecidableEq, Repr

/-- Digits of a number, filled with zeros to a width. -/
def zeroFilled (width n : Nat) : String :=
  let digits := Nat.toDigits 10 n
  String.ofList (List.replicate (width - digits.length) '0' ++ digits)

/-- A span of minutes as days and seconds, of which the seconds are never negative. -/
def spanText (minutes : Int) : String :=
  let days := minutes / 1440
  let seconds := minutes % 1440 * 60
  let parts := (if days = 0 then [] else ["days=" ++ toString days]) ++
    (if seconds = 0 then [] else ["seconds=" ++ toString seconds])
  "datetime.timedelta(" ++ (if parts.isEmpty then "0" else ", ".intercalate parts) ++ ")"

/-- The wording of a fault. -/
def CalendarFault.message : CalendarFault → String
  | year y => "year " ++ toString y ++ " is out of range"
  | month => "month must be in 1..12"
  | day => "day is out of range for month"
  | hour => "hour must be in 0..23"
  | minute => "minute must be in 0..59"
  | second => "second must be in 0..59"
  | offset minutes =>
    "offset must be a timedelta strictly between -timedelta(hours=24) and timedelta(hours=24), " ++
      "not " ++ spanText minutes ++ "."

/-- Whether a year has a day more in February. -/
def isLeapYear (year : Nat) : Bool := year % 4 = 0 && (year % 100 ≠ 0 || year % 400 = 0)

/-- The number of days of a month. -/
def daysOfMonth (year month : Nat) : Nat :=
  if month = 2 then if isLeapYear year then 29 else 28
  else if month = 4 ∨ month = 6 ∨ month = 9 ∨ month = 11 then 30
  else 31

namespace Date

/-- The day of given numbers, if there is one. -/
def ofNumbers (year month day : Nat) : Except CalendarFault Date :=
  if year = 0 then .error (.year year)
  else if month = 0 ∨ 12 < month then .error .month
  else if day = 0 ∨ daysOfMonth year month < day then .error .day
  else .ok ⟨year, month, day⟩

/-- The number of days up to this one, counted from the first day of the year one. -/
def ordinal (d : Date) : Nat :=
  let past := d.year - 1
  past * 365 + past / 4 - past / 100 + past / 400 +
    (List.range (d.month - 1)).foldl (fun n m => n + daysOfMonth d.year (m + 1)) 0 + d.day

/-- The text of a day. -/
def text (d : Date) : String :=
  zeroFilled 4 d.year ++ "-" ++ zeroFilled 2 d.month ++ "-" ++ zeroFilled 2 d.day

/-- The numbers of a day, as they are listed. -/
def numbers (d : Date) : List Nat := [d.year, d.month, d.day]

/-- A day as it is shown inside a list or mapping. -/
def inner (d : Date) : String :=
  "datetime.date(" ++ ", ".intercalate (d.numbers.map toString) ++ ")"

end Date

namespace Moment

/-- The time of given numbers, if there is one. -/
def ofNumbers (year month day hour minute second micro : Nat) (offset : Option Int) :
    Except CalendarFault Moment := do
  match offset.filter fun m : Int => 1440 ≤ m.natAbs with
  | some minutes => .error (.offset minutes)
  | none =>
    let date ← Date.ofNumbers year month day
    if 23 < hour then .error .hour
    else if 59 < minute then .error .minute
    else if 59 < second then .error .second
    else .ok ⟨date, hour, minute, second, micro, offset⟩

/-- The microseconds up to a time, by the clock that shows it. -/
def clock (m : Moment) : Int :=
  (((m.date.ordinal * 24 + m.hour) * 60 + m.minute) * 60 + m.second) * 1000000 + m.micro

/-- Whether two times are the same: the same instant, or the same reading of a clock whose distance
from universal time is not known. -/
def same (m n : Moment) : Bool :=
  match m.offset, n.offset with
  | none, none => m.clock = n.clock
  | some a, some b => m.clock - a * 60000000 = n.clock - b * 60000000
  | _, _ => false

/-- The distance from universal time as text. -/
def offsetText (minutes : Int) : String :=
  (if minutes < 0 then "-" else "+") ++ zeroFilled 2 (minutes.natAbs / 60) ++ ":" ++
    zeroFilled 2 (minutes.natAbs % 60)

/-- The text of a time. -/
def text (m : Moment) : String :=
  m.date.text ++ " " ++ zeroFilled 2 m.hour ++ ":" ++ zeroFilled 2 m.minute ++ ":" ++
    zeroFilled 2 m.second ++ (if m.micro = 0 then "" else "." ++ zeroFilled 6 m.micro) ++
    (m.offset.map offsetText).getD ""

/-- A time as it is shown inside a list or mapping. Zeros at the end are left out. -/
def inner (m : Moment) : String :=
  let seconds :=
    if m.micro ≠ 0 then [m.second, m.micro] else if m.second ≠ 0 then [m.second] else []
  let zone := match m.offset with
    | none => ""
    | some minutes =>
      ", tzinfo=" ++ if minutes = 0 then "datetime.timezone.utc"
        else "datetime.timezone(" ++ spanText minutes ++ ")"
  "datetime.datetime(" ++
    ", ".intercalate ((m.date.numbers ++ [m.hour, m.minute] ++ seconds).map toString) ++ zone ++ ")"

end Moment

end RomAtlas
