import Formulary.Error.Fault
import Formulary.Number.Binary

/-!
# Timestamps

A timestamp is a whole number of milliseconds since the start of 1970, of any size.  Its text goes
through a number of seconds as a double, as clocks give it, and through the proleptic Gregorian
calendar, which has dates for the years 1 to 9999.
-/

set_option autoImplicit false

namespace Formulary

/-- A point in time, in milliseconds since the start of 1970. -/
structure Timestamp where
  millis : Int
deriving DecidableEq, Repr

/-- A day of the proleptic Gregorian calendar. -/
structure Date where
  year : Int
  month : Int
  day : Int
deriving DecidableEq, Repr

namespace Date

/-- The days of 400 years. -/
def daysPerEra : Int := 146097

/-- The days from the first of March of the year 0 to the start of 1970. -/
def epochDay : Int := 719468

/-- The date that lies a number of days after the start of 1970.  Years are counted from March, so
that a leap day comes last. -/
def ofDays (days : Int) : Date :=
  let shifted := days + epochDay
  let era := shifted.fdiv daysPerEra
  let dayOfEra := shifted - era * daysPerEra
  let yearOfEra :=
    (dayOfEra - dayOfEra / 1460 + dayOfEra / 36524 - dayOfEra / 146096) / 365
  let dayOfYear := dayOfEra - (365 * yearOfEra + yearOfEra / 4 - yearOfEra / 100)
  let monthFromMarch := (5 * dayOfYear + 2) / 153
  let day := dayOfYear - (153 * monthFromMarch + 2) / 5 + 1
  let month := if monthFromMarch < 10 then monthFromMarch + 3 else monthFromMarch - 9
  let year := yearOfEra + era * 400 + (if month ≤ 2 then 1 else 0)
  ⟨year, month, day⟩

/-- How many days after the start of 1970 a date lies. -/
def toDays (d : Date) : Int :=
  let year := if d.month ≤ 2 then d.year - 1 else d.year
  let era := year.fdiv 400
  let yearOfEra := year - era * 400
  let monthFromMarch := if 2 < d.month then d.month - 3 else d.month + 9
  let dayOfYear := (153 * monthFromMarch + 2) / 5 + d.day - 1
  let dayOfEra := yearOfEra * 365 + yearOfEra / 4 - yearOfEra / 100 + dayOfYear
  era * daysPerEra + dayOfEra - epochDay

end Date

/-- A date and time of day as hosts write them, with the minutes by which local time is ahead; a
moment without them is in universal time. -/
structure Moment where
  date : Date
  hour : Int
  minute : Int
  second : Int
  microsecond : Int
  minutesAhead : Option Int
deriving DecidableEq, Repr

/-- The microseconds from the start of 1970 to a moment. -/
def Moment.microseconds (m : Moment) : Int :=
  let minutes := (m.date.toDays * 24 + m.hour) * 60 + m.minute - m.minutesAhead.getD 0
  (minutes * 60 + m.second) * 1000000 + m.microsecond

namespace Timestamp

/-- The timestamp of a moment: its seconds as a double, a thousand times that, and the nearest whole
number to it. -/
def ofMoment (m : Moment) : Timestamp :=
  let seconds := Number.ofDecimalInt m.microseconds 6
  ⟨(Number.nearest? (seconds * 1000.0)).getD 0⟩

/-- A number without what lies behind its point. -/
def truncated (x : Float) : Float :=
  if x < 0.0 then x.ceil else x.floor

/-- A double of seconds as whole seconds and microseconds, a half going to the even microsecond. -/
def splitSeconds (seconds : Float) : Int × Int :=
  let whole := truncated seconds
  let wholeSeconds := (Number.whole? whole).getD 0
  let micros := (Number.nearest? ((seconds - whole) * 1000000.0)).getD 0
  if 1000000 ≤ micros then (wholeSeconds + 1, micros - 1000000)
  else if micros < 0 then (wholeSeconds - 1, micros + 1000000)
  else (wholeSeconds, micros)

/-- A field of a date or time, padded with zeros to a width. -/
def field (width : Nat) (n : Int) : String :=
  let digits := Nat.toDigits 10 n.toNat
  String.ofList (List.replicate (width - digits.length) '0' ++ digits)

/-- A date and time in universal time, down to whole milliseconds. -/
def isoText (date : Date) (secondOfDay microsecond : Int) : String :=
  field 4 date.year ++ "-" ++ field 2 date.month ++ "-" ++ field 2 date.day ++ "T"
    ++ field 2 (secondOfDay / 3600) ++ ":" ++ field 2 (secondOfDay / 60 % 60) ++ ":"
    ++ field 2 (secondOfDay % 60) ++ "." ++ field 3 (microsecond / 1000) ++ "+00:00"

/-- The largest year that can be told apart, counted from 1900. -/
def largestYearCount : Int := Number.twoTo 31 - 1

/-- The text of a timestamp, or why it has none. -/
def text (t : Timestamp) : Except Fault String :=
  let seconds := Number.ofDecimalInt t.millis 3
  if !Number.isFinite seconds then .error .quotientTooLarge
  else
    let (whole, micros) := splitSeconds seconds
    if whole < -(Number.twoTo 63 : Int) ∨ Number.twoTo 63 ≤ whole then .error .secondsOutOfRange
    else
      let date := Date.ofDays (whole.fdiv 86400)
      let yearCount := date.year - 1900
      if yearCount < -largestYearCount - 1 ∨ largestYearCount < yearCount then .error .yearTooLarge
      else if date.year < 1 ∨ 9999 < date.year then
        .error (.yearOutOfRange (Int.bmod date.year (Number.twoTo 32)))
      else .ok (isoText date (whole.fmod 86400) micros)

end Timestamp

end Formulary
