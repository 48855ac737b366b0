import SqlCompose.Text.Digits

/-!
# Calendar

Days of the proleptic Gregorian calendar, times of day to the nanosecond, and both
together.  A date and a time carry the proof that they exist, so every written form comes
from a real one.

Nanoseconds of a billion or more are those of a leap second, which may stand behind any
second.  It is written as one second more: as second 60 behind second 59, and behind any
other second as the second that follows.
-/

namespace SqlCompose

/-- Whether a year has a 29th of February. -/
def isLeapYear (year : Int) : Bool :=
  year % 4 == 0 && (year % 100 != 0 || year % 400 == 0)

/-- The number of days of a month, and zero for what is no month. -/
def daysInMonth (year : Int) (month : Nat) : Nat :=
  if month = 2 then if isLeapYear year then 29 else 28
  else if month ∈ [4, 6, 9, 11] then 30
  else if 1 ≤ month ∧ month ≤ 12 then 31
  else 0

/-- A day of the calendar; the year before year 1 is year 0. -/
structure Date where
  year : Int
  month : Nat
  day : Nat
  exists_day : 1 ≤ day ∧ day ≤ daysInMonth year month
  deriving DecidableEq

namespace Date

/-- The day with the given parts, if the calendar has it. -/
def ofParts? (year : Int) (month day : Nat) : Option Date :=
  if h : 1 ≤ day ∧ day ≤ daysInMonth year month then some ⟨year, month, day, h⟩ else none

/-- A year in four digits; one outside of 0 to 9999 has a sign and at least four. -/
def yearText (year : Int) : Text :=
  let digits := Text.ofNat year.natAbs
  let padded := List.replicate (4 - digits.length) '0' ++ digits
  if year < 0 then '-' :: padded else if 9999 < year then '+' :: padded else padded

/-- Year, month and day with hyphens between. -/
def render (d : Date) : Text :=
  yearText d.year ++ '-' :: Text.fixedDigits 10 2 d.month ++ '-' :: Text.fixedDigits 10 2 d.day

end Date

/-- The nanoseconds of one second. -/
def nanosPerSecond : Nat := 1000000000

/-- A time of day. -/
structure TimeOfDay where
  hour : Nat
  minute : Nat
  second : Nat
  nanos : Nat
  hour_lt : hour < 24
  minute_lt : minute < 60
  second_lt : second < 60
  nanos_lt : nanos < 2 * nanosPerSecond
  deriving DecidableEq

namespace TimeOfDay

/-- The time with the given parts, if a day has it. -/
def ofParts? (hour minute second nanos : Nat) : Option TimeOfDay :=
  if h : hour < 24 ∧ minute < 60 ∧ second < 60 ∧ nanos < 2 * nanosPerSecond then
    some ⟨hour, minute, second, nanos, h.1, h.2.1, h.2.2.1, h.2.2.2⟩
  else none

/-- The second as it is written, one more in a leap second. -/
def writtenSecond (t : TimeOfDay) : Nat := t.second + t.nanos / nanosPerSecond

/-- The fraction of the second behind a point: no digits, or three, six or nine, the
fewest that lose nothing. -/
def fractionText (nanos : Nat) : Text :=
  if nanos = 0 then []
  else if nanos % 1000000 = 0 then '.' :: Text.fixedDigits 10 3 (nanos / 1000000)
  else if nanos % 1000 = 0 then '.' :: Text.fixedDigits 10 6 (nanos / 1000)
  else '.' :: Text.fixedDigits 10 9 nanos

/-- Hour, minute and second with colons between, and the fraction. -/
def render (t : TimeOfDay) : Text :=
  Text.fixedDigits 10 2 t.hour ++ ':' :: Text.fixedDigits 10 2 t.minute ++
    ':' :: Text.fixedDigits 10 2 t.writtenSecond ++ fractionText (t.nanos % nanosPerSecond)

end TimeOfDay

/-- A time on a day. -/
structure Timestamp where
  date : Date
  time : TimeOfDay
  deriving DecidableEq

/-- The date and the time with a space between. -/
def Timestamp.render (t : Timestamp) : Text :=
  t.date.render ++ ' ' :: t.time.render

end SqlCompose
