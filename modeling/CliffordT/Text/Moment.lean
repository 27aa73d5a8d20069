import CliffordT.Decimal.Format

/-!
# Dates and times

Days, times of day, and moments, which are both of them in a time zone. They are only shown in messages, so a time of
day keeps the digits of its fraction of a second as they are written, up to a nanosecond.
-/

namespace CliffordT

/-- A day of the calendar. -/
structure Date where
  year : Nat
  month : Nat
  day : Nat
deriving DecidableEq, Repr

namespace Date

/-- How many days a month has. -/
def daysIn (year month : Nat) : Nat :=
  if month = 2 then if year % 4 = 0 ∧ (year % 100 ≠ 0 ∨ year % 400 = 0) then 29 else 28
  else if [4, 6, 9, 11].contains month then 30
  else 31

/-- Whether the calendar has such a day. -/
def isValid (d : Date) : Bool :=
  1 ≤ d.month && d.month ≤ 12 && 1 ≤ d.day && d.day ≤ daysIn d.year d.month

/-- The text of a day. -/
def text (d : Date) : String :=
  String.ofList (Decimal.padded 4 d.year ++ '-' :: (Decimal.padded 2 d.month ++ '-' :: Decimal.padded 2 d.day))

end Date

/-- A time of day. -/
structure Clock where
  hour : Nat
  minute : Nat
  second : Nat
  /-- the digits of a fraction of a second -/
  fraction : List Char
deriving DecidableEq, Repr

namespace Clock

/-- The start of a day. -/
def midnight : Clock := ⟨0, 0, 0, []⟩

/-- How many digits of a fraction count. -/
def maxDigits : Nat := 9

/-- The text of a time of day. -/
def text (c : Clock) : String :=
  String.ofList
    (Decimal.padded 2 c.hour ++ ':' :: (Decimal.padded 2 c.minute ++ ':' :: Decimal.padded 2 c.second) ++
      (if c.fraction.isEmpty then [] else '.' :: c.fraction.take maxDigits))

/-- A time of day without zeros at the end of its fraction. -/
def trimmed (c : Clock) : Clock :=
  { c with fraction := ((c.fraction.take maxDigits).reverse.dropWhile (· = '0')).reverse }

end Clock

/-- A time of a day in a time zone. -/
structure Moment where
  date : Date
  clock : Clock
  /-- how many minutes the zone is ahead -/
  ahead : Int
deriving DecidableEq, Repr

namespace Moment

/-- How far a zone is ahead, in hours and minutes. -/
def offsetText (minutes : Int) : String :=
  let n := minutes.natAbs
  String.ofList ((if minutes < 0 then '-' else '+') :: (Decimal.padded 2 (n / 60) ++ Decimal.padded 2 (n % 60)))

/-- The text of a moment. Only one zone has a name. -/
def text (m : Moment) : String :=
  let offset := offsetText m.ahead
  m.date.text ++ " " ++ m.clock.trimmed.text ++ " " ++ offset ++ " " ++ (if m.ahead = 0 then "UTC" else offset)

end Moment

end CliffordT
