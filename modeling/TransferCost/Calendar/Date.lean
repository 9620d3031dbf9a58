import TransferCost.Decimal.Basic

/-!
# Dates

A date is a year, a month and a day of the Gregorian calendar, which is carried on backwards and has
a year zero.  Years are limited to `Date.minYear` and `Date.maxYear`, so the day after the last day,
and the day before the first, do not exist.
-/

namespace TransferCost

/-- A day of the calendar. -/
structure Date where
  year : Int
  month : Nat
  day : Nat
deriving DecidableEq

namespace Date

/-- The first year. -/
def minYear : Int :=
  -262143

/-- The last year. -/
def maxYear : Int :=
  262142

/-- The year has a leap day. -/
def isLeapYear (year : Int) : Bool :=
  year % 4 = 0 && (year % 100 ≠ 0 || year % 400 = 0)

/-- The number of days of a month. -/
def daysIn (year : Int) : Nat → Nat
  | 2 => if isLeapYear year then 29 else 28
  | 4 | 6 | 9 | 11 => 30
  | _ => 31

/-- A day of the calendar. -/
def isValid (d : Date) : Bool :=
  minYear ≤ d.year && d.year ≤ maxYear && 1 ≤ d.month && d.month ≤ 12 && 1 ≤ d.day &&
    d.day ≤ daysIn d.year d.month

/-- The date, if it is a day of the calendar. -/
def checked (d : Date) : Option Date :=
  if d.isValid then some d else none

/-- The day after. -/
def next (d : Date) : Option Date :=
  if d.day < daysIn d.year d.month then some { d with day := d.day + 1 }
  else if d.month < 12 then some ⟨d.year, d.month + 1, 1⟩
  else checked ⟨d.year + 1, 1, 1⟩

/-- The day before. -/
def previous (d : Date) : Option Date :=
  if 1 < d.day then some { d with day := d.day - 1 }
  else if 1 < d.month then some ⟨d.year, d.month - 1, daysIn d.year (d.month - 1)⟩
  else checked ⟨d.year - 1, 12, 31⟩

/-- The day with this number, where the first of January 1970 has the number zero.  Days are counted
from the first of March of the year zero, so that a leap day is the last day of its year. -/
def ofDayNumber (n : Int) : Date :=
  let z := n + 719468
  let era := z / 146097
  let dayOfEra := (z % 146097).toNat
  let yearOfEra := (dayOfEra - dayOfEra / 1460 + dayOfEra / 36524 - dayOfEra / 146096) / 365
  let dayOfYear := dayOfEra - (365 * yearOfEra + yearOfEra / 4 - yearOfEra / 100)
  let shifted := (5 * dayOfYear + 2) / 153
  let month := if shifted < 10 then shifted + 3 else shifted - 9
  { year := (yearOfEra : Int) + era * 400 + (if month ≤ 2 then 1 else 0)
    month
    day := dayOfYear - (153 * shifted + 2) / 5 + 1 }

/-! ## Writing -/

/-- A whole number with at least `width` digits. -/
def padded (width n : Nat) : List Char :=
  let ds := Decimal.digits n
  Decimal.zeros (width - ds.length) ++ ds

/-- A year: four digits, or a sign and at least four digits for a year that four digits cannot
write. -/
def yearText (year : Int) : List Char :=
  if 0 ≤ year && year ≤ 9999 then padded 4 year.toNat
  else (if year < 0 then '-' else '+') :: padded 4 year.natAbs

/-- The English name of a month. -/
def monthName : Nat → String
  | 1 => "January"
  | 2 => "February"
  | 3 => "March"
  | 4 => "April"
  | 5 => "May"
  | 6 => "June"
  | 7 => "July"
  | 8 => "August"
  | 9 => "September"
  | 10 => "October"
  | 11 => "November"
  | _ => "December"

/-- The day, the name of the month and the year. -/
def longText (d : Date) : String :=
  String.ofList (padded 2 d.day) ++ " " ++ monthName d.month ++ " " ++
    String.ofList (yearText d.year)

/-- The year, the month and the day, in numbers. -/
def chars (d : Date) : List Char :=
  yearText d.year ++ '-' :: padded 2 d.month ++ '-' :: padded 2 d.day

end Date
end TransferCost
