import TransferCost.Calendar.Date
import TransferCost.Text

/-!
# Points in time

A `Timestamp` is a date and a time of day in universal time, down to the nanosecond.  A leap second
is the second 59 with a thousand million nanoseconds or more.

## The written form

`Timestamp.text` writes date, time and a `Z`, with no fraction, or one of three, six or nine digits,
as few as will do.

`Timestamp.ofString?` reads more than that.  Blanks may stand in front of every number, before the
separators inside date and time, and around the offset; numbers may be shorter than usual; a year
with a sign may be longer; a fraction may have any number of digits, of which nine count; and date
and time are separated by a `T` of either case or by a blank.  The offset is a `Z`, the letters
`UTC`, or a sign, two digits for hours and two for minutes, with colons and blanks between them.
The time is then moved to universal time.
-/

namespace TransferCost

/-- A point in time. -/
structure Timestamp where
  date : Date
  /-- Seconds since midnight. -/
  seconds : Nat
  /-- Nanoseconds, which are a thousand million or more in a leap second. -/
  nanos : Nat
deriving DecidableEq

namespace Timestamp

/-- The nanoseconds of a second. -/
def nanosPerSecond : Nat :=
  1000000000

/-- The seconds of a day. -/
def secondsPerDay : Nat :=
  86400

/-! ## Writing -/

/-- The fraction of a second, with three, six or nine digits, or none. -/
def fraction (nanos : Nat) : List Char :=
  if nanos = 0 then []
  else if nanos % 1000000 = 0 then '.' :: Date.padded 3 (nanos / 1000000)
  else if nanos % 1000 = 0 then '.' :: Date.padded 6 (nanos / 1000)
  else '.' :: Date.padded 9 nanos

/-- The hours, the minutes and the seconds, of which there are sixty in a leap second. -/
def clock (t : Timestamp) : List Char :=
  Date.padded 2 (t.seconds / 3600) ++ ':' :: Date.padded 2 (t.seconds / 60 % 60) ++
    ':' :: Date.padded 2 (t.seconds % 60 + t.nanos / nanosPerSecond)

/-- The text of a point in time. -/
def text (t : Timestamp) : String :=
  String.ofList
    (t.date.chars ++ 'T' :: t.clock ++ fraction (t.nanos % nanosPerSecond) ++ ['Z'])

/-- The text without the fraction, for people. -/
def plainText (t : Timestamp) : String :=
  String.ofList (t.date.chars ++ ' ' :: t.clock) ++ " UTC"

/-! ## Reading -/

/-- Takes something from the front of a text and leaves the rest. -/
abbrev Scan (α : Type) := List Char → Option (α × List Char)

/-- A number of one up to `width` digits. -/
def number (width : Nat) : Scan Nat := fun cs =>
  let ds := (cs.takeWhile Char.isDigit).take width
  if ds = [] then none
  else some (ds.foldl (fun n c => 10 * n + (c.toNat - '0'.toNat)) 0, cs.drop ds.length)

/-- A number of a fixed kind: blanks, and up to two digits. -/
def component : Scan Nat := fun cs =>
  number 2 (Text.skipBlanks cs)

/-- A year: up to four digits, or a sign and any number of digits. -/
def year : Scan Int := fun cs =>
  match Text.skipBlanks cs with
  | '-' :: rest => (number rest.length rest).map fun (n, rest) => (-(n : Int), rest)
  | '+' :: rest => (number rest.length rest).map fun (n, rest) => ((n : Int), rest)
  | rest => (number 4 rest).map fun (n, rest) => ((n : Int), rest)

/-- Blanks, and then this character. -/
def separator (c : Char) : Scan Unit := fun cs =>
  match Text.skipBlanks cs with
  | d :: rest => if d = c then some ((), rest) else none
  | [] => none

/-- The nanoseconds of an optional fraction.  Digits behind the ninth do not count. -/
def nanosecond : Scan Nat := fun cs =>
  match cs with
  | '.' :: rest =>
    (number 9 rest).map fun (n, rest') =>
      (n * Nat.pow 10 (9 - (rest.length - rest'.length)), rest'.dropWhile Char.isDigit)
  | _ => some (0, cs)

/-- Two digits, of which the first is at most `top`. -/
def twoDigits (top : Char) : Scan Nat
  | a :: b :: rest =>
    if a.isDigit && decide (a ≤ top) && b.isDigit then
      some (10 * (a.toNat - '0'.toNat) + (b.toNat - '0'.toNat), rest)
    else none
  | _ => none

/-- Whether an offset goes west. -/
def offsetSign : Scan Bool
  | '+' :: rest => some (false, rest)
  | '-' :: rest => some (true, rest)
  | '\u2212' :: rest => some (true, rest)
  | _ => none

/-- An offset from universal time, in seconds. -/
def offset : Scan Int := fun cs =>
  match Text.skipBlanks cs with
  | 'Z' :: rest | 'z' :: rest => some (0, rest)
  | u :: t :: c :: rest =>
    if u.toUpper = 'U' && t.toUpper = 'T' && c.toUpper = 'C' then some (0, rest)
    else do
      let (west, rest) ← offsetSign (u :: t :: c :: rest)
      let (hours, rest) ← twoDigits '9' rest
      let (minutes, rest) ← twoDigits '5' (rest.dropWhile fun c => c = ':' || Text.isBlank c)
      let seconds : Int := hours * 3600 + minutes * 60
      return (if west then -seconds else seconds, rest)
  | _ => none

/-- The letter or the blank between date and time. -/
def middle : Scan Unit
  | 'T' :: rest | 't' :: rest | ' ' :: rest => some ((), rest)
  | _ => none

/-- A local time in universal time. -/
def moved (date : Date) (seconds nanos : Nat) (offset : Int) : Option Timestamp := do
  if secondsPerDay ≤ offset.natAbs then none
  let s := (seconds : Int) - offset
  if s < 0 then
    return ⟨← date.previous, (s + secondsPerDay).toNat, nanos⟩
  else if (secondsPerDay : Int) ≤ s then
    return ⟨← date.next, (s - secondsPerDay).toNat, nanos⟩
  else
    return ⟨date, s.toNat, nanos⟩

/-- The point in time that a text describes. -/
def ofChars? (cs : List Char) : Option Timestamp := do
  let (y, cs) ← year cs
  let ((), cs) ← separator '-' cs
  let (month, cs) ← component cs
  let ((), cs) ← separator '-' cs
  let (day, cs) ← component cs
  let ((), cs) ← middle cs
  let (hour, cs) ← component cs
  let ((), cs) ← separator ':' cs
  let (minute, cs) ← component cs
  let ((), cs) ← separator ':' cs
  let (second, cs) ← component cs
  let (nanos, cs) ← nanosecond cs
  let (east, cs) ← offset cs
  if Text.skipBlanks cs ≠ [] then none
  if 23 < hour || 59 < minute || 60 < second then none
  let date ← Date.checked ⟨y, month, day⟩
  let leap := second = 60
  moved date (hour * 3600 + minute * 60 + if leap then 59 else second)
    (if leap then nanos + nanosPerSecond else nanos) east

/-- The point in time that a text describes. -/
def ofString? (s : String) : Option Timestamp :=
  ofChars? s.toList

/-- The point in time this many nanoseconds after the start of 1970. -/
def ofNanos (n : Nat) : Timestamp :=
  let s := n / nanosPerSecond
  ⟨Date.ofDayNumber (s / secondsPerDay), s % secondsPerDay, n % nanosPerSecond⟩

/-- The milliseconds from one point in time to a later one of the same day or the next, which are
counted as whole. -/
def millisSince (t start : Timestamp) : Nat :=
  let days := if t.date = start.date then 0 else secondsPerDay
  (((t.seconds + days) * nanosPerSecond + t.nanos) -
    (start.seconds * nanosPerSecond + start.nanos)) / 1000000

end Timestamp
end TransferCost
