import TransferCost.Decimal.Shortest

/-!
# How a double is laid out as text

The shortest decimal fixes the digits of a number, and a `Layout` fixes everything else: where
positional notation gives way to an exponent, whether a whole number keeps its point, which of two
equally near digits is written, and the words for what is no finite number.

`Layout.plain` is the layout of amounts inside sentences.  It never writes an exponent, and writes a
whole number without a point.  The layouts of the file formats stand beside those formats.
-/

namespace TransferCost
namespace Decimal

/-- The decisions of a number format that the digits leave open. -/
structure Layout where
  /-- A number whose first digit stands at this power of ten is written without an exponent. -/
  isPositional : Int → Bool
  /-- A whole number ends in `.0`. -/
  keepsPoint : Bool
  /-- A positive exponent is written with its sign. -/
  signsExponent : Bool
  tie : Tie
  notANumber : String := "NaN"
  infinity : String := "inf"

namespace Layout

/-- Numbers inside sentences: always positional, whole numbers without a point. -/
def plain : Layout where
  isPositional _ := true
  keepsPoint := false
  signsExponent := false
  tie := .up

/-- The power of ten at which the first digit of the decimal stands. -/
def leadingExponent (d : Decimal) : Int :=
  (digits d.coefficient).length - 1 + d.exponent

/-- Digits with a point between them, or zeros before or after them. -/
def positional (l : Layout) (d : Decimal) : List Char :=
  let ds := digits d.coefficient
  if 0 ≤ d.exponent then
    ds ++ zeros d.exponent.toNat ++ (if l.keepsPoint then ['.', '0'] else [])
  else
    let places := (-d.exponent).toNat
    if places < ds.length then
      ds.take (ds.length - places) ++ '.' :: ds.drop (ds.length - places)
    else
      '0' :: '.' :: zeros (places - ds.length) ++ ds

/-- A signed power of ten, as it stands after the letter `e`. -/
def exponentText (l : Layout) (n : Int) : List Char :=
  if n < 0 then '-' :: digits n.natAbs
  else if l.signsExponent then '+' :: digits n.natAbs
  else digits n.natAbs

/-- One digit, a point before the further ones, and the power of ten. -/
def scientific (l : Layout) (d : Decimal) : List Char :=
  let tail := 'e' :: l.exponentText (leadingExponent d)
  match digits d.coefficient with
  | first :: second :: rest => first :: '.' :: second :: rest ++ tail
  | ds => ds ++ tail

/-- A decimal without sign. -/
def magnitude (l : Layout) (d : Decimal) : List Char :=
  if l.isPositional (leadingExponent d) then l.positional d else l.scientific d

/-- The sign in front of a number: nothing if it is not negative. -/
def sign (negative : Bool) : List Char :=
  if negative then ['-'] else []

/-- The characters of a double. -/
def chars (l : Layout) (x : Float) : List Char :=
  match Binary64.value x with
  | .notANumber => l.notANumber.toList
  | .infinite negative => sign negative ++ l.infinity.toList
  | .finite negative m q =>
    sign negative ++
      l.magnitude (if m = 0 then ⟨0, 0⟩ else shortest l.tie (Binary64.signed negative x) m q)

/-- The text of a double. -/
def text (l : Layout) (x : Float) : String :=
  String.ofList (l.chars x)

end Layout
end Decimal
end TransferCost
