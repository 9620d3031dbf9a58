import TransferCost.Binary64
import TransferCost.Decimal.Basic

/-!
# Decimals with a fixed number of places

The exact value of a double is rounded to a multiple of `10 ^ -places`, and a half goes to the even
neighbour.  The rounding is `roundDiv`, on whole numbers, so no intermediate double is rounded on
the way: `0.15`, which is a little less than fifteen hundredths, has the one-place text `0.1`.
-/

namespace TransferCost
namespace Decimal

/-- The whole number nearest to `a / b`, and the even one of two. -/
def roundDiv (a b : Nat) : Nat :=
  let whole := a / b
  let rest := a % b
  if 2 * rest < b then whole
  else if b < 2 * rest then whole + 1
  else whole + whole % 2

/-- The multiple of `10 ^ -places` nearest to `m * 2 ^ q`, as a count of such steps. -/
def steps (places m : Nat) (q : Int) : Nat :=
  roundDiv (m * Nat.pow 2 q.toNat * Nat.pow 10 places) (Nat.pow 2 (-q).toNat)

/-- A count of steps of `10 ^ -places`, written with its point. -/
def fixedMagnitude (places n : Nat) : List Char :=
  let scale := Nat.pow 10 places
  let fraction := digits (n % scale)
  digits (n / scale) ++
    (if places = 0 then [] else '.' :: zeros (places - fraction.length) ++ fraction)

/-- Whether a number that is not negative carries a plus. -/
inductive SignStyle where
  | minusOnly
  | always
deriving DecidableEq

/-- The sign in front of a number.  A negative zero is written with its sign. -/
def SignStyle.text : SignStyle → Bool → List Char
  | _, true => ['-']
  | .minusOnly, false => []
  | .always, false => ['+']

/-- The characters of a double with a fixed number of places. -/
def fixedChars (style : SignStyle) (places : Nat) (x : Float) : List Char :=
  match Binary64.value x with
  | .notANumber => ['N', 'a', 'N']
  | .infinite negative => style.text negative ++ ['i', 'n', 'f']
  | .finite negative m q => style.text negative ++ fixedMagnitude places (steps places m q)

/-- The text of a double with a fixed number of places. -/
def fixed (places : Nat) (x : Float) : String :=
  String.ofList (fixedChars .minusOnly places x)

/-- The text of a double with a fixed number of places, signed in any case. -/
def fixedSigned (places : Nat) (x : Float) : String :=
  String.ofList (fixedChars .always places x)

end Decimal
end TransferCost
