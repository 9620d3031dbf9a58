/-!
# Double-precision numbers, read exactly

Every quantity of the analysis is a `Float`, and its arithmetic is the IEEE arithmetic that `Float`
has a logical model for.  This file adds the four things the analysis needs besides `+ - * /`:

* `value` --- the exact number a `Float` stands for, as a sign, a mantissa and a power of two;
* `roundWhole` --- the nearest whole number, halves away from zero;
* `orderKey` --- the total order of bit patterns, in which `-0.0` stands before `0.0`;
* `sum` and `mean` --- in list order, starting from `-0.0`, the neutral element of addition.

## Why the sum starts at `-0.0`

`-0.0 + x = x` for every `x`, whereas `0.0 + (-0.0)` is `0.0`.  So a sum of negative zeros stays a
negative zero, and the mean of one number is that number.
-/

namespace TransferCost
namespace Binary64

/-- The exact meaning of a `Float`.  A finite one stands for `mantissa * 2 ^ exponent`, with a sign
that zero carries as well. -/
inductive Value where
  | notANumber
  | infinite (negative : Bool)
  | finite (negative : Bool) (mantissa : Nat) (exponent : Int)
deriving DecidableEq

/-- The sign of a negative number. -/
def isNegativeSign : Float.Model.UnpackedFloat.Sign → Bool
  | .negative => true
  | .positive => false

/-- The number that a `Float` stands for. -/
def value (x : Float) : Value :=
  match x.toModel.unpack with
  | .notANumber => .notANumber
  | .infinity s => .infinite (isNegativeSign s)
  | .zero s => .finite (isNegativeSign s) 0 0
  | .finite s m e _ => .finite (isNegativeSign s) m e

/-- The number with its sign changed if `negative` says so. -/
def signed (negative : Bool) (x : Float) : Float :=
  if negative then -x else x

/-- The nearest whole number; a half goes away from zero, and the sign is kept even where the
result is a zero.  A double with a non-negative power of two is whole already. -/
def roundWhole (x : Float) : Float :=
  match value x with
  | .finite negative mantissa exponent =>
    if 0 ≤ exponent then x
    else
      let scale := Nat.pow 2 (-exponent).toNat
      signed negative (Float.ofNat ((2 * mantissa + scale) / (2 * scale)))
  | _ => x

/-- A whole number that sorts like the bit pattern read as a sign and a magnitude: all negative
numbers, `-0.0` among them, before `0.0`, and what is not a number last. -/
def orderKey (x : Float) : Int :=
  let bits := x.toBits.toNat
  if bits < Nat.pow 2 63 then bits else Nat.pow 2 63 - 1 - bits

/-- The total order of doubles, under which distinct doubles are never equal. -/
def totalLE (x y : Float) : Bool :=
  orderKey x ≤ orderKey y

/-- The sum in list order. -/
def sum (xs : List Float) : Float :=
  xs.foldl (· + ·) (-0.0)

/-- The arithmetic mean in list order.  It is meant for lists that hold something. -/
def mean (xs : List Float) : Float :=
  sum xs / Float.ofNat xs.length

@[simp] theorem sum_nil : sum [] = -0.0 := rfl

end Binary64
end TransferCost
