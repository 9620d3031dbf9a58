/-!
# Decimal numbers

A `Decimal` is a whole coefficient times a power of ten, which is what a written number means before
it is rounded to a double.  `Decimal.toFloat` does that rounding, to the nearest double and to the
even one of two equally near; what is too large becomes infinite.

## Digits in groups of three

Long whole numbers are written with a comma before every third digit from the right.  `grouped`
decides at each digit by the number of digits after it, so the groups are counted from the right
although the text is built from the left.  Striking the commas out gives the digits back.
-/

namespace TransferCost

/-- The number `coefficient * 10 ^ exponent`. -/
structure Decimal where
  coefficient : Nat
  exponent : Int
deriving DecidableEq

namespace Decimal

/-- The nearest double. -/
def toFloat (d : Decimal) : Float :=
  Float.ofScientific d.coefficient (decide (d.exponent < 0)) d.exponent.natAbs

/-- The digits of a whole number, most significant first. -/
def digits (n : Nat) : List Char :=
  Nat.toDigits 10 n

/-- A run of zeros. -/
def zeros (n : Nat) : List Char :=
  List.replicate n '0'

@[simp] theorem length_zeros (n : Nat) : (zeros n).length = n := by
  simp [zeros]

/-! ## Digits in groups of three -/

/-- The digits with a comma before each group of three that has a digit before it. -/
def grouped : List Char → List Char
  | [] => []
  | c :: rest =>
    if rest ≠ [] ∧ rest.length % 3 = 0 then c :: ',' :: grouped rest else c :: grouped rest

@[simp] theorem grouped_nil : grouped [] = [] := rfl

/-- **Grouping adds commas and nothing else.** -/
theorem filter_grouped {cs : List Char} (h : ',' ∉ cs) :
    (grouped cs).filter (· ≠ ',') = cs := by
  induction cs with
  | nil => rfl
  | cons c rest ih =>
    have hc : c ≠ ',' := fun hh => h (hh ▸ List.mem_cons_self)
    have hr := ih (fun hh => h (List.mem_cons_of_mem _ hh))
    unfold grouped
    split <;> simp_all

end Decimal
end TransferCost
