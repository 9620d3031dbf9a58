import TransferCost.Decimal.Fixed

/-!
# Figures in reports

Reports show amounts as whole subunits with grouped digits, percentages with one place, and changes
with a sign.  A metric without a value is shown as such, and never as nought.
-/

namespace TransferCost
namespace Figure

/-- What stands for a metric without a value. -/
def notAvailable : String :=
  "n/a"

/-- A figure for a metric that may have no value. -/
def orNotAvailable {α : Type} (figure : α → String) : Option α → String
  | some a => figure a
  | none => notAvailable

/-- The nearest whole number of subunits.  A negative zero has no sign. -/
def subunitChars (x : Float) : List Char :=
  let whole := Binary64.roundWhole x
  (if whole < 0.0 then ['-'] else []) ++
    Decimal.grouped (Decimal.fixedChars .minusOnly 0 whole.abs)

/-- The nearest whole number of subunits. -/
def subunits (x : Float) : String :=
  String.ofList (subunitChars x)

/-- A percentage. -/
def percentage (x : Float) : String :=
  Decimal.fixed 1 x ++ "%"

/-- A percentage that may have no value. -/
def percent : Option Float → String :=
  orNotAvailable percentage

/-- A reduction as a change: one of seventy percent is a change by minus seventy percent. -/
def change (x : Float) : String :=
  Decimal.fixedSigned 1 (if x == 0.0 then 0.0 else -x) ++ "%"

/-- A reduction as a change, where it may have no value. -/
def reduction : Option Float → String :=
  orNotAvailable change

/-- A difference of percentages. -/
def points (x : Float) : String :=
  Decimal.fixedSigned 1 x ++ " pp"

/-- An amount with its unit. -/
def amount (x : Float) : String :=
  subunits x ++ " subunits"

/-- A number of units. -/
def units (x : Float) : String :=
  Decimal.fixed 2 x ++ " units"

end Figure
end TransferCost
