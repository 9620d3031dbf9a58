import TransferCost.Analysis
import TransferCost.Decimal.Layout

/-!
# Tables for plotting

An analysis is also written as two tables of comma-separated fields, one row a line, under a line of
column names: the scaling curve, and the means of each kind of cost.  The names and labels in these
tables hold neither commas nor quotes, so a field is written as it is, and a missing number as an
empty field.
-/

namespace TransferCost

/-- A field of a table. -/
inductive Cell where
  | text (s : String)
  | real (x : Float)
  | missing
deriving DecidableEq

/-- Numbers in tables are written like those in JSON, but a positive exponent has no sign. -/
def Cell.numberLayout : Decimal.Layout :=
  { Json.numberLayout with signsExponent := false }

/-- The text of a field. -/
def Cell.chars : Cell → List Char
  | text s => s.toList
  | real x => numberLayout.chars x
  | missing => []

/-- A field for a number that may be missing. -/
def Cell.ofOption : Option Float → Cell
  | some x => real x
  | none => missing

/-- Rows of fields under the names of their columns. -/
structure Table where
  columns : List String
  rows : List (List Cell)
deriving DecidableEq

namespace Table

/-- A line of fields. -/
def line (fields : List (List Char)) : List Char :=
  List.intercalate [','] fields ++ ['\n']

/-- The text of a table. -/
def text (t : Table) : String :=
  String.ofList <|
    line (t.columns.map String.toList) ++
      t.rows.flatMap fun row => line (row.map Cell.chars)

/-- The row of a point of the scaling curve. -/
def pointRow (p : ScalingPoint) : List Cell :=
  [.real p.amount, .real p.units, .real p.optimizedEfficiency, .real p.unoptimizedEfficiency,
   .real p.improvement]

/-- The scaling curve. -/
def ofPoints (points : List ScalingPoint) : Table where
  columns :=
    ["amount", "amount_in_base_units", "optimized_efficiency", "unoptimized_efficiency",
     "improvement"]
  rows := points.map pointRow

/-- The row of a kind of cost of a transfer type. -/
def kindRow (a : TypeAnalysis) (t : TransferType) (k : CostKind) : List Cell :=
  [.text t.key, .text k.key, .text k.label, .real (a.means.unoptimized.breakdown.get k),
   .real (a.means.optimized.breakdown.get k),
   .ofOption (a.improvement.reductionOfKind.get k)]

/-- The means of each kind of cost. -/
def ofKinds (types : PerType TypeAnalysis) : Table where
  columns := ["transfer_type", "cost_type", "label", "unoptimized", "optimized", "reduction"]
  rows := TransferType.all.flatMap fun t => CostKind.all.map (kindRow (types.get t) t)

/-- The file of the scaling curve. -/
def scalingFile : String :=
  "efficiency_scaling.csv"

/-- The file of the kinds of cost. -/
def kindsFile : String :=
  "cost_breakdown.csv"

/-- The tables of an analysis with their files.  A scaling curve without points is left out. -/
def ofAnalysis (a : Analysis) : List (String × Table) :=
  (if a.scaling.isEmpty then [] else [(scalingFile, ofPoints a.scaling.points)]) ++
    [(kindsFile, ofKinds a.types)]

end Table
end TransferCost
