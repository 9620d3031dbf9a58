import TransferCost.Analysis
import TransferCost.Calendar.Timestamp
import TransferCost.Figure

/-!
# The summary of an analysis

The summary is printed when an analysis has been made, before anything is written to files.
-/

namespace TransferCost
namespace Summary

/-- The lines of a transfer type. -/
def typeLines (t : TransferType) (a : TypeAnalysis) : List String :=
  ["",
   s!"{t.label} transfers:",
   s!"  efficiency (unoptimized):  {Decimal.fixed 2 a.means.unoptimized.efficiency}%",
   s!"  efficiency (optimized):    {Decimal.fixed 2 a.means.optimized.efficiency}%",
   s!"  efficiency gain:           {Figure.points a.improvement.efficiency}",
   s!"  cost reduction:            {Figure.percent a.improvement.costReduction}",
   s!"  rent reduction:            {Figure.percent a.improvement.reductionOfKind.rent}",
   s!"  time improvement:          {Figure.percent a.improvement.timeReduction}"]

/-- The lines on the optimum. -/
def optimumLines : Option ScalingOptimum → List String
  | some o =>
    [s!"  optimal transfer size:     {Figure.units o.units}",
     s!"  max efficiency gain:       {Figure.points o.improvement}"]
  | none => ["  (no scaling data available)"]

/-- The lines of the summary. -/
def lines (a : Analysis) (started : Timestamp) : List String :=
  ["",
   "===== COST EFFICIENCY ANALYSIS =====",
   s!"Run started {started.plainText}"] ++
  (TransferType.all.flatMap fun t => typeLines t (a.types.get t)) ++
  ["", "Scaling:"] ++ optimumLines a.scaling.optimum ++
  ["",
   "Summary:",
   s!"  multi vs single efficiency delta: {Figure.points a.contrast.efficiency}",
   s!"  average efficiency gain:          {Figure.points a.averageEfficiencyGain}",
   s!"  average cost reduction:           {Figure.percent a.averageCostReduction}",
   "",
   "===== END OF ANALYSIS ====="]

end Summary
end TransferCost
