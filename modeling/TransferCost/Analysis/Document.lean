import TransferCost.Analysis
import TransferCost.Spelling

/-!
# Analyses in documents

Each part of an analysis has two halves here: `toJson`, which writes it, and a `shape`, which says
how it is read.  A metric without a value is written as `null`, but a kind of cost whose reduction
has no value is left out of the object of its reductions.

A shape fills in a blank record.  Every field that is not nullable is required, so nothing of the
blank is left in what is read.
-/

namespace TransferCost

open Json (RecordShape Decoder decodeReal decodeNullable decodeArray decodeCount64)

/-- A metric as it is written. -/
def metricJson : Option Float → Json :=
  Json.optional .real

/-- Reads a metric. -/
def decodeMetric : Decoder (Option Float) :=
  decodeNullable decodeReal

/-! ## Breakdowns and means -/

/-- How a breakdown is written. -/
def Breakdown.shape : RecordShape Breakdown where
  title := "CostBreakdown"
  blank := .fill 0.0
  fields := CostKind.all.map fun k => .of k.key .required decodeReal fun x b => b.set k x

namespace Means

/-- Means as they are written. -/
def toJson (m : Means) : Json :=
  .object
    [("sample_count", .count m.count),
     ("efficiency", .real m.efficiency),
     ("total_cost", .real m.totalCost),
     ("time_ms", .real m.timeMs),
     ("cost_breakdown", m.breakdown.toJson),
     ("accounts_created", .real m.accountsCreated),
     ("accounts_remaining", .real m.accountsRemaining)]

/-- How means are written. -/
def shape : RecordShape Means where
  title := "PartitionStats"
  blank := ⟨0, 0.0, 0.0, 0.0, .fill 0.0, 0.0, 0.0⟩
  fields :=
    [.of "sample_count" .required decodeCount64 fun n m => { m with count := n },
     .of "efficiency" .required decodeReal fun x m => { m with efficiency := x },
     .of "total_cost" .required decodeReal fun x m => { m with totalCost := x },
     .of "time_ms" .required decodeReal fun x m => { m with timeMs := x },
     .of "cost_breakdown" .required Breakdown.shape.read fun b m => { m with breakdown := b },
     .of "accounts_created" .required decodeReal fun x m => { m with accountsCreated := x },
     .of "accounts_remaining" .required decodeReal fun x m => { m with accountsRemaining := x }]

end Means

/-! ## Improvements and their contrast -/

namespace Improvement

/-- The reductions of those kinds of cost that have one, as they are written. -/
def kindsJson (r : PerKind (Option Float)) : Json :=
  .object <| r.toList.filterMap fun (k, x?) => x?.map fun x => (k.key, .real x)

/-- Reads the reductions of kinds of cost.  Of two reductions of one kind the later counts. -/
def decodeKinds : Decoder (PerKind (Option Float)) := fun v => do
  let entries ← Json.decodeMap CostKind.known decodeReal v
  return entries.foldl (fun r (k, x) => r.set k (some x)) (.fill none)

/-- An improvement as it is written. -/
def toJson (i : Improvement) : Json :=
  .object
    [("efficiency", .real i.efficiency),
     ("cost_reduction", metricJson i.costReduction),
     ("time_improvement", metricJson i.timeReduction),
     ("cost_reduction_by_type", kindsJson i.reductionOfKind)]

/-- How an improvement is written. -/
def shape : RecordShape Improvement where
  title := "Improvements"
  blank := ⟨0.0, none, none, .fill none⟩
  fields :=
    [.of "efficiency" .required decodeReal fun x i => { i with efficiency := x },
     .of "cost_reduction" .nullable decodeMetric fun x i => { i with costReduction := x },
     .of "time_improvement" .nullable decodeMetric fun x i => { i with timeReduction := x },
     .of "cost_reduction_by_type" .required decodeKinds
       fun r i => { i with reductionOfKind := r }]

end Improvement

namespace Contrast

/-- A contrast as it is written. -/
def toJson (c : Contrast) : Json :=
  .object
    [("efficiency_delta", .real c.efficiency),
     ("cost_reduction_delta", metricJson c.costReduction),
     ("time_improvement_delta", metricJson c.timeReduction)]

/-- How a contrast is written. -/
def shape : RecordShape Contrast where
  title := "TypeComparison"
  blank := ⟨0.0, none, none⟩
  fields :=
    [.of "efficiency_delta" .required decodeReal fun x c => { c with efficiency := x },
     .of "cost_reduction_delta" .nullable decodeMetric fun x c => { c with costReduction := x },
     .of "time_improvement_delta" .nullable decodeMetric
       fun x c => { c with timeReduction := x }]

end Contrast

/-! ## Scaling -/

namespace ScalingPoint

/-- A point as it is written. -/
def toJson (p : ScalingPoint) : Json :=
  .object
    [("amount", .real p.amount),
     ("amount_in_base_units", .real p.units),
     ("optimized_efficiency", .real p.optimizedEfficiency),
     ("unoptimized_efficiency", .real p.unoptimizedEfficiency),
     ("improvement", .real p.improvement)]

/-- How a point is written. -/
def shape : RecordShape ScalingPoint where
  title := "ScalingPoint"
  blank := ⟨0.0, 0.0, 0.0, 0.0, 0.0⟩
  fields :=
    [.of "amount" .required decodeReal fun x p => { p with amount := x },
     .of "amount_in_base_units" .required decodeReal fun x p => { p with units := x },
     .of "optimized_efficiency" .required decodeReal
       fun x p => { p with optimizedEfficiency := x },
     .of "unoptimized_efficiency" .required decodeReal
       fun x p => { p with unoptimizedEfficiency := x },
     .of "improvement" .required decodeReal fun x p => { p with improvement := x }]

end ScalingPoint

namespace ScalingOptimum

/-- The optimum as it is written. -/
def toJson (o : ScalingOptimum) : Json :=
  .object
    [("amount", .real o.amount),
     ("amount_in_base_units", .real o.units),
     ("improvement", .real o.improvement)]

/-- How the optimum is written. -/
def shape : RecordShape ScalingOptimum where
  title := "ScalingOptimum"
  blank := ⟨0.0, 0.0, 0.0⟩
  fields :=
    [.of "amount" .required decodeReal fun x o => { o with amount := x },
     .of "amount_in_base_units" .required decodeReal fun x o => { o with units := x },
     .of "improvement" .required decodeReal fun x o => { o with improvement := x }]

end ScalingOptimum

namespace SizeCost

/-- A row as it is written. -/
def toJson (c : SizeCost) : Json :=
  .object
    [("transfer_type", .text c.transferType.key),
     ("amount", .real c.amount),
     ("amount_in_base_units", .real c.units),
     ("unoptimized_cost", .real c.unoptimizedCost),
     ("optimized_cost", .real c.optimizedCost),
     ("absolute_saving", .real c.saving),
     ("cost_reduction", metricJson c.costReduction)]

/-- How a row is written. -/
def shape : RecordShape SizeCost where
  title := "CostBySize"
  blank := ⟨.singleRecipient, 0.0, 0.0, 0.0, 0.0, 0.0, none⟩
  fields :=
    [.of "transfer_type" .required TransferType.decode fun t c => { c with transferType := t },
     .of "amount" .required decodeReal fun x c => { c with amount := x },
     .of "amount_in_base_units" .required decodeReal fun x c => { c with units := x },
     .of "unoptimized_cost" .required decodeReal fun x c => { c with unoptimizedCost := x },
     .of "optimized_cost" .required decodeReal fun x c => { c with optimizedCost := x },
     .of "absolute_saving" .required decodeReal fun x c => { c with saving := x },
     .of "cost_reduction" .nullable decodeMetric fun x c => { c with costReduction := x }]

end SizeCost

namespace Scaling

/-- Curve, optimum and table as they are written. -/
def toJson (s : Scaling) : Json :=
  .object
    [("by_amount", .array (s.points.map ScalingPoint.toJson)),
     ("optimum", Json.optional ScalingOptimum.toJson s.optimum),
     ("cost_by_size", .array (s.costs.map SizeCost.toJson))]

/-- How curve, optimum and table are written. -/
def shape : RecordShape Scaling where
  title := "ScalingAnalysis"
  blank := ⟨[], none, []⟩
  fields :=
    [.of "by_amount" .required (decodeArray ScalingPoint.shape.read)
       fun ps s => { s with points := ps },
     .of "optimum" .nullable (decodeNullable ScalingOptimum.shape.read)
       fun o s => { s with optimum := o },
     .of "cost_by_size" .required (decodeArray SizeCost.shape.read)
       fun cs s => { s with costs := cs }]

end Scaling

/-! ## The whole -/

namespace TypeAnalysis

/-- The analysis of a transfer type as it is written. -/
def toJson (a : TypeAnalysis) : Json :=
  .object <|
    (Optimization.all.map fun o => (o.key, (a.means.get o).toJson)) ++
      [("improvements", a.improvement.toJson)]

/-- The analysis in which nothing is filled in. -/
def blank : TypeAnalysis :=
  ⟨.fill Means.shape.blank, Improvement.shape.blank⟩

/-- How the analysis of a transfer type is written. -/
def shape : RecordShape TypeAnalysis where
  title := "TransferTypeAnalysis"
  blank
  fields :=
    (Optimization.all.map fun o =>
      .of o.key .required Means.shape.read
        fun m a => { a with means := a.means.modify o fun _ => m }) ++
    [.of "improvements" .required Improvement.shape.read fun i a => { a with improvement := i }]

end TypeAnalysis

namespace Analysis

/-- An analysis as it is written. -/
def toJson (a : Analysis) : Json :=
  .object <|
    (TransferType.all.map fun t => (t.key, (a.types.get t).toJson)) ++
      [("comparison", a.contrast.toJson), ("scaling", a.scaling.toJson)]

/-- How an analysis is written. -/
def shape : RecordShape Analysis where
  title := "AnalysisResult"
  blank := ⟨.fill TypeAnalysis.blank, Contrast.shape.blank, Scaling.shape.blank⟩
  fields :=
    (TransferType.all.map fun t =>
      .of t.key .required TypeAnalysis.shape.read
        fun x a => { a with types := a.types.modify t fun _ => x }) ++
    [.of "comparison" .required Contrast.shape.read fun c a => { a with contrast := c },
     .of "scaling" .required Scaling.shape.read fun s a => { a with scaling := s }]

/-- The analysis that a text describes. -/
def ofString (text : String) : Except Json.ReadError Analysis :=
  Json.decodeString shape.read text

end Analysis
end TransferCost
