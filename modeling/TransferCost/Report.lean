import TransferCost.Analysis
import TransferCost.Calendar.Date
import TransferCost.Figure
import TransferCost.Markdown

/-!
# The report of an analysis

The report is a Markdown document with a fixed order of sections: a summary, the core metrics, the
costs by size, a detailed part on rent, efficiency and scaling, and conclusions.  Only the section
on scaling may be missing, which it is if the scaling curve has no points.

A sentence with figures is a list of parts that are joined.
-/

namespace TransferCost
namespace Report

open Figure (amount points reduction)

/-! ## Summary and core metrics -/

/-- What optimization brings, in one sentence. -/
def summaryText (a : Analysis) : String :=
  String.join
    ["Optimized transfers deliver ", points a.averageEfficiencyGain,
     " more of the nominal amount on average and cost ", Figure.percent a.averageCostReduction,
     " less in total across both recipient topologies."]

/-- The summary. -/
def summary (a : Analysis) : List Block :=
  [.heading 2 "Summary", .paragraph (summaryText a)]

/-- The row of the mean efficiencies of a transfer type. -/
def efficiencyRow (t : TransferType) (a : TypeAnalysis) : List String :=
  [s!"Transfer efficiency ({t.label})",
   Figure.percentage a.means.unoptimized.efficiency,
   Figure.percentage a.means.optimized.efficiency,
   points a.improvement.efficiency]

/-- The row of the mean rents of a transfer type. -/
def rentRow (t : TransferType) (a : TypeAnalysis) : List String :=
  [s!"Rent cost ({t.label})",
   amount a.means.unoptimized.breakdown.rent,
   amount a.means.optimized.breakdown.rent,
   reduction a.improvement.reductionOfKind.rent]

/-- The reduction of the number of accounts left behind.  Without any there is none. -/
def accountsReduction (optimized unoptimized : Float) : Option Float :=
  if 0.0 < unoptimized then some (reductionOf optimized unoptimized) else none

/-- The row of the mean numbers of accounts left behind by a transfer type. -/
def accountsRow (t : TransferType) (a : TypeAnalysis) : List String :=
  let u := a.means.unoptimized.accountsRemaining
  let o := a.means.optimized.accountsRemaining
  [s!"Remaining accounts ({t.label})", Decimal.fixed 1 u, Decimal.fixed 1 o,
   reduction (accountsReduction o u)]

/-- The table of the core metrics. -/
def coreTable (a : Analysis) : MarkdownTable where
  header := ["Metric", "Unoptimized", "Optimized", "Change"]
  rows :=
    [efficiencyRow, rentRow, accountsRow].flatMap fun row =>
      TransferType.all.map fun t => row t (a.types.get t)

/-- The core metrics. -/
def coreMetrics (a : Analysis) : List Block :=
  [.heading 3 "Core Metrics", .table (coreTable a)]

/-! ## Costs by size -/

/-- The row of the costs at one size. -/
def costRow (c : SizeCost) : List String :=
  [c.transferType.label, Figure.units c.units, amount c.unoptimizedCost, amount c.optimizedCost,
   reduction c.costReduction]

/-- The table of the costs by size. -/
def costTable (costs : List SizeCost) : MarkdownTable where
  header :=
    ["Transfer type", "Transfer size", "Total cost (unopt.)", "Total cost (opt.)",
     "Cost reduction"]
  rows := costs.map costRow

/-- The costs by size. -/
def costsBySize (a : Analysis) : List Block :=
  [.heading 3 "Total Cost by Transfer Size",
   if a.scaling.costs.isEmpty then .paragraph "No transfer size has samples in both modes."
   else .table (costTable a.scaling.costs)]

/-! ## Details -/

/-- How the rent of a transfer changed. -/
def rentText (i : Improvement) : String :=
  String.join
    ["Prompt reclamation of intermediate accounts changes the rent paid ",
     "per single-recipient transfer by ", reduction i.reductionOfKind.rent, "."]

/-- How the part of the rent in the cost changed. -/
def rentShareText (means : PerMode Means) : String :=
  match means.unoptimized.rentShare, means.optimized.rentShare with
  | some before, some after =>
    String.join
      ["Rent's share of the total cost moved from ", Figure.percentage before, " to ",
       Figure.percentage after, ", a change of ", points (after - before), "."]
  | _, _ => "Rent share of total cost is not available."

/-- The section on rent, about single recipients. -/
def rent (a : Analysis) : List Block :=
  let single := a.types.get .singleRecipient
  [.heading 3 "1. Rent Cost",
   .paragraph (rentText single.improvement),
   .paragraph (rentShareText single.means)]

/-- How the efficiency changed, from `u` to `o`. -/
def efficiencyText (u o : Float) : String :=
  String.join
    ["Efficiency is the share of the nominal amount that reaches the recipients. ",
     "It moved from ", Figure.percentage u, " to ", Figure.percentage o, ":"]

/-- What transfers of one unit and of ten units deliver. -/
def deliveries (u o : Float) : List String :=
  [String.join
     ["a 1-unit transfer now delivers ", Figure.units (o / 100.0), " instead of ",
      Decimal.fixed 2 (u / 100.0)],
   String.join
     ["a 10-unit transfer delivers an extra ", Figure.units ((o - u) * 10.0 / 100.0)]]

/-- How the efficiency gains of the transfer types differ. -/
def contrastText (c : Contrast) : String :=
  String.join
    ["Multi-wallet transfers differ from single-recipient ones by ", points c.efficiency,
     " in efficiency gain."]

/-- The section on efficiency, about single recipients. -/
def efficiency (a : Analysis) : List Block :=
  let single := a.types.get .singleRecipient
  let u := single.means.unoptimized.efficiency
  let o := single.means.optimized.efficiency
  [.heading 3 "2. Transfer Efficiency", .paragraph (efficiencyText u o),
   .bullets (deliveries u o), .paragraph (contrastText a.contrast)]

/-- What single recipients save at an amount, according to the first row of that amount. -/
def savingAt (costs : List SizeCost) (x : Float) : String :=
  Figure.orNotAvailable (fun c => amount c.saving) <|
    costs.find? fun c => c.transferType = .singleRecipient && c.amount == x

/-- The row of a point of the scaling curve. -/
def pointRow (costs : List SizeCost) (p : ScalingPoint) : List String :=
  [Decimal.fixed 2 (toUnits p.amount), points p.improvement, savingAt costs p.amount]

/-- The table of the scaling curve. -/
def scalingTable (s : Scaling) : MarkdownTable where
  header :=
    ["Transfer size (units)", "Efficiency gain", "Absolute cost saving (single recipient)"]
  rows := s.points.map (pointRow s.costs)

/-- The sentence on the optimum. -/
def optimumText (o : ScalingOptimum) : String :=
  String.join
    ["The largest efficiency gain, ", points o.improvement, ", occurs at ", Figure.units o.units,
     "."]

/-- The section on scaling, if there is a curve. -/
def scaling (s : Scaling) : List Block :=
  if s.isEmpty then []
  else
    [.heading 3 "3. Scaling", .table (scalingTable s)] ++
      s.optimum.toList.map fun o => .paragraph (optimumText o)

/-! ## Conclusions -/

/-- The conclusion on efficiency, about single recipients. -/
def gainConclusion (a : Analysis) : String :=
  String.join
    ["**Transfer efficiency**: ", points (a.types.get .singleRecipient).improvement.efficiency,
     " for single-recipient transfers means more value reaches recipients"]

/-- The conclusion on costs. -/
def costConclusion (a : Analysis) : String :=
  String.join
    ["**Cost**: average total cost change of ", reduction a.averageCostReduction,
     " across topologies"]

/-- The conclusion on accounts, which has no figure. -/
def resourceConclusion : String :=
  "**Resources**: fewer accounts left behind after each transfer"

/-- The conclusion on transfers to many wallets. -/
def viabilityConclusion (a : Analysis) : String :=
  String.join
    ["**Multi-wallet viability**: multi-wallet cost reduction differs by ",
     Figure.orNotAvailable points a.contrast.costReduction, " from single-recipient"]

/-- The conclusions. -/
def conclusions (a : Analysis) : List Block :=
  [.heading 2 "Conclusions",
   .numbered [gainConclusion a, costConclusion a, resourceConclusion, viabilityConclusion a]]

/-- The line with the date of the report. -/
def dateText (date : Date) : String :=
  String.join ["*Date: ", date.longText, "*"]

/-- The blocks of the report. -/
def blocks (a : Analysis) (date : Date) : List Block :=
  [.heading 1 "Multi-Hop Transfer Cost Efficiency Report", .paragraph (dateText date)] ++
    summary a ++ coreMetrics a ++ costsBySize a ++ [.heading 2 "Detailed Analysis"] ++
    rent a ++ efficiency a ++ scaling a.scaling ++ conclusions a

/-- The text of the report. -/
def text (a : Analysis) (date : Date) : String :=
  Block.textOf (blocks a date)

end Report
end TransferCost
