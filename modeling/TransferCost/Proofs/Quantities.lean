import TransferCost.Analysis

/-!
# The quantities of an analysis

An analysis holds quantities at every level, some of them optional.  `Analysis.quantities` lists
those that are there, part by part, and `AllFinite` says of such a list that JSON has a word for
each of its members.

Only a finite number can be written, so `AllFinite` is what a result document has to fulfil in order
to be read again, and what an analysis has to fulfil in order to be of any use.  The counts of
samples are no quantities.
-/

namespace TransferCost

/-- Every quantity of the list is a finite number. -/
def AllFinite (qs : List Float) : Prop :=
  ∀ q ∈ qs, q.isFinite = true

instance (qs : List Float) : Decidable (AllFinite qs) :=
  inferInstanceAs (Decidable (∀ q ∈ qs, q.isFinite = true))

section AllFinite

variable {α : Type} {q : Float} {qs qs' : List Float}

@[simp] theorem allFinite_nil : AllFinite [] :=
  List.forall_mem_nil _

@[simp] theorem allFinite_cons : AllFinite (q :: qs) ↔ q.isFinite = true ∧ AllFinite qs :=
  List.forall_mem_cons

@[simp] theorem allFinite_append : AllFinite (qs ++ qs') ↔ AllFinite qs ∧ AllFinite qs' :=
  List.forall_mem_append

theorem allFinite_map {f : α → Float} {as : List α} :
    AllFinite (as.map f) ↔ ∀ a ∈ as, (f a).isFinite = true :=
  List.forall_mem_map

theorem allFinite_flatMap {f : α → List Float} {as : List α} :
    AllFinite (as.flatMap f) ↔ ∀ a ∈ as, AllFinite (f a) :=
  List.forall_mem_flatMap

/-- A metric without a value does not count. -/
theorem allFinite_toList {q? : Option Float} :
    AllFinite q?.toList ↔ ∀ q ∈ q?, q.isFinite = true := by
  simp only [AllFinite, Option.mem_toList, Option.mem_def]

end AllFinite

/-! ## Part by part -/

/-- The quantities of means. -/
def Means.quantities (m : Means) : List Float :=
  [m.efficiency, m.totalCost, m.timeMs] ++ CostKind.all.map m.breakdown.get ++
    [m.accountsCreated, m.accountsRemaining]

/-- The quantities of an improvement. -/
def Improvement.quantities (i : Improvement) : List Float :=
  i.efficiency :: (i.costReduction.toList ++ i.timeReduction.toList ++
    CostKind.all.flatMap fun k => (i.reductionOfKind.get k).toList)

/-- The quantities of a contrast. -/
def Contrast.quantities (c : Contrast) : List Float :=
  c.efficiency :: (c.costReduction.toList ++ c.timeReduction.toList)

/-- The quantities of a point. -/
def ScalingPoint.quantities (p : ScalingPoint) : List Float :=
  [p.amount, p.units, p.optimizedEfficiency, p.unoptimizedEfficiency, p.improvement]

/-- The quantities of the optimum. -/
def ScalingOptimum.quantities (o : ScalingOptimum) : List Float :=
  [o.amount, o.units, o.improvement]

/-- The quantities of a row. -/
def SizeCost.quantities (c : SizeCost) : List Float :=
  [c.amount, c.units, c.unoptimizedCost, c.optimizedCost, c.saving] ++ c.costReduction.toList

/-- The quantities of curve, optimum and table. -/
def Scaling.quantities (s : Scaling) : List Float :=
  s.points.flatMap ScalingPoint.quantities ++
    s.optimum.toList.flatMap ScalingOptimum.quantities ++ s.costs.flatMap SizeCost.quantities

/-- The quantities of the analysis of a transfer type. -/
def TypeAnalysis.quantities (a : TypeAnalysis) : List Float :=
  (Optimization.all.flatMap fun o => (a.means.get o).quantities) ++ a.improvement.quantities

/-- The quantities of an analysis. -/
def Analysis.quantities (a : Analysis) : List Float :=
  (TransferType.all.flatMap fun t => (a.types.get t).quantities) ++ a.contrast.quantities ++
    a.scaling.quantities

end TransferCost
