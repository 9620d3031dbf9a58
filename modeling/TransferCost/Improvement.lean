import TransferCost.Event
import TransferCost.Failure
import TransferCost.Means

/-!
# What optimization brings

An `Improvement` compares the means of optimized transfers with those of unoptimized ones: the gain
of efficiency in percentage points, and the relative reductions of cost and time in percent.  A
`Contrast` compares the improvements of two transfer types.

## Metrics without a value

A reduction relative to zero has no value.  It is left out and reported, and never given as nought
percent.  A share of the cost that is no greater than the `tolerance` of samples counts as zero:
that is the size of the rounding noise in a share that a simulation computes as a remainder.
-/

namespace TransferCost

/-- The reduction of `unoptimized` to `optimized`, in percent. -/
def reductionOf (optimized unoptimized : Float) : Float :=
  100.0 * (1.0 - optimized / unoptimized)

/-- The reduction of `unoptimized` to `optimized`, in percent, unless the former is zero.  The
metric is only named. -/
def relativeReduction (metric : String) (optimized unoptimized : Float) : Except Failure Float :=
  if unoptimized == 0.0 then .error (.divisionByZero metric)
  else .ok (reductionOf optimized unoptimized)

/-- The reduction of a metric, or a report that it has none. -/
def reductionOrOmit (metric : String) (optimized unoptimized : Float) : Logged (Option Float) :=
  match relativeReduction metric optimized unoptimized with
  | .ok x => return some x
  | .error _ => do
    Logged.report (.metricOmitted metric)
    return none

theorem value_reductionOrOmit (metric : String) (o u : Float) :
    (reductionOrOmit metric o u).value =
      if (u == 0.0) = true then none else some (reductionOf o u) := by
  unfold reductionOrOmit relativeReduction
  by_cases h : (u == 0.0) = true <;> simp [h]

/-- What optimization brings to one transfer type. -/
structure Improvement where
  /-- The gain of efficiency, in percentage points. -/
  efficiency : Float
  /-- The reduction of the mean total cost, in percent. -/
  costReduction : Option Float
  /-- The reduction of the mean time, in percent. -/
  timeReduction : Option Float
  /-- The reductions of those kinds of cost that unoptimized transfers have. -/
  reductionOfKind : PerKind (Option Float)
deriving DecidableEq, BEq

/-- The reduction of a share of the cost, unless the share counts as zero. -/
def shareReduction (optimized unoptimized : Float) : Option Float :=
  if tolerance < unoptimized then some (reductionOf optimized unoptimized) else none

/-- The improvement from unoptimized to optimized means.  Reports name the metrics with `label`. -/
def Improvement.between (label : String) (optimized unoptimized : Means) : Logged Improvement := do
  let costReduction ←
    reductionOrOmit (label ++ ".cost_reduction") optimized.totalCost unoptimized.totalCost
  let timeReduction ←
    reductionOrOmit (label ++ ".time_improvement") optimized.timeMs unoptimized.timeMs
  return {
    efficiency := optimized.efficiency - unoptimized.efficiency
    costReduction
    timeReduction
    reductionOfKind := .ofFn fun k =>
      shareReduction (optimized.breakdown.get k) (unoptimized.breakdown.get k) }

/-- How the improvement of transfers to many wallets differs from that of transfers to single
recipients. -/
structure Contrast where
  efficiency : Float
  costReduction : Option Float
  timeReduction : Option Float
deriving DecidableEq, BEq

/-- The difference of two metrics, unless one of them has no value. -/
def difference (multi single : Option Float) : Option Float := do
  return (← multi) - (← single)

/-- The contrast of two improvements. -/
def Contrast.between (single multi : Improvement) : Contrast where
  efficiency := multi.efficiency - single.efficiency
  costReduction := difference multi.costReduction single.costReduction
  timeReduction := difference multi.timeReduction single.timeReduction

end TransferCost
