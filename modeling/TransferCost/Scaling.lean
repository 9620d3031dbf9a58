import TransferCost.Improvement
import TransferCost.Store

/-!
# How the gain depends on the size

Samples are grouped by their amount, where two amounts are the same only if they are so in every
bit.  An amount that both modes have in common gives a point of the scaling curve, over samples of
either transfer type, and for each transfer type that has it in both modes a row of the table of
costs.

Points and rows stand in ascending order of the amounts.  The optimum is the first point with the
greatest improvement.
-/

namespace TransferCost

/-- The gain of efficiency at one amount. -/
structure ScalingPoint where
  amount : Float
  units : Float
  optimizedEfficiency : Float
  unoptimizedEfficiency : Float
  improvement : Float
deriving DecidableEq, BEq

/-- The amount at which the gain is greatest. -/
structure ScalingOptimum where
  amount : Float
  units : Float
  improvement : Float
deriving DecidableEq, BEq

/-- The mean total costs of one transfer type at one amount. -/
structure SizeCost where
  transferType : TransferType
  amount : Float
  units : Float
  unoptimizedCost : Float
  optimizedCost : Float
  saving : Float
  costReduction : Option Float
deriving DecidableEq, BEq

/-- How efficiency and cost depend on the amount. -/
structure Scaling where
  points : List ScalingPoint
  optimum : Option ScalingOptimum
  costs : List SizeCost
deriving DecidableEq, BEq

/-! ## Groups of samples -/

/-- The samples of one amount. -/
def ofAmount (amount : Float) (samples : List Sample) : List Sample :=
  samples.filter fun s => decide (s.amount = amount)

/-- The members of a list, each once, in the order of their first occurrence. -/
def distinct : List Float → List Float
  | [] => []
  | x :: rest => x :: (distinct rest).filter fun y => decide (y ≠ x)

/-- The amounts that both lists of samples have, in ascending order. -/
def sharedAmounts (optimized unoptimized : List Sample) : List Float :=
  ((distinct (optimized.map (·.amount))).filter fun a =>
    unoptimized.any fun s => decide (s.amount = a)).mergeSort Binary64.totalLE

theorem mem_ofAmount {amount : Float} {samples : List Sample} {s : Sample} :
    s ∈ ofAmount amount samples ↔ s ∈ samples ∧ s.amount = amount := by
  simp [ofAmount]

theorem mem_distinct {x : Float} {xs : List Float} : x ∈ distinct xs ↔ x ∈ xs := by
  induction xs with
  | nil => rfl
  | cons y rest ih =>
    by_cases h : x = y <;> simp [distinct, h, ih]

theorem mem_sharedAmounts {optimized unoptimized : List Sample} {a : Float} :
    a ∈ sharedAmounts optimized unoptimized ↔
      (∃ s ∈ optimized, s.amount = a) ∧ ∃ s ∈ unoptimized, s.amount = a := by
  simp [sharedAmounts, mem_distinct]

/-! ## The curve and the table -/

/-- The point of one amount. -/
def ScalingPoint.ofSamples (optimized unoptimized : List Sample) (amount : Float) :
    ScalingPoint :=
  let o := meanOf (ofAmount amount optimized) (·.efficiency)
  let u := meanOf (ofAmount amount unoptimized) (·.efficiency)
  { amount
    units := toUnits amount
    optimizedEfficiency := o
    unoptimizedEfficiency := u
    improvement := o - u }

/-- The better of a point and those before it, where an equal one does not replace the first. -/
def better (best : Option ScalingPoint) (p : ScalingPoint) : Option ScalingPoint :=
  match best with
  | none => some p
  | some b => if b.improvement < p.improvement then some p else some b

/-- The first point with the greatest improvement. -/
def ScalingOptimum.ofPoints (points : List ScalingPoint) : Option ScalingOptimum :=
  (points.foldl better none).map fun p =>
    { amount := p.amount, units := p.units, improvement := p.improvement }

/-- The name of the reduction at one amount. -/
def SizeCost.metric (t : TransferType) (amount : Float) : String :=
  t.key ++ ".cost_reduction@" ++ Decimal.Layout.plain.text amount

/-- The row of one amount. -/
def SizeCost.ofSamples (t : TransferType) (optimized unoptimized : List Sample) (amount : Float) :
    Logged SizeCost := do
  let o := meanOf (ofAmount amount optimized) (·.totalCost)
  let u := meanOf (ofAmount amount unoptimized) (·.totalCost)
  let costReduction ← reductionOrOmit (metric t amount) o u
  return {
    transferType := t
    amount
    units := toUnits amount
    unoptimizedCost := u
    optimizedCost := o
    saving := u - o
    costReduction }

namespace Scaling

/-- There is no point. -/
def isEmpty (s : Scaling) : Bool :=
  s.points.isEmpty

/-- The rows of one transfer type. -/
def costsOfType (s : Store) (t : TransferType) : Logged (List SizeCost) :=
  let optimized := s.samples ⟨.optimized, t⟩
  let unoptimized := s.samples ⟨.unoptimized, t⟩
  (sharedAmounts optimized unoptimized).mapM (SizeCost.ofSamples t optimized unoptimized)

/-- The points of the curve. -/
def pointsOf (s : Store) : List ScalingPoint :=
  let optimized := s.samplesOfMode .optimized
  let unoptimized := s.samplesOfMode .unoptimized
  (sharedAmounts optimized unoptimized).map (ScalingPoint.ofSamples optimized unoptimized)

/-- The event that tells of the optimum. -/
def optimumEvent (points : List ScalingPoint) : Option ScalingOptimum → Event
  | some o => .optimumFound o.units o.improvement points.length
  | none => .noSharedSize

/-- How efficiency and cost of the stored samples depend on the amount. -/
def ofStore (s : Store) : Logged Scaling := do
  let points := pointsOf s
  let optimum := ScalingOptimum.ofPoints points
  Logged.report (optimumEvent points optimum)
  let single ← costsOfType s .singleRecipient
  let multi ← costsOfType s .multiWallet
  return { points, optimum, costs := single ++ multi }

end Scaling
end TransferCost
