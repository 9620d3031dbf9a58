import TransferCost.Sample

/-!
# Means of samples

`Means.ofSamples` takes the arithmetic mean of each quantity of some samples, in the order of the
list.  It is meant for lists that hold something; an analysis makes sure of that before it takes any
mean.  Nothing is checked here, as in a release build; a debug build stops at an empty list.
-/

namespace TransferCost

/-- The mean quantities of some samples. -/
structure Means where
  count : Nat
  efficiency : Float
  totalCost : Float
  timeMs : Float
  breakdown : Breakdown
  accountsCreated : Float
  accountsRemaining : Float
deriving DecidableEq, BEq

/-- The mean of a quantity of samples. -/
def meanOf (samples : List Sample) (quantity : Sample → Float) : Float :=
  Binary64.mean (samples.map quantity)

namespace Means

/-- The means of some samples. -/
def ofSamples (samples : List Sample) : Means where
  count := samples.length
  efficiency := meanOf samples (·.efficiency)
  totalCost := meanOf samples (·.totalCost)
  timeMs := meanOf samples (·.timeMs)
  breakdown := .ofFn fun k => meanOf samples (·.breakdown.get k)
  accountsCreated := meanOf samples fun s => Float.ofNat s.accountsCreated.toNat
  accountsRemaining := meanOf samples fun s => Float.ofNat s.accountsRemaining.toNat

/-- The part of the rent in the mean total cost, in percent.  Without a cost there is none. -/
def rentShare (m : Means) : Option Float :=
  if 0.0 < m.totalCost then some (m.breakdown.rent / m.totalCost * 100.0) else none

end Means
end TransferCost
