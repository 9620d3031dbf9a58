import TransferCost.Cost
import TransferCost.Json.Basic

/-!
# Samples

A `Sample` describes one transfer, simulated or observed.  Some of its numbers determine others: the
shares add up to the total cost, and the efficiency is the received part of the amount in percent.
`Sample.violation?` checks these and the ranges of the numbers one after the other, and names the
first rule that is broken.

## Tolerances

Numbers from outside are rounded, so sums and percentages are compared up to `tolerance`.  For the
total cost the tolerance grows with the cost once that is above one subunit.
-/

namespace TransferCost

/-- The absolute tolerance of every comparison of sample numbers. -/
def tolerance : Float :=
  1e-6

/-- One transfer. -/
structure Sample where
  amount : Float
  recipientCount : UInt32
  totalCost : Float
  receivedAmount : Float
  efficiency : Float
  timeMs : Float
  breakdown : Breakdown
  accountsCreated : UInt32
  accountsRemaining : UInt32
deriving DecidableEq, BEq

/-- A rule that a sample breaks, with the numbers that show it. -/
inductive Violation where
  | amountNotPositive (amount : Float)
  | noRecipient
  | totalNotPositive (total : Float)
  | shareNegative (kind : CostKind) (share : Float)
  | totalUnlikeShares (total sum : Float)
  | receivedOutside (received amount : Float)
  | efficiencyUnlikeReceived (efficiency expected : Float)
  | timeNegative (time : Float)
deriving DecidableEq

open Decimal.Layout in
/-- A broken rule in words. -/
def Violation.message : Violation → String
  | amountNotPositive a => s!"amount must be positive, got {plain.text a}"
  | noRecipient => "recipient_count must be at least 1"
  | totalNotPositive t => s!"total_cost must be positive, got {plain.text t}"
  | shareNegative k x => s!"cost_breakdown.{k.key} must be non-negative, got {plain.text x}"
  | totalUnlikeShares t x =>
    s!"total_cost {plain.text t} does not match cost_breakdown sum {plain.text x}"
  | receivedOutside r a => s!"received_amount {plain.text r} outside [0, {plain.text a}]"
  | efficiencyUnlikeReceived e x =>
    s!"efficiency {plain.text e} inconsistent with received/amount ({plain.text x})"
  | timeNegative t => s!"time_ms must be non-negative, got {plain.text t}"

/-- A share that no sample may have. -/
def isBadShare (x : Float) : Bool :=
  !x.isFinite || decide (x < -tolerance)

/-- A breakdown as it is written. -/
def Breakdown.toJson (b : Breakdown) : Json :=
  .object (b.toList.map fun share => (share.1.key, .real share.2))

namespace Sample

/-- The received part of an amount, in percent. -/
def efficiencyOf (received amount : Float) : Float :=
  received / amount * 100.0

/-- The slack of a total cost against the sum of its shares. -/
def totalSlack (total : Float) : Float :=
  tolerance * (if total < 1.0 then 1.0 else total)

/-- The first rule that the sample breaks. -/
def violation? (s : Sample) : Option Violation :=
  if !(s.amount.isFinite && decide (0.0 < s.amount)) then
    some (.amountNotPositive s.amount)
  else if s.recipientCount = 0 then
    some .noRecipient
  else if !(s.totalCost.isFinite && decide (0.0 < s.totalCost)) then
    some (.totalNotPositive s.totalCost)
  else
    match s.breakdown.toList.find? fun share => isBadShare share.2 with
    | some (kind, share) => some (.shareNegative kind share)
    | none =>
      let sum := s.breakdown.total
      let expected := efficiencyOf s.receivedAmount s.amount
      if totalSlack s.totalCost < (s.totalCost - sum).abs then
        some (.totalUnlikeShares s.totalCost sum)
      else if !(decide (0.0 ≤ s.receivedAmount) && decide (s.receivedAmount ≤ s.amount)) then
        some (.receivedOutside s.receivedAmount s.amount)
      else if tolerance < (s.efficiency - expected).abs then
        some (.efficiencyUnlikeReceived s.efficiency expected)
      else if !(s.timeMs.isFinite && decide (0.0 ≤ s.timeMs)) then
        some (.timeNegative s.timeMs)
      else none

/-- The sample keeps every rule. -/
def IsValid (s : Sample) : Prop :=
  s.violation? = none

instance (s : Sample) : Decidable s.IsValid :=
  inferInstanceAs (Decidable (s.violation? = none))

/-- A sample as it is written. -/
def toJson (s : Sample) : Json :=
  .object
    [("amount", .real s.amount),
     ("recipient_count", .count s.recipientCount.toNat),
     ("total_cost", .real s.totalCost),
     ("received_amount", .real s.receivedAmount),
     ("efficiency", .real s.efficiency),
     ("time_ms", .real s.timeMs),
     ("cost_breakdown", Breakdown.toJson s.breakdown),
     ("accounts_created", .count s.accountsCreated.toNat),
     ("accounts_remaining", .count s.accountsRemaining.toNat)]

end Sample
end TransferCost
