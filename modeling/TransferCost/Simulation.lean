import TransferCost.Settings
import TransferCost.Sample

/-!
# Simulated transfers

A simulation takes evenly spaced amounts and computes what a transfer of each amount costs, with and
without optimization, to a single recipient and to many wallets.  Nothing in it is random: the
samples are a function of the settings.

## The amounts

The last amount is set to the end of the range rather than computed, so rounding on the way cannot
miss it.  All amounts are then rounded to whole subunits.

There is one amount for each step, however many steps there are: memory is taken to be unbounded.
-/

namespace TransferCost

/-- Evenly spaced numbers, the last of which is `last` if there are two or more. -/
def evenlySpaced (first last : Float) : Nat → List Float
  | 0 => []
  | 1 => [first]
  | n + 2 =>
    let step := (last - first) / Float.ofNat (n + 1)
    (List.range (n + 1)).map (fun i => first + Float.ofNat i * step) ++ [last]

/-- The simulated amounts, in whole subunits. -/
def SizeRange.amounts (r : SizeRange) : List Float :=
  (evenlySpaced r.smallest r.largest r.steps).map Binary64.roundWhole

/-- The number of recipients of simulated transfers of a type. -/
def SizeRange.recipients (r : SizeRange) : TransferType → UInt32
  | .singleRecipient => 1
  | .multiWallet => r.wallets

/-- The number of accounts that a transfer creates: one for each hop, and one for each recipient.
Numbers of accounts have 32 bits, and a sum that needs more of them wraps around.  This is what a
release build does; a debug build stops there, and also where a simulated sample is not valid. -/
def CostModel.accountsCreated (m : CostModel) (recipients : UInt32) : TransferType → UInt32
  | .singleRecipient => m.hopCount + 1
  | .multiWallet => m.hopCount + recipients

/-- One simulated transfer. -/
def CostModel.simulate (m : CostModel) (amount : Float) (p : Partition) (recipients : UInt32) :
    Sample :=
  let mode := m.modes.get p.optimization
  let r := Float.ofNat recipients.toNat
  let txFee := m.baseTxFee * (1.0 + mode.txFeePerRecipient * r)
  let compute := (mode.computeBase + mode.computePerRecipient * r) / 1000000.0
  let rent := m.baseRent * mode.rentFactor * Float.ofNat m.hopCount.toNat
  let total := txFee + rent + compute
  let received := amount * mode.receivedRatio
  { amount
    recipientCount := recipients
    totalCost := total
    receivedAmount := received
    efficiency := Sample.efficiencyOf received amount
    timeMs := mode.timeBaseMs + mode.timePerRecipientMs * r
    breakdown := ⟨txFee, rent, compute, total - txFee - rent - compute⟩
    accountsCreated := m.accountsCreated recipients p.transferType
    accountsRemaining := mode.accountsRemaining }

end TransferCost
