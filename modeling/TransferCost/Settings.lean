import TransferCost.Partition
import TransferCost.Cost
import TransferCost.Json.Record

/-!
# Settings of an analysis

The settings say which transfer sizes are simulated, what a transfer costs in the simulation, and
how many samples each partition needs before anything is analyzed.  A settings text overrides the
default settings: what it does not mention stays as it is.  Only the eight constants of a mode hang
together, so a text that mentions a mode has to give all of them.

`Settings.check` refuses settings under which a simulation would have no meaning.  It looks at the
settings in a fixed order and reports the first fault.
-/

namespace TransferCost

/-- The transfer sizes of a simulation: a number of evenly spaced amounts, ends included.  Any
number of steps is possible here.  Where memory is limited, huge ones are not. -/
structure SizeRange where
  smallest : Float
  largest : Float
  steps : Nat
  /-- The number of recipients of a transfer to many wallets. -/
  wallets : UInt32
deriving DecidableEq

/-- The constants of one mode of transfer. -/
structure ModeModel where
  /-- The growth of the transaction fee with each recipient, as a part of the base fee. -/
  txFeePerRecipient : Float
  computeBase : Float
  computePerRecipient : Float
  /-- The part of the base rent that is held in each hop. -/
  rentFactor : Float
  /-- The part of the amount that reaches the recipients. -/
  receivedRatio : Float
  timeBaseMs : Float
  timePerRecipientMs : Float
  /-- The accounts left behind by a transfer. -/
  accountsRemaining : UInt32
deriving DecidableEq

/-- What a simulated transfer costs. -/
structure CostModel where
  baseTxFee : Float
  baseRent : Float
  hopCount : UInt32
  modes : PerMode ModeModel
deriving DecidableEq

/-- The settings of an analysis. -/
structure Settings where
  range : SizeRange
  model : CostModel
  /-- The number of samples that each partition needs. -/
  minSamples : Nat
deriving DecidableEq

/-! ## The default settings -/

/-- The number of hops of a transfer. -/
def defaultHopCount : UInt32 :=
  4

namespace ModeModel

/-- The default constants of optimized transfers. -/
def optimized : ModeModel where
  txFeePerRecipient := 0.05
  computeBase := 200000.0
  computePerRecipient := 10000.0
  rentFactor := 0.3
  receivedRatio := 0.98
  timeBaseMs := 1500.0
  timePerRecipientMs := 50.0
  accountsRemaining := 0

/-- The default constants of unoptimized transfers. -/
def unoptimized : ModeModel where
  txFeePerRecipient := 0.1
  computeBase := 220000.0
  computePerRecipient := 15000.0
  rentFactor := 1.0
  receivedRatio := 0.92
  timeBaseMs := 1700.0
  timePerRecipientMs := 100.0
  accountsRemaining := 2

end ModeModel

namespace SizeRange

/-- Ten sizes from a hundredth of a unit to ten units. -/
def standard : SizeRange where
  smallest := ofUnits 0.01
  largest := ofUnits 10.0
  steps := 10
  wallets := 6

/-- Three sizes from one unit to three units. -/
def small : SizeRange where
  smallest := ofUnits 1.0
  largest := ofUnits 3.0
  steps := 3
  wallets := 6

end SizeRange

/-- The default cost model. -/
def CostModel.standard : CostModel where
  baseTxFee := 5000.0
  baseRent := 890880.0
  hopCount := defaultHopCount
  modes := ⟨.optimized, .unoptimized⟩

namespace Settings

/-- The default settings. -/
def standard : Settings where
  range := .standard
  model := .standard
  minSamples := 3

/-- The default settings with few sizes. -/
def small : Settings :=
  { standard with range := .small }

/-! ## Faults -/

/-- A reason to refuse settings. -/
inductive Fault where
  | emptyRange (smallest largest : Float)
  | noWallet
  | noHop
  | noSampleNeeded
deriving DecidableEq

open Decimal.Layout in
/-- A fault in words. -/
def Fault.message : Fault → String
  | emptyRange a b =>
    s!"generator range invalid: min_amount={plain.text a} max_amount={plain.text b}"
  | noWallet => "generator.multi_recipients must be at least 1"
  | noHop => "cost_model.hop_count must be at least 1"
  | noSampleNeeded => "min_samples_per_partition must be at least 1"

/-- The first fault of the settings. -/
def fault? (s : Settings) : Option Fault :=
  if !(decide (0.0 < s.range.smallest) && decide (s.range.smallest ≤ s.range.largest)) then
    some (.emptyRange s.range.smallest s.range.largest)
  else if s.range.wallets = 0 then some .noWallet
  else if s.model.hopCount = 0 then some .noHop
  else if s.minSamples = 0 then some .noSampleNeeded
  else none

/-- Nothing, unless the settings have a fault. -/
def check (s : Settings) : Except Fault Unit :=
  match s.fault? with
  | some f => .error f
  | none => .ok ()

end Settings

/-! ## Reading -/

open Json in
/-- How a range of sizes is written. -/
def SizeRange.shape : RecordShape SizeRange where
  title := "GeneratorConfig"
  blank := .standard
  fields :=
    [.of "min_amount" .defaulted decodeReal fun x r => { r with smallest := x },
     .of "max_amount" .defaulted decodeReal fun x r => { r with largest := x },
     .of "steps" .defaulted decodeCount64 fun n r => { r with steps := n },
     .of "multi_recipients" .defaulted decodeCount32 fun n r => { r with wallets := n }]

open Json in
/-- How the constants of a mode are written.  None may be missing, so the blank record is never
seen. -/
def ModeModel.shape : RecordShape ModeModel where
  title := "ModeParameters"
  blank := .optimized
  fields :=
    [.of "tx_fee_per_recipient" .required decodeReal fun x m => { m with txFeePerRecipient := x },
     .of "compute_base" .required decodeReal fun x m => { m with computeBase := x },
     .of "compute_per_recipient" .required decodeReal
       fun x m => { m with computePerRecipient := x },
     .of "rent_factor" .required decodeReal fun x m => { m with rentFactor := x },
     .of "received_ratio" .required decodeReal fun x m => { m with receivedRatio := x },
     .of "time_base_ms" .required decodeReal fun x m => { m with timeBaseMs := x },
     .of "time_per_recipient_ms" .required decodeReal
       fun x m => { m with timePerRecipientMs := x },
     .of "accounts_remaining" .required decodeCount32
       fun n m => { m with accountsRemaining := n }]

open Json in
/-- How a cost model is written. -/
def CostModel.shape : RecordShape CostModel where
  title := "CostModel"
  blank := .standard
  fields :=
    [.of "base_tx_fee" .defaulted decodeReal fun x m => { m with baseTxFee := x },
     .of "base_rent" .defaulted decodeReal fun x m => { m with baseRent := x },
     .of "hop_count" .defaulted decodeCount32 fun n m => { m with hopCount := n }] ++
    Optimization.all.map fun o =>
      .of o.key .defaulted ModeModel.shape.read
        fun x m => { m with modes := m.modes.modify o fun _ => x }

open Json in
/-- How settings are written. -/
def Settings.shape : RecordShape Settings where
  title := "AnalysisConfig"
  blank := .standard
  fields :=
    [.of "generator" .defaulted SizeRange.shape.read fun x s => { s with range := x },
     .of "cost_model" .defaulted CostModel.shape.read fun x s => { s with model := x },
     .of "min_samples_per_partition" .defaulted decodeCount64
       fun n s => { s with minSamples := n }]

/-- The settings that a text describes, before they are checked. -/
def Settings.ofString (text : String) : Except Json.ReadError Settings :=
  Json.decodeString Settings.shape.read text

end TransferCost
