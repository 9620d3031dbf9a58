import TransferCost.Sample
import TransferCost.Json.Record

/-!
# Records from outside

A `Record` is what a document says about one transfer.  Every field may be missing.
`Record.complete` makes a sample of it:

* the amount, the number of recipients and the breakdown must be given;
* of the received amount and the efficiency one must be given, and determines the other;
* a missing total is the sum of the shares, and every other missing number is zero.

The rules are tried in this order, so the first of them that fails names the defect.  The completed
sample is then held to the rules of `Sample.violation?`.
-/

namespace TransferCost

/-- Shares from outside, of which some may be missing. -/
abbrev PartialBreakdown := PerKind (Option Float)

/-- The shares, of which a missing one is zero. -/
def PartialBreakdown.complete (b : PartialBreakdown) : Breakdown :=
  b.map (·.getD 0.0)

/-- A transfer as a document describes it. -/
structure Record where
  amount : Option Float := none
  recipientCount : Option UInt32 := none
  totalCost : Option Float := none
  receivedAmount : Option Float := none
  efficiency : Option Float := none
  timeMs : Option Float := none
  breakdown : Option PartialBreakdown := none
  accountsCreated : Option UInt32 := none
  accountsRemaining : Option UInt32 := none
deriving DecidableEq

/-- Why a record is no sample. -/
inductive Defect where
  | missingField (name : String)
  | violation (v : Violation)
deriving DecidableEq

/-- A defect in words. -/
def Defect.message : Defect → String
  | missingField name => s!"missing required field '{name}'"
  | violation v => s!"invariant violated: {v.message}"

namespace Record

/-- A field that has to be there. -/
def require {α : Type} (name : String) : Option α → Except Defect α
  | some a => .ok a
  | none => .error (.missingField name)

/-- The sample that a record describes, before it is checked. -/
def fill (r : Record) : Except Defect Sample := do
  let amount ← require "amount" r.amount
  let recipientCount ← require "recipient_count" r.recipientCount
  let given ← require "cost_breakdown" r.breakdown
  let received ← require "received_amount"
    (r.receivedAmount.or (r.efficiency.map fun e => amount * e / 100.0))
  let breakdown := given.complete
  return {
    amount
    recipientCount
    totalCost := r.totalCost.getD breakdown.total
    receivedAmount := received
    efficiency := r.efficiency.getD (Sample.efficiencyOf received amount)
    timeMs := r.timeMs.getD 0.0
    breakdown
    accountsCreated := r.accountsCreated.getD 0
    accountsRemaining := r.accountsRemaining.getD 0 }

/-- The sample that a record describes. -/
def complete (r : Record) : Except Defect Sample := do
  let s ← r.fill
  match s.violation? with
  | some v => throw (.violation v)
  | none => return s

/-! ## Reading -/

open Json in
/-- How shares are written in a document. -/
def breakdownShape : RecordShape PartialBreakdown where
  title := "RawCostBreakdown"
  blank := .fill none
  fields := CostKind.all.map fun k =>
    .of k.key .defaulted (decodeNullable decodeReal) fun x b => b.set k x

open Json in
/-- How a record is written in a document. -/
def shape : RecordShape Record where
  title := "RawCostSample"
  blank := {}
  fields :=
    [.of "amount" .nullable (decodeNullable decodeReal) fun x r => { r with amount := x },
     .of "recipient_count" .nullable (decodeNullable decodeCount32)
       fun x r => { r with recipientCount := x },
     .of "total_cost" .nullable (decodeNullable decodeReal) fun x r => { r with totalCost := x },
     .of "received_amount" .nullable (decodeNullable decodeReal)
       fun x r => { r with receivedAmount := x },
     .of "efficiency" .nullable (decodeNullable decodeReal) fun x r => { r with efficiency := x },
     .of "time_ms" .nullable (decodeNullable decodeReal) fun x r => { r with timeMs := x },
     .of "cost_breakdown" .nullable (decodeNullable breakdownShape.read)
       fun x r => { r with breakdown := x },
     .of "accounts_created" .nullable (decodeNullable decodeCount32)
       fun x r => { r with accountsCreated := x },
     .of "accounts_remaining" .nullable (decodeNullable decodeCount32)
       fun x r => { r with accountsRemaining := x }]

/-- The record that a text describes. -/
def ofString (s : String) : Except Json.ReadError Record :=
  Json.decodeString shape.read s

end Record
end TransferCost
