import TransferCost.Cost
import TransferCost.Partition
import TransferCost.Json.Record

/-!
# Kinds, modes, types and partitions in documents

Each of the closed sets of names is written by its keys, and read back by them.  A partition is an
object of a mode and a transfer type.
-/

namespace TransferCost

open Json (Decoder RecordShape)

/-- Reads the name of a kind of cost. -/
def CostKind.decode : Decoder CostKind :=
  Json.decodeVariant CostKind.known

/-- Reads the name of a mode. -/
def Optimization.decode : Decoder Optimization :=
  Json.decodeVariant Optimization.known

/-- Reads the name of a transfer type. -/
def TransferType.decode : Decoder TransferType :=
  Json.decodeVariant TransferType.known

namespace Partition

/-- How a partition is written. -/
def shape : RecordShape Partition where
  title := "PartitionKey"
  blank := ⟨.optimized, .singleRecipient⟩
  fields :=
    [.of "optimization" .required Optimization.decode fun o p => { p with optimization := o },
     .of "transfer_type" .required TransferType.decode fun t p => { p with transferType := t }]

/-- A partition as it is written. -/
def toJson (p : Partition) : Json :=
  .object
    [("optimization", .text p.optimization.key), ("transfer_type", .text p.transferType.key)]

end Partition
end TransferCost
