import TransferCost.Event
import TransferCost.Store

/-!
# Samples from documents

A document groups records by transfer type and then by mode.  Each group may be missing, and keys
that name no group are listed, reported and passed over.  A document is taken in all or nothing: its
records are completed in a fixed order, and the store changes only if every one of them is a sample.

The keys of an object that name no group may hold any value.  Such a value is kept, so its numbers
must be within range and it may be nested only so deep.
-/

namespace TransferCost

open Json (Decoder RecordShape Kept)

/-- The records of a transfer type, and the keys that name no mode. -/
abbrev ModeRecords := Kept (PerMode (Option (List Record)))

/-- A document of records. -/
abbrev Intake := Kept (PerType (Option ModeRecords))

namespace Intake

/-! ## Reading -/

/-- How the records of a transfer type are written. -/
def modesShape : RecordShape (PerMode (Option (List Record))) where
  title := "IngestModes"
  blank := .fill none
  fields := Optimization.all.map fun o =>
    .of o.key .nullable (Json.decodeNullable (Json.decodeArray Record.shape.read))
      fun x m => m.modify o fun _ => x

/-- The number of arrays and objects that may be opened inside each other in a text. -/
def maxDepth : Nat :=
  127

/-- How a document is written. -/
def shape : RecordShape (PerType (Option ModeRecords)) where
  title := "IngestDocument"
  blank := .fill none
  fields := TransferType.all.map fun t =>
    .of t.key .nullable (Json.decodeNullable (Json.readKept modesShape (maxDepth - 2)))
      fun x d => d.modify t fun _ => x

/-- The document that a text describes. -/
def ofString (text : String) : Except Json.ReadError Intake :=
  Json.decodeString (Json.readKept shape (maxDepth - 1)) text

/-! ## Looking at a document -/

/-- Keys in order, each once. -/
def sortedKeys (keys : List String) : List String :=
  keys.eraseDups.mergeSort fun a b => decide (a ≤ b)

/-- The keys that name no group, with the group in which they stand: first those of the document,
then those of each transfer type. -/
def unknownKeys (d : Intake) : List String :=
  sortedKeys d.unknown ++ TransferType.all.flatMap fun t =>
    match d.record.get t with
    | some modes => (sortedKeys modes.unknown).map fun key => t.key ++ "." ++ key
    | none => []

/-- The records of a partition, if the document has that group. -/
def records? (d : Intake) (p : Partition) : Option (List Record) := do
  (← d.record.get p.transferType).record.get p.optimization

/-- The groups of a document, in the order of the partitions. -/
def groups (d : Intake) : List (Partition × List Record) :=
  Partition.all.filterMap fun p => (d.records? p).map (p, ·)

/-! ## Completing the records -/

/-- The samples of a partition, whose first record has the given index. -/
def completeFrom (p : Partition) (index : Nat) : List Record → Except Failure (List Sample)
  | [] => .ok []
  | r :: rest =>
    match r.complete with
    | .error defect => .error (.malformedSample p index defect)
    | .ok s => (s :: ·) <$> completeFrom p (index + 1) rest

/-- The samples of some groups. -/
def completeGroups :
    List (Partition × List Record) → Except Failure (List (Partition × List Sample))
  | [] => .ok []
  | (p, records) :: rest => do
    let samples ← completeFrom p 0 records
    return (p, samples) :: (← completeGroups rest)

/-- The samples of a document, by groups. -/
def complete (d : Intake) : Except Failure (List (Partition × List Sample)) :=
  completeGroups d.groups

end Intake

namespace Store

/-- The store with groups of samples appended. -/
def appendAll (s : Store) (groups : List (Partition × List Sample)) : Store :=
  groups.foldl (fun s (p, samples) => s.append p samples) s

/-- The number of samples in groups. -/
def countAll (groups : List (Partition × List Sample)) : Nat :=
  sumOfCounts (groups.map fun g => g.2.length)

/-- The store with the samples of a document, and their number. -/
def ingest (s : Store) (d : Intake) : Logged (Except Failure (Nat × Store)) := do
  d.unknownKeys.forM fun key => Logged.report (.keySkipped key)
  match d.complete with
  | .error e => return .error e
  | .ok groups =>
    groups.forM fun (p, samples) => Logged.report (.samplesIngested samples.length p)
    return .ok (countAll groups, s.appendAll groups)

/-- The store with the samples of a text, and their number. -/
def ingestText (s : Store) (text : String) : Logged (Except Failure (Nat × Store)) :=
  match Intake.ofString text with
  | .error e => return .error (.malformedDocument e)
  | .ok d => s.ingest d

end Store
end TransferCost
