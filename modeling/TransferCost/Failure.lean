import TransferCost.Files.Basic
import TransferCost.Partition
import TransferCost.Record

/-!
# Why an analysis fails

A `Failure` is a cause that ends an operation of the analysis.  Some failures rest on another one,
which `Failure.source?` names: a malformed sample on its defect, a file that cannot be used on the
cause that the host gives.
-/

namespace TransferCost

open Files (FileError)

/-- Why an operation fails. -/
inductive Failure where
  /-- A record of a document, counted from zero in its partition, is no sample. -/
  | malformedSample (p : Partition) (index : Nat) (defect : Defect)
  | malformedDocument (e : Json.ReadError)
  | insufficientData (p : Partition) (found required : Nat)
  | divisionByZero (metric : String)
  | file (path : String) (cause : FileError)
  | table (cause : FileError)

namespace Failure

/-- A failure in words. -/
def message : Failure → String
  | malformedSample p index defect =>
    s!"Malformed sample #{index} in {p.name}: {defect.message}"
  | malformedDocument e => s!"Malformed document: {Json.readErrorMessage e}"
  | insufficientData p found required =>
    s!"Insufficient data in {p.name}: {found} samples, at least {required} required"
  | divisionByZero metric => s!"Division by zero while computing '{metric}'"
  | file path cause => s!"I/O error on '{path}': {cause.message}"
  | table cause => s!"CSV error: {cause.message}"

/-- What a failure rests on, in words. -/
def source? : Failure → Option String
  | malformedSample _ _ defect => some defect.message
  | malformedDocument e => some (Json.readErrorMessage e)
  | file _ cause => some cause.message
  | table cause => some cause.message
  | insufficientData _ _ _ | divisionByZero _ => none

end Failure
end TransferCost
