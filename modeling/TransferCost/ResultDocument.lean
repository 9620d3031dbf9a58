import TransferCost.Analysis.Document
import TransferCost.Calendar.Timestamp
import TransferCost.RunId

/-!
# Result documents

A result document is an analysis together with the time at which it was written, a name of the run
and a description.  It is written as JSON, one value a line, and can be read again.
-/

namespace TransferCost

open Json (RecordShape decodeText decodeSpelled)

/-- What a result document says about itself. -/
structure Metadata where
  generatedAt : Timestamp
  version : String
  analysisType : String
  description : String
  runId : RunId
deriving DecidableEq, BEq

/-- An analysis with what is said about it. -/
structure ResultDocument where
  results : Analysis
  metadata : Metadata
deriving DecidableEq, BEq

namespace Metadata

/-- The version of the written form. -/
def currentVersion : String :=
  "1.0"

/-- The kind of analysis that this program makes. -/
def currentType : String :=
  "cost_efficiency"

/-- What is said about an analysis of this program. -/
def current (description : String) (generatedAt : Timestamp) (runId : RunId) : Metadata :=
  { generatedAt, version := currentVersion, analysisType := currentType, description, runId }

/-- Metadata as they are written. -/
def toJson (m : Metadata) : Json :=
  .object
    [("generated_at", .text m.generatedAt.text),
     ("version", .text m.version),
     ("analysis_type", .text m.analysisType),
     ("description", .text m.description),
     ("run_id", .text m.runId.text)]

/-- How metadata are written. -/
def shape : RecordShape Metadata where
  title := "ExportMetadata"
  blank := ⟨⟨⟨1970, 1, 1⟩, 0, 0⟩, "", "", "", .ofNat 0⟩
  fields :=
    [.of "generated_at" .required
       (decodeSpelled "an RFC 3339 formatted date and time string" "a point in time"
         Timestamp.ofString?)
       fun t m => { m with generatedAt := t },
     .of "version" .required decodeText fun s m => { m with version := s },
     .of "analysis_type" .required decodeText fun s m => { m with analysisType := s },
     .of "description" .required decodeText fun s m => { m with description := s },
     .of "run_id" .required
       (decodeSpelled "a formatted UUID string" "the name of a run" RunId.ofString?)
       fun r m => { m with runId := r }]

end Metadata

namespace ResultDocument

/-- The document of an analysis. -/
def ofAnalysis (a : Analysis) (description : String) (generatedAt : Timestamp) (runId : RunId) :
    ResultDocument :=
  ⟨a, .current description generatedAt runId⟩

/-- A document as it is written. -/
def toJson (d : ResultDocument) : Json :=
  .object [("results", d.results.toJson), ("metadata", d.metadata.toJson)]

/-- The text of a document. -/
def text (d : ResultDocument) : String :=
  d.toJson.prettyText

/-- How a document is written. -/
def shape : RecordShape ResultDocument where
  title := "ResultDocument"
  blank := ⟨Analysis.shape.blank, Metadata.shape.blank⟩
  fields :=
    [.of "results" .required Analysis.shape.read fun a d => { d with results := a },
     .of "metadata" .required Metadata.shape.read fun m d => { d with metadata := m }]

/-- The document that a text describes. -/
def ofString (text : String) : Except Failure ResultDocument :=
  match Json.decodeString shape.read text with
  | .ok d => .ok d
  | .error e => .error (.malformedDocument e)

end ResultDocument
end TransferCost
