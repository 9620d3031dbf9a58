import TransferCost.Host
import TransferCost.Report
import TransferCost.ResultDocument
import TransferCost.Study
import TransferCost.Table

/-!
# Files read and written

Settings and samples are read from files, and results, reports, tables and samples are written to
files.  Each is one request to the host, so a file is written as a whole or the request fails.  Only
the tables are several files, which are written one after the other up to the first failure.
-/

namespace TransferCost

open Files (FileError)

variable {m : Type → Type} [Monad m] [Host m]

/-- Writes a text to a file. -/
def writeText (path text : String) : m (Except Failure Unit) := do
  match ← Host.writeFile path text with
  | .ok () => return .ok ()
  | .error e => return .error (.file path e)

/-! ## Settings -/

/-- Why settings cannot be taken from a file. -/
inductive SettingsError where
  | unreadable (path : String) (cause : FileError)
  | malformed (path : String) (e : Json.ReadError)
  | faulty (f : Settings.Fault)

/-- A reason in words. -/
def SettingsError.message : SettingsError → String
  | unreadable path cause => s!"Cannot read {path}: {cause.message}"
  | malformed path e => s!"Cannot parse {path}: {Json.readErrorMessage e}"
  | faulty f => f.message

/-- The settings that a file with this text describes, if they have no fault. -/
def Settings.ofFile (path text : String) : Except SettingsError Settings :=
  match Settings.ofString text with
  | .error e => .error (.malformed path e)
  | .ok s =>
    match s.fault? with
    | some f => .error (.faulty f)
    | none => .ok s

/-- Reads settings. -/
def Settings.load (path : String) : m (Except SettingsError Settings) := do
  match ← Host.readFile path with
  | .error e => return .error (.unreadable path e)
  | .ok text => return Settings.ofFile path text

/-! ## Samples -/

namespace Study

/-- The study with the samples of a file that has this content, and their number. -/
def ingestRead (s : Study) (path : String) (content : Except FileError String) :
    Logged (Except Failure (Nat × Study)) := do
  match content with
  | .error e => return .error (.file path e)
  | .ok text =>
    match ← s.ingestText text with
    | .error e => return .error e
    | .ok (count, s') =>
      Logged.report (.samplesLoaded count path)
      return .ok (count, s')

/-- The study with the samples of a file, and their number. -/
def ingestFile (s : Study) (path : String) : m (Except Failure (Nat × Study)) := do
  (s.ingestRead path (← Host.readFile path)).emit

end Study

/-- Writes the samples of a store. -/
def Store.write (s : Store) (path : String) : m (Except Failure Unit) :=
  writeText path s.toJson.prettyText

/-! ## Results -/

/-- Writes something that is worth an event. -/
def writeReported (e : Event) (path text : String) : m (Except Failure Unit) := do
  match ← writeText path text with
  | .error failure => return .error failure
  | .ok () =>
    Host.log e
    return .ok ()

/-- Writes a result document. -/
def ResultDocument.write (d : ResultDocument) (path : String) : m (Except Failure Unit) :=
  writeReported (.resultsWritten path) path d.text

/-- Reads a result document. -/
def ResultDocument.load (path : String) : m (Except Failure ResultDocument) := do
  match ← Host.readFile path with
  | .error e => return .error (.file path e)
  | .ok text => return ResultDocument.ofString text

/-- Writes the report of an analysis, under the date of today. -/
def Report.write (a : Analysis) (path : String) : m (Except Failure Unit) := do
  let t : Timestamp ← Host.now
  writeReported (.reportWritten path) path (Report.text a t.date)

namespace Table

/-- Writes tables one after the other, and names the files.  The first failure is the last file. -/
def writeEach : List (String × Table) → m (Except Failure (List String))
  | [] => return .ok []
  | (path, t) :: rest => do
    match ← Host.writeFile path t.text with
    | .error e => return .error (.table e)
    | .ok () => return (path :: ·) <$> (← writeEach rest)

/-- Writes the tables of an analysis into a directory. -/
def write (a : Analysis) (directory : String) : m (Except Failure (List String)) := do
  let tables := (ofAnalysis a).map fun (name, t) => (Files.join directory name, t)
  match ← writeEach tables with
  | .error e => return .error e
  | .ok paths =>
    Host.log (.tablesWritten paths)
    return .ok paths

end Table
end TransferCost
