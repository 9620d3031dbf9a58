import TransferCost.CommandLine.Command
import TransferCost.Exchange
import TransferCost.Summary

/-!
# A run of the program

A run takes its settings, gathers samples, makes the output directory and analyzes.  If any of this
fails, the run is aborted: the reason is complained about and nothing is printed.  Once the analysis
is made the run succeeds.  What cannot be exported is warned about, and the other exports go on.
-/

namespace TransferCost
namespace CommandLine

/-- The name of the program. -/
def programName : String :=
  "hopcost-runner"

/-- The name and the version of the program. -/
def versionText : String :=
  programName ++ " 0.1.0\n"

/-- What the program does, which result documents say too. -/
def description : String :=
  "Multi-hop transfer cost efficiency analysis"

/-- The help. -/
def helpText : String :=
  description ++ "\n\nUsage: " ++ programName ++ " [OPTIONS]\n\nOptions:\n" ++
  "  -i, --input <INPUT>                Input file with sample data (JSON)\n" ++
  "  -g, --generate                     Generate synthetic samples instead of loading them\n" ++
  "  -o, --output-dir <OUTPUT_DIR>      Directory for chart data and relative export names " ++
  "[default: " ++ defaultOutputDir ++ "]\n" ++
  "  -s, --save <SAVE>                  Save the result document as JSON under this name\n" ++
  "  -m, --markdown <MARKDOWN>          Export a Markdown report under this name\n" ++
  "      --dump-samples <DUMP_SAMPLES>  Save the analyzed samples (ingestion format) under " ++
  "this name\n" ++
  "  -c, --config <CONFIG>              Analysis config file (JSON)\n" ++
  "      --steps <STEPS>                Override the number of generated transfer sizes\n" ++
  "      --recipients <RECIPIENTS>      Override the multi-wallet recipient count\n" ++
  "  -h, --help                         Print help\n" ++
  "  -V, --version                      Print version\n"

/-! ## Aborted runs -/

/-- Why a run is aborted: what was tried, and the causes, each of which rests on the next. -/
structure Abort where
  context : String
  causes : List String
deriving DecidableEq

namespace Abort

/-- A cause, whose further lines are indented. -/
def indented (width : Nat) (cause : String) : String :=
  String.ofList <| cause.toList.flatMap fun c =>
    if c = '\n' then '\n' :: List.replicate width ' ' else [c]

/-- The lines of the causes, which are numbered if there are several. -/
def causeLines : List String → List String
  | [] => []
  | [cause] => ["    " ++ indented 4 cause]
  | causes => causes.mapIdx fun i cause => s!"    {i}: " ++ indented 7 cause

/-- The complaint. -/
def text (a : Abort) : String :=
  let head := s!"Error: {a.context}\n"
  match causeLines a.causes with
  | [] => head
  | lines => head ++ "\nCaused by:\n" ++ String.join (lines.map (· ++ "\n"))

/-- An abort for a failure. -/
def ofFailure (context : String) (e : Failure) : Abort :=
  ⟨context, e.message :: e.source?.toList⟩

end Abort

section Run

variable {m : Type → Type} [Monad m] [Host m]

/-! ## Up to the analysis -/

/-- The settings with the overrides of a command. -/
def Command.override (c : Command) (s : Settings) : Settings :=
  { s with
    range := { s.range with
      steps := c.steps.getD s.range.steps
      wallets := c.recipients.getD s.range.wallets } }

/-- The settings of a run, before the overrides. -/
def Command.loadSettings (c : Command) : m (Except Abort Settings) := do
  match c.config with
  | none => return .ok .standard
  | some path =>
    match ← Settings.load path with
    | .ok s => return .ok s
    | .error e => return .error ⟨e.message, []⟩

/-- The study of a run, with its samples. -/
def Command.gather (c : Command) (s : Settings) : m (Except Abort Study) := do
  let study := Study.start s
  match c.input with
  | some path =>
    match ← study.ingestFile path with
    | .ok (_, study) => return .ok study
    | .error e => return .error (.ofFailure s!"Could not load samples from '{path}'" e)
  | none =>
    unless c.generate do
      Host.log .simulationChosen
    return .ok (← study.simulate.emit).2

/-- The samples and their analysis. -/
def Command.analyze (c : Command) (study : Study) : m (Except Abort Analysis) := do
  match ← Host.makeDirectories c.directory with
  | .error e =>
    return .error ⟨s!"Cannot create output directory '{c.directory}'", [e.message]⟩
  | .ok () =>
    match ← study.analyze.emit with
    | .error e => return .error (.ofFailure "Analysis failed" e)
    | .ok a => return .ok a

/-- Everything that can abort a run. -/
def Command.prepare (c : Command) : m (Except Abort (Study × Analysis)) := do
  match ← c.loadSettings with
  | .error e => return .error e
  | .ok loaded =>
    let settings := c.override loaded
    match settings.fault? with
    | some f => return .error ⟨"Invalid analysis configuration", [f.message]⟩
    | none =>
      match ← c.gather settings with
      | .error e => return .error e
      | .ok study =>
        match ← c.analyze study with
        | .error e => return .error e
        | .ok a => return .ok (study, a)

/-! ## Exports -/

/-- A warning about something that could not be written. -/
def warn (what : String) (e : Failure) : m Unit := do
  Host.log (.exportFailed what e.message)
  Host.complain s!"Warning: could not write {what}: {e.message}\n"

/-- The files written by an export.  A failure is warned about. -/
def written (what : String) (result : Except Failure (List String)) : m (List String) := do
  match result with
  | .ok paths => return paths
  | .error e =>
    warn what e
    return []

/-- Writes the file with this name, if there is one. -/
def exportTo (directory : String) (name : Option String) (ext what : String)
    (write : String → m (Except Failure Unit)) : m (List String) := do
  match name with
  | none => return []
  | some name =>
    let path := Files.exported directory name ext
    written what ((fun _ => [path]) <$> (← write path))

/-- Writes a result document of now. -/
def saveResults (a : Analysis) (path : String) : m (Except Failure Unit) := do
  let generatedAt ← Host.now
  let runId ← Host.newRunId
  (ResultDocument.ofAnalysis a description generatedAt runId).write path

/-- Writes all that the command asks for, and names the files. -/
def Command.exportAll (c : Command) (study : Study) (a : Analysis) : m (List String) := do
  let tables ← written "chart data" (← Table.write a c.directory)
  let results ← exportTo c.directory c.save "json" "JSON results" (saveResults a)
  let report ← exportTo c.directory c.markdown "md" "Markdown report" (Report.write a)
  let dump ← exportTo c.directory c.dumpSamples "json" "sample dump" study.store.write
  return tables ++ results ++ report ++ dump

/-! ## The whole run -/

/-- The last lines of a run. -/
def closingLines (created : List String) (millis : Nat) : List String :=
  ["", "Created files:"] ++ created.map ("  - " ++ ·) ++
    ["", s!"Analysis completed successfully in {millis} ms."]

/-- A run.  The result is the exit status. -/
def Command.run (c : Command) : m UInt32 := do
  let started ← Host.now
  match ← c.prepare with
  | .error e =>
    Host.complain e.text
    return 1
  | .ok (study, a) =>
    (Summary.lines a started).forM printLine
    let created ← c.exportAll study a
    let ended ← Host.now
    (closingLines created (ended.millisSince started)).forM printLine
    return 0

/-- What the arguments ask for.  The result is the exit status. -/
def perform : Invocation → m UInt32
  | .run c => c.run
  | .help => do
    Host.print helpText
    return 0
  | .version => do
    Host.print versionText
    return 0
  | .misuse => do
    Host.complain <|
      s!"error: invalid arguments\n\nUsage: {programName} [OPTIONS]\n\n" ++
      "For more information, try '--help'.\n"
    return 2

end Run
end CommandLine
end TransferCost
