import TransferCost.Calendar.Timestamp
import TransferCost.Event
import TransferCost.Files.Tree
import TransferCost.RunId

/-!
# What the program asks of its surroundings

The program reads and writes files, prints, asks for the time, names its run and logs.  `Host m`
says that the monad `m` offers these.  Programs are written for any host; `Machine` is one that
lives in memory, and what a program does there is a plain function of the files at its start.
-/

namespace TransferCost

open Files (FileError FileTree)

/-- The surroundings of a program. -/
class Host (m : Type → Type) where
  readFile : String → m (Except FileError String)
  writeFile : (path text : String) → m (Except FileError Unit)
  makeDirectories : String → m (Except FileError Unit)
  print : String → m Unit
  complain : String → m Unit
  now : m Timestamp
  newRunId : m RunId
  log : Event → m Unit

/-- Surroundings in memory. -/
structure Machine where
  files : FileTree
  /-- What was printed. -/
  output : String := ""
  /-- What was complained about. -/
  errors : String := ""
  /-- What was logged, the latest first. -/
  logged : List Event := []
  clock : Timestamp
  runId : RunId

namespace Machine

/-- Writes a file.  A failure leaves all as it is. -/
def writeFile (path text : String) : StateM Machine (Except FileError Unit) := fun w =>
  match w.files.write path text with
  | .ok files => (.ok (), { w with files })
  | .error e => (.error e, w)

/-- Makes a directory and its missing parents. -/
def makeDirectories (path : String) : StateM Machine (Except FileError Unit) := fun w =>
  let (result, files) := w.files.makeDirs path
  (result, { w with files })

instance : Host (StateM Machine) where
  readFile path := fun w => (w.files.read path, w)
  writeFile := Machine.writeFile
  makeDirectories := Machine.makeDirectories
  print text := fun w => ((), { w with output := w.output ++ text })
  complain text := fun w => ((), { w with errors := w.errors ++ text })
  now := fun w => (w.clock, w)
  newRunId := fun w => (w.runId, w)
  log e := fun w => ((), { w with logged := e :: w.logged })

/-- What was logged, in order. -/
def events (w : Machine) : List Event :=
  w.logged.reverse

end Machine

/-! ## Asking -/

section Asking

variable {m : Type → Type} [Monad m] [Host m] {α : Type}

/-- A result, whose events are logged. -/
def Logged.emit (x : Logged α) : m α := do
  x.events.forM Host.log
  return x.value

/-- A line that is printed. -/
def printLine (line : String) : m Unit :=
  Host.print (line ++ "\n")

end Asking
end TransferCost
