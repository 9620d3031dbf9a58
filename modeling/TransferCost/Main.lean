import TransferCost.CommandLine.Run
import Std.Time.DateTime.Timestamp

/-!
# The program

The program runs on the machine that it is started on, and files are those of the disk.  Logging is
off: no event is shown, whatever its level.  Only one kind of event is an error, and that is an
export that fails.  The program complains about it besides, so what the user misses is a second line
on it.
-/

namespace TransferCost
namespace Disk

open Files (FileError)

/-- The number that the operating system gives a failure. -/
def codeOf? : IO.Error → Option UInt32
  | .alreadyExists _ code _ | .noFileOrDirectory _ code _ | .inappropriateType _ code _
  | .invalidArgument _ code _ | .permissionDenied _ code _ | .resourceExhausted _ code _
  | .noSuchThing _ code _ | .interrupted _ code _ => some code
  | .otherError code _ | .resourceBusy code _ | .resourceVanished code _
  | .unsupportedOperation code _ | .hardwareFault code _ | .unsatisfiedConstraints code _
  | .illegalOperation code _ | .protocolError code _ | .timeExpired code _ => some code
  | .unexpectedEof | .userError _ => none

/-- The number without the sign that some calls give it. -/
def unsigned (code : UInt32) : UInt32 :=
  if code < 2147483648 then code else -code

/-- The failure of a file operation. -/
def failure (e : IO.Error) : FileError :=
  match (codeOf? e).map unsigned with
  | some 2 => .notFound
  | some 17 => .alreadyExists
  | some 20 => .notDirectory
  | some 21 => .isDirectory
  | some 36 => .nameTooLong
  | _ => .other (toString e)

/-- A file operation, whose failure is a result. -/
def attempt {α : Type} (action : IO α) : IO (Except FileError α) := do
  try
    return .ok (← action)
  catch e =>
    return .error (failure e)

/-- Reads a file as text. -/
def readText (path : String) : IO (Except FileError String) := do
  match ← attempt (IO.FS.readBinFile path) with
  | .error e => return .error e
  | .ok bytes =>
    match String.fromUTF8? bytes with
    | some text => return .ok text
    | none => return .error .notText

/-- Makes a directory.  Its missing parents are made only if nothing else stands in the way. -/
def makeDirectories (path : String) : IO (Except FileError Unit) := do
  match ← attempt (IO.FS.createDir path) with
  | .error .notFound | .error .alreadyExists => attempt (IO.FS.createDirAll path)
  | result => return result

/-- The machine that the program is started on.  Events go nowhere, since logging is off. -/
instance : Host IO where
  readFile := readText
  writeFile path text := attempt (IO.FS.writeFile path text)
  makeDirectories := Disk.makeDirectories
  print := IO.print
  complain := IO.eprint
  now := return .ofNanos (← Std.Time.Timestamp.now).toNanosecondsSinceUnixEpoch.val.toNat
  newRunId := do
    let bytes ← IO.getRandomBytes 16
    return .ofRandom (bytes.toList.foldl (fun n byte => 256 * n + byte.toNat) 0)
  log _ := pure ()

end Disk
end TransferCost

/-- Runs the program. -/
def main (arguments : List String) : IO UInt32 :=
  TransferCost.CommandLine.perform (TransferCost.CommandLine.Invocation.parse arguments)
