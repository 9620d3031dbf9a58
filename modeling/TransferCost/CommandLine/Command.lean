/-!
# The command line

A `Command` says what a run of the program is to do.  `Invocation.parse` reads the arguments one
after the other; `--help` and `--version` end the reading where they stand, and a misuse that is met
before them wins.

## The rules

* An option takes its value from the same argument, behind an equals sign or, for a short name,
  directly, and else from the next argument, which must not look like an option itself.  A single
  hyphen does not.
* Short names may be joined in one argument, of which only the last can take a value.
* No option may be given twice.
* There are no arguments but options.  Two hyphens end the options, so nothing may follow them.
* Samples are either read or simulated.  This is looked at last.
-/

namespace TransferCost
namespace CommandLine

/-- What a run is to do. -/
structure Command where
  input : Option String := none
  generate : Bool := false
  outputDir : Option String := none
  save : Option String := none
  markdown : Option String := none
  dumpSamples : Option String := none
  config : Option String := none
  steps : Option Nat := none
  recipients : Option UInt32 := none
deriving DecidableEq

/-- The directory for exports if none is given. -/
def defaultOutputDir : String :=
  "./efficiency_analysis_results"

/-- The directory for exports. -/
def Command.directory (c : Command) : String :=
  c.outputDir.getD defaultOutputDir

/-- What the arguments ask for. -/
inductive Invocation where
  | run (c : Command)
  | help
  | version
  /-- The arguments are no command. -/
  | misuse
deriving DecidableEq

/-! ## Options -/

/-- The options that take a value. -/
inductive Setting where
  | input
  | outputDir
  | save
  | markdown
  | dumpSamples
  | config
  | steps
  | recipients
deriving DecidableEq

/-- What an argument can name. -/
inductive Flag where
  | generate
  | help
  | version
  | setting (s : Setting)
deriving DecidableEq

/-- The flag with a long name. -/
def Flag.ofName? : String → Option Flag
  | "generate" => some generate
  | "help" => some help
  | "version" => some version
  | "input" => some (setting .input)
  | "output-dir" => some (setting .outputDir)
  | "save" => some (setting .save)
  | "markdown" => some (setting .markdown)
  | "dump-samples" => some (setting .dumpSamples)
  | "config" => some (setting .config)
  | "steps" => some (setting .steps)
  | "recipients" => some (setting .recipients)
  | _ => none

/-- The flag with a short name. -/
def Flag.ofLetter? : Char → Option Flag
  | 'g' => some generate
  | 'h' => some help
  | 'V' => some version
  | 'i' => some (setting .input)
  | 'o' => some (setting .outputDir)
  | 's' => some (setting .save)
  | 'm' => some (setting .markdown)
  | 'c' => some (setting .config)
  | _ => none

/-! ## Values -/

/-- A whole number of decimal digits. -/
def digits? (cs : List Char) : Option Nat :=
  if cs ≠ [] && cs.all Char.isDigit then
    some (cs.foldl (fun n c => 10 * n + (c.toNat - '0'.toNat)) 0)
  else none

/-- A number below a bound, perhaps with a plus. -/
def count? (bound : Nat) (text : String) : Option Nat :=
  (match text.toList with
    | '+' :: cs => digits? cs
    | cs => digits? cs).filter (· < bound)

/-- A number below a bound, perhaps with a sign.  A minus goes with zero only. -/
def signedCount? (bound : Nat) (text : String) : Option Nat :=
  match text.toList with
  | '-' :: cs => (digits? cs).filter (· = 0)
  | _ => count? bound text

/-- The command with a value put in, unless it has one already or the value is none. -/
def Command.set (c : Command) (s : Setting) (value : String) : Option Command :=
  match s with
  | .input => if c.input.isNone && !value.isEmpty then some { c with input := value } else none
  | .outputDir =>
    if c.outputDir.isNone && !value.isEmpty then some { c with outputDir := value } else none
  | .save => if c.save.isNone then some { c with save := value } else none
  | .markdown => if c.markdown.isNone then some { c with markdown := value } else none
  | .dumpSamples => if c.dumpSamples.isNone then some { c with dumpSamples := value } else none
  | .config => if c.config.isNone then some { c with config := value } else none
  | .steps => do
    let n ← count? (Nat.pow 2 64) value
    if c.steps.isNone then some { c with steps := n } else none
  | .recipients => do
    let n ← signedCount? (Nat.pow 2 32) value
    if c.recipients.isNone then some { c with recipients := some (UInt32.ofNat n) } else none

/-! ## Arguments -/

/-- What an argument is at first sight. -/
inductive Argument where
  /-- A long name, perhaps with a value. -/
  | long (name : String) (value : Option String)
  /-- Short names, and perhaps a value behind them. -/
  | short (letters : List Char)
  | endOfOptions
  | plain (text : String)
deriving DecidableEq

/-- Looks at an argument. -/
def Argument.ofString (text : String) : Argument :=
  match text.toList with
  | ['-', '-'] => endOfOptions
  | '-' :: '-' :: cs =>
    let name := cs.takeWhile (· ≠ '=')
    long (String.ofList name)
      (match cs.drop name.length with
        | _ :: value => some (String.ofList value)
        | [] => none)
  | '-' :: c :: cs => short (c :: cs)
  | _ => plain text

/-- Where the reading of arguments stands. -/
inductive Progress where
  /-- All is read so far. -/
  | done (c : Command)
  /-- The next argument is a value. -/
  | wanting (c : Command) (s : Setting)
  /-- There must be no further argument. -/
  | closed (c : Command)
  | finished (result : Invocation)

/-- A flag without value. -/
def Progress.switch (c : Command) : Flag → Progress
  | .generate => if c.generate then finished .misuse else done { c with generate := true }
  | .help => finished .help
  | .version => finished .version
  | .setting s => wanting c s

/-- A command with a value put in. -/
def Progress.ofSet (c : Command) (s : Setting) (value : String) : Progress :=
  match c.set s value with
  | some c' => done c'
  | none => finished .misuse

/-- Short names in one argument. -/
def readLetters (c : Command) : List Char → Progress
  | [] => .done c
  | letter :: rest =>
    match Flag.ofLetter? letter with
    | none => .finished .misuse
    | some (.setting s) =>
      match rest with
      | [] => .wanting c s
      | '=' :: value => .ofSet c s (String.ofList value)
      | value => .ofSet c s (String.ofList value)
    | some f =>
      match Progress.switch c f with
      | .done c' => readLetters c' rest
      | p => p

/-- One argument. -/
def Progress.step (p : Progress) (argument : String) : Progress :=
  match p, Argument.ofString argument with
  | finished r, _ => finished r
  | closed _, _ => finished .misuse
  | wanting c s, .plain value => ofSet c s value
  | wanting _ _, _ => finished .misuse
  | done c, .endOfOptions => closed c
  | done _, .plain _ => finished .misuse
  | done c, .short letters => readLetters c letters
  | done c, .long name value =>
    match Flag.ofName? name, value with
    | none, _ => finished .misuse
    | some (.setting s), some v => ofSet c s v
    | some _, some _ => finished .misuse
    | some f, none => switch c f

/-- A command whose options go together. -/
def Invocation.ofCommand (c : Command) : Invocation :=
  if c.generate && c.input.isSome then misuse else run c

/-- The end of the arguments. -/
def Progress.invocation : Progress → Invocation
  | done c | closed c => .ofCommand c
  | wanting _ _ => .misuse
  | finished r => r

/-- What the arguments ask for. -/
def Invocation.parse (arguments : List String) : Invocation :=
  (arguments.foldl Progress.step (.done {})).invocation

end CommandLine
end TransferCost
