import TransferCost.Partition
import TransferCost.Decimal.Fixed
import TransferCost.Text

/-!
# What is logged

The analysis reports what it does as `Event`s.  A computation that reports is a `Logged` value: its
result together with its events, in the order in which they happened.  Nothing is written anywhere,
so which events an analysis reports is a plain fact about a value.
-/

namespace TransferCost

/-- How much an event matters. -/
inductive Level where
  | debug
  | info
  | warn
  | error
deriving DecidableEq

/-- The name of a level. -/
def Level.name : Level → String
  | debug => "DEBUG"
  | info => "INFO"
  | warn => "WARN"
  | error => "ERROR"

/-- Something that happened. -/
inductive Event where
  /-- A document has a key that names no partition. -/
  | keySkipped (key : String)
  | samplesIngested (count : Nat) (p : Partition)
  | samplesLoaded (count : Nat) (path : String)
  | samplesGenerated (count steps : Nat)
  | analysisStarted (count : Nat)
  /-- The means of a transfer type are taken: mean efficiencies and numbers of samples. -/
  | meansTaken (t : TransferType) (efficiency : PerMode Float) (count : PerMode Nat)
  /-- A metric has a zero denominator. -/
  | metricOmitted (metric : String)
  | optimumFound (units improvement : Float) (sizes : Nat)
  | noSharedSize
  | tablesWritten (paths : List String)
  | resultsWritten (path : String)
  | reportWritten (path : String)
  | exportFailed (what reason : String)
  /-- Nothing was said about where samples come from. -/
  | simulationChosen
deriving DecidableEq

namespace Event

/-- How much an event matters. -/
def level : Event → Level
  | keySkipped _ | samplesIngested _ _ | meansTaken _ _ _ | tablesWritten _ => .debug
  | samplesLoaded _ _ | samplesGenerated _ _ | analysisStarted _ | optimumFound _ _ _
  | noSharedSize | resultsWritten _ | reportWritten _ | simulationChosen => .info
  | metricOmitted _ => .warn
  | exportFailed _ _ => .error

/-- One mode's part of the event that means are taken. -/
def meanText (efficiency : PerMode Float) (count : PerMode Nat) (o : Optimization) : String :=
  s!"{o.key} {Decimal.fixed 2 (efficiency.get o)}% over {count.get o} samples"

/-- An event in words. -/
def text : Event → String
  | keySkipped key => s!"Skipping unknown partition key '{key}'"
  | samplesIngested count p => s!"Ingesting {count} samples into {p.name}"
  | samplesLoaded count path => s!"Loaded {count} samples from {path}"
  | samplesGenerated count steps => s!"Generated {count} samples across {steps} transfer sizes"
  | analysisStarted count => s!"Analyzing {count} samples"
  | meansTaken t efficiency count =>
    t.key ++ ": " ++ String.intercalate ", " (Optimization.all.map (meanText efficiency count))
  | metricOmitted metric => s!"Division by zero while computing '{metric}'; metric omitted"
  | optimumFound units improvement sizes =>
    "Scaling optimum at " ++ Decimal.fixed 2 units ++ " units (" ++ Decimal.fixed 2 improvement ++
      s!" pp over {sizes} sizes)"
  | noSharedSize => "No transfer size present in both modes; scaling analysis empty"
  | tablesWritten paths =>
    "Chart data written: [" ++ String.intercalate ", " (paths.map Text.literal) ++ "]"
  | resultsWritten path => s!"Results written to {path}"
  | reportWritten path => s!"Markdown report written to {path}"
  | exportFailed what reason => s!"Failed to write {what}: {reason}"
  | simulationChosen =>
    "Neither --input nor --generate given; generating synthetic samples"

end Event

/-- A result, and what happened on the way to it. -/
structure Logged (α : Type) where
  value : α
  events : List Event

namespace Logged

variable {α β : Type}

instance : Monad Logged where
  pure a := ⟨a, []⟩
  bind x f := ⟨(f x.value).value, x.events ++ (f x.value).events⟩

/-- Something happens. -/
def report (e : Event) : Logged Unit :=
  ⟨(), [e]⟩

@[simp] theorem value_pure (a : α) : (pure a : Logged α).value = a := rfl

@[simp] theorem events_pure (a : α) : (pure a : Logged α).events = [] := rfl

@[simp] theorem value_bind (x : Logged α) (f : α → Logged β) :
    (x >>= f).value = (f x.value).value := rfl

@[simp] theorem events_bind (x : Logged α) (f : α → Logged β) :
    (x >>= f).events = x.events ++ (f x.value).events := rfl

@[simp] theorem value_report (e : Event) : (report e).value = () := rfl

@[simp] theorem events_report (e : Event) : (report e).events = [e] := rfl

end Logged
end TransferCost
