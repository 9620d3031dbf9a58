import TransferCost.Analysis
import TransferCost.Intake
import TransferCost.Simulation

/-!
# Studies

A `Study` is the settings of an analysis together with the samples gathered so far.  Samples come
from simulation or from documents, and are only ever added.  The settings may change at any time;
they are used when something is simulated or analyzed.
-/

namespace TransferCost

/-- The store with simulated samples, and their number. -/
def Store.simulate (s : Store) (range : SizeRange) (model : CostModel) : Logged (Nat × Store) := do
  let new := Partition.all.map fun p =>
    (p, range.amounts.map fun amount => model.simulate amount p (range.recipients p.transferType))
  let count := Store.countAll new
  Logged.report (.samplesGenerated count range.steps)
  return (count, s.appendAll new)

/-- Settings and samples. -/
structure Study where
  settings : Settings
  store : Store
deriving DecidableEq

namespace Study

/-- A study without samples. -/
def start (settings : Settings) : Study :=
  ⟨settings, .empty⟩

/-- The study with a grid of simulated samples, and their number. -/
def simulate (s : Study) : Logged (Nat × Study) := do
  let (count, store) ← s.store.simulate s.settings.range s.settings.model
  return (count, { s with store })

/-- The study with the samples of a text, and their number. -/
def ingestText (s : Study) (text : String) : Logged (Except Failure (Nat × Study)) := do
  match ← s.store.ingestText text with
  | .error e => return .error e
  | .ok (count, store) => return .ok (count, { s with store })

/-- Each partition holds enough samples. -/
def isSufficient (s : Study) : Bool :=
  s.store.isSufficient s.settings.minSamples

/-- The analysis of the samples. -/
def analyze (s : Study) : Logged (Except Failure Analysis) :=
  Analysis.ofStore s.store s.settings.minSamples

end Study
end TransferCost
