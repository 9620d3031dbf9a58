import TransferCost.Scaling

/-!
# The analysis of a store

An analysis takes the means of every partition, compares the modes of each transfer type, compares
the transfer types, and follows the gain over the sizes.  It is a function of the stored samples
alone and leaves the store as it is.  It fails for one reason only: a partition that holds too few
samples.
-/

namespace TransferCost

/-- The analysis of one transfer type. -/
structure TypeAnalysis where
  means : PerMode Means
  improvement : Improvement
deriving DecidableEq, BEq

/-- The analysis of a store. -/
structure Analysis where
  types : PerType TypeAnalysis
  contrast : Contrast
  scaling : Scaling
deriving DecidableEq, BEq

/-- The analysis of the stored samples of a transfer type. -/
def TypeAnalysis.ofStore (s : Store) (t : TransferType) : Logged TypeAnalysis := do
  let means := PerMode.ofFn fun o => Means.ofSamples (s.samples ⟨o, t⟩)
  Logged.report <| .meansTaken t
    (.ofFn fun o => (means.get o).efficiency) (.ofFn fun o => (means.get o).count)
  let improvement ← Improvement.between t.key means.optimized means.unoptimized
  return { means, improvement }

namespace Analysis

/-- The analysis of stored samples that are enough. -/
def ofSufficient (s : Store) : Logged Analysis := do
  Logged.report (.analysisStarted s.size)
  let single ← TypeAnalysis.ofStore s .singleRecipient
  let multi ← TypeAnalysis.ofStore s .multiWallet
  let scaling ← Scaling.ofStore s
  return {
    types := ⟨single, multi⟩
    contrast := .between single.improvement multi.improvement
    scaling }

/-- The analysis of the stored samples, of which each partition must hold as many as the threshold
says. -/
def ofStore (s : Store) (threshold : Nat) : Logged (Except Failure Analysis) :=
  match s.check threshold with
  | .error e => return .error e
  | .ok () => .ok <$> ofSufficient s

/-- The mean gain of efficiency of the two transfer types. -/
def averageEfficiencyGain (a : Analysis) : Float :=
  ((a.types.get .singleRecipient).improvement.efficiency +
    (a.types.get .multiWallet).improvement.efficiency) / 2.0

/-- The mean cost reduction of the two transfer types, unless one of them has none. -/
def averageCostReduction (a : Analysis) : Option Float := do
  let single ← (a.types.get .singleRecipient).improvement.costReduction
  let multi ← (a.types.get .multiWallet).improvement.costReduction
  return (single + multi) / 2.0

end Analysis
end TransferCost
