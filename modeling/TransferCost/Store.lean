import TransferCost.Failure
import TransferCost.Sample

/-!
# Stored samples

A `Store` holds the samples of one analysis, one list for each partition.  Samples are only ever
appended.

A store is *sufficient* for a threshold if each partition holds that many samples, and at least one:
no mean is taken over nothing, whatever the threshold.
-/

namespace TransferCost

/-- The sum of some counts. -/
def sumOfCounts (counts : List Nat) : Nat :=
  counts.foldr (· + ·) 0

@[simp] theorem sumOfCounts_cons (n : Nat) (ns : List Nat) :
    sumOfCounts (n :: ns) = n + sumOfCounts ns := rfl

/-- The samples of an analysis. -/
structure Store where
  partitions : PerPartition (List Sample)
deriving DecidableEq, BEq

namespace Store

/-- The store without samples. -/
def empty : Store :=
  ⟨.fill []⟩

/-- The samples of a partition, the oldest first. -/
def samples (s : Store) (p : Partition) : List Sample :=
  s.partitions.get p

/-- The store with further samples in one partition. -/
def append (s : Store) (p : Partition) (new : List Sample) : Store :=
  ⟨s.partitions.modify p (· ++ new)⟩

/-- The samples of a mode, those to single recipients first. -/
def samplesOfMode (s : Store) (o : Optimization) : List Sample :=
  TransferType.all.flatMap fun t => s.samples ⟨o, t⟩

/-- The number of samples in each partition. -/
def counts (s : Store) : List Nat :=
  Partition.all.map fun p => (s.samples p).length

/-- The number of samples. -/
def size (s : Store) : Nat :=
  sumOfCounts s.counts

/-- There are no samples. -/
def isEmpty (s : Store) : Bool :=
  s.size = 0

@[simp] theorem samples_empty (p : Partition) : empty.samples p = [] :=
  PerPartition.get_fill [] p

/-- **Appended samples stand at the end of their partition, and nowhere else.** -/
theorem samples_append (s : Store) (p p' : Partition) (new : List Sample) :
    (s.append p new).samples p' = s.samples p' ++ if p' = p then new else [] := by
  unfold samples append
  rw [PerPartition.get_modify]
  split <;> simp

/-! ## Sufficiency -/

/-- The number of samples that each partition must hold under a threshold. -/
def required (threshold : Nat) : Nat :=
  max threshold 1

/-- The first partition with too few samples. -/
def short? (s : Store) (threshold : Nat) : Option Partition :=
  Partition.all.find? fun p => decide ((s.samples p).length < required threshold)

/-- Each partition holds enough samples. -/
def isSufficient (s : Store) (threshold : Nat) : Bool :=
  (s.short? threshold).isNone

/-- Nothing, unless a partition has too few samples. -/
def check (s : Store) (threshold : Nat) : Except Failure Unit :=
  match s.short? threshold with
  | some p => .error (.insufficientData p (s.samples p).length (required threshold))
  | none => .ok ()

/-- A store is sufficient if each partition is long enough. -/
theorem isSufficient_iff {s : Store} {threshold : Nat} :
    s.isSufficient threshold = true ↔ ∀ p, required threshold ≤ (s.samples p).length := by
  simp [isSufficient, short?, Partition.mem_all]

/-- The check fails where the store is not sufficient. -/
theorem check_eq_ok_iff {s : Store} {threshold : Nat} :
    s.check threshold = .ok () ↔ s.isSufficient threshold = true := by
  unfold check isSufficient
  cases s.short? threshold <;> simp

/-! ## Writing -/

/-- The samples of a store as a document, which can be read again. -/
def toJson (s : Store) : Json :=
  .object <| TransferType.all.map fun t =>
    (t.key, .object <| Optimization.all.map fun o =>
      (o.key, .array ((s.samples ⟨o, t⟩).map Sample.toJson)))

end Store
end TransferCost
