import TransferCost.Proofs.Binary64.Comparison
import TransferCost.Proofs.Scaling

/-!
# The table of costs, and the curve beside it

The table has one block of rows for each transfer type.  Within a block it is made as the curve is,
but from the two partitions of one type, whereas the curve looks at all four.

## Where the two differ

An amount that one transfer type has in both modes is an amount of the curve.  The converse fails:
one mode may have it only in transfers to single recipients, and the other only in transfers to many
wallets.  Such an amount has a point and no row: `IsShared.of_isSharedBy` is one direction, and
`Tabulates.missing` says for which amounts the other fails.
-/

namespace TransferCost

open Binary64 (orderKey)

namespace Scaling

open AmountGroups

variable {s : Store} {t : TransferType} {a : Float} {row : SizeCost}

/-! ## Shared amounts of one transfer type -/

/-- There is a sample of this transfer type in either mode with exactly this amount. -/
def IsSharedBy (s : Store) (t : TransferType) (a : Float) : Prop :=
  ∀ o, ∃ x ∈ s.samples ⟨o, t⟩, x.amount.toBits = a.toBits

theorem IsShared.of_isSharedBy (h : IsSharedBy s t a) : IsShared s a :=
  fun o => ⟨t, h o⟩

theorem isSharedBy_iff :
    IsSharedBy s t a ↔
      a ∈ sharedAmounts (s.samples ⟨.optimized, t⟩) (s.samples ⟨.unoptimized, t⟩) := by
  have hbits (o : Optimization) : (∃ x ∈ s.samples ⟨o, t⟩, x.amount.toBits = a.toBits) ↔
      ∃ x ∈ s.samples ⟨o, t⟩, x.amount = a :=
    exists_congr fun x => and_congr_right fun _ =>
      ⟨Binary64.toBits_injective, congrArg Float.toBits⟩
  rw [mem_sharedAmounts, ← hbits, ← hbits]
  constructor
  · intro h
    exact ⟨h .optimized, h .unoptimized⟩
  · rintro ⟨ho, hu⟩ o
    cases o
    · exact ho
    · exact hu

/-! ## Rows -/

/-- The total costs of the samples of a partition with an amount, the oldest first. -/
def costsAt (s : Store) (p : Partition) (a : Float) : List Float :=
  ((s.samples p).filter fun x => decide (x.amount.toBits = a.toBits)).map (·.totalCost)

/-- Their mean: added up in this order from `-0.0`, and divided by their number. -/
def meanCostAt (s : Store) (p : Partition) (a : Float) : Float :=
  (costsAt s p a).foldl (· + ·) (-0.0) / Float.ofNat (costsAt s p a).length

theorem meanCostAt_eq (s : Store) (p : Partition) (a : Float) :
    meanCostAt s p a = meanOf (ofAmount a (s.samples p)) (·.totalCost) := by
  rw [← ofBits_toBits]
  rfl

/-- What a row says of the stored samples.  A reduction is left out if and only if it is relative to
one of the zeros. -/
structure IsExactRow (s : Store) (row : SizeCost) : Prop where
  units : row.units = row.amount / 1000000000.0
  optimized : row.optimizedCost = meanCostAt s ⟨.optimized, row.transferType⟩ row.amount
  unoptimized : row.unoptimizedCost = meanCostAt s ⟨.unoptimized, row.transferType⟩ row.amount
  saving : row.saving = row.unoptimizedCost - row.optimizedCost
  omitted : row.costReduction = none ↔ row.unoptimizedCost = 0.0 ∨ row.unoptimizedCost = -0.0
  reduction : ∀ r, row.costReduction = some r →
    r = 100.0 * (1.0 - row.optimizedCost / row.unoptimizedCost)

/-- The row of an amount, from the samples of one transfer type. -/
def rowAt (s : Store) (t : TransferType) (a : Float) : SizeCost :=
  (SizeCost.ofSamples t (s.samples ⟨.optimized, t⟩) (s.samples ⟨.unoptimized, t⟩) a).value

theorem costReduction_rowAt (s : Store) (t : TransferType) (a : Float) :
    (rowAt s t a).costReduction =
      if ((rowAt s t a).unoptimizedCost == 0.0) = true then none
      else some (reductionOf (rowAt s t a).optimizedCost (rowAt s t a).unoptimizedCost) :=
  value_reductionOrOmit _ _ _

theorem isExactRow_rowAt (s : Store) (t : TransferType) (a : Float) :
    IsExactRow s (rowAt s t a) where
  units := rfl
  optimized := (meanCostAt_eq s ⟨.optimized, t⟩ a).symm
  unoptimized := (meanCostAt_eq s ⟨.unoptimized, t⟩ a).symm
  saving := rfl
  omitted := by
    rw [costReduction_rowAt, ite_eq_left_iff, ← Binary64.beq_zero_iff_eq]
    simp only [reduceCtorEq, imp_false, not_not]
  reduction := by
    intro r hr
    rw [costReduction_rowAt, Option.ite_none_left_eq_some] at hr
    exact (Option.some.inj hr.2).symm

theorem mem_costsOfType (h : row ∈ (costsOfType s t).value) :
    row.transferType = t ∧ IsExactRow s row := by
  rw [costsOfType, Logged.value_mapM] at h
  obtain ⟨a, -, rfl⟩ := List.mem_map.mp h
  exact ⟨rfl, isExactRow_rowAt s t a⟩

/-! ## Blocks -/

/-- The rows of one transfer type, where they stand. -/
def rowsOf (sc : Scaling) (t : TransferType) : List SizeCost :=
  sc.costs.filter fun row => decide (row.transferType = t)

theorem costs_ofStore (s : Store) : (ofStore s).value.costs =
    (costsOfType s .singleRecipient).value ++ (costsOfType s .multiWallet).value := rfl

theorem filter_costsOfType (s : Store) (t t' : TransferType) :
    ((costsOfType s t).value.filter fun row => decide (row.transferType = t')) =
      if t = t' then (costsOfType s t).value else [] := by
  split_ifs with h
  · exact List.filter_eq_self.mpr fun row hrow => decide_eq_true ((mem_costsOfType hrow).1.trans h)
  · exact List.filter_eq_nil_iff.mpr fun row hrow hrow' =>
      h ((mem_costsOfType hrow).1.symm.trans (of_decide_eq_true hrow'))

/-- The rows of a type are those that were made for it. -/
theorem rowsOf_ofStore (s : Store) (t : TransferType) :
    rowsOf (ofStore s).value t = (costsOfType s t).value := by
  rw [rowsOf, costs_ofStore, List.filter_append, filter_costsOfType, filter_costsOfType]
  cases t <;> simp

theorem amounts_rowsOf (s : Store) (t : TransferType) :
    (rowsOf (ofStore s).value t).map (·.amount) =
      sharedAmounts (s.samples ⟨.optimized, t⟩) (s.samples ⟨.unoptimized, t⟩) := by
  have hpairs := congrArg (List.map Prod.snd) (amounts_costsOfType s t)
  rw [List.map_map, List.map_map] at hpairs
  rw [rowsOf_ofStore]
  exact hpairs.trans (List.map_id _)

theorem exists_rowsOf_iff :
    (∃ row ∈ rowsOf (ofStore s).value t, row.amount = a) ↔ IsSharedBy s t a := by
  rw [isSharedBy_iff, ← amounts_rowsOf, List.mem_map]

theorem exists_costs_iff :
    (∃ row ∈ (ofStore s).value.costs, row.amount = a) ↔ ∃ t, IsSharedBy s t a := by
  simp only [← exists_rowsOf_iff, rowsOf, List.mem_filter, decide_eq_true_eq]
  constructor
  · rintro ⟨row, hrow, ha⟩
    exact ⟨row.transferType, row, ⟨hrow, rfl⟩, ha⟩
  · rintro ⟨t, row, ⟨hrow, -⟩, ha⟩
    exact ⟨row, hrow, ha⟩

theorem exists_points_iff :
    (∃ p ∈ (ofStore s).value.points, p.amount = a) ↔ IsShared s a := by
  rw [isShared_iff, ← amounts_pointsOf, List.mem_map, points_ofStore]

/-! ## The table -/

/-- The table of costs is that of the stored samples. -/
structure Tabulates (s : Store) (sc : Scaling) : Prop where
  /-- First all rows of transfers to single recipients, then all of those to many wallets. -/
  blocks : sc.costs = rowsOf sc .singleRecipient ++ rowsOf sc .multiWallet
  /-- The amounts of a block ascend strictly, in the order of all doubles. -/
  ascending : ∀ t, (rowsOf sc t).Pairwise fun r r' => orderKey r.amount < orderKey r'.amount
  /-- As numbers, too, if they are positive. -/
  positive : ∀ t, (∀ row ∈ rowsOf sc t, row.amount.isFinite = true ∧ 0.0 < row.amount) →
    (rowsOf sc t).Pairwise fun r r' => r.amount < r'.amount
  present : ∀ t a, (∃ row ∈ rowsOf sc t, row.amount = a) ↔ IsSharedBy s t a
  exact : ∀ row ∈ sc.costs, IsExactRow s row
  /-- Each row has a point of the curve beside it. -/
  joined : ∀ row ∈ sc.costs, ∃ p ∈ sc.points, p.amount = row.amount
  /-- A point has no row beside it if no single type has its amount in both modes. -/
  missing : ∀ p ∈ sc.points,
    (¬ ∃ row ∈ sc.costs, row.amount = p.amount) ↔ ¬ ∃ t, IsSharedBy s t p.amount

theorem tabulates_ofStore (s : Store) : Tabulates s (ofStore s).value where
  blocks := by
    rw [rowsOf_ofStore, rowsOf_ofStore, costs_ofStore]
  ascending := by
    intro t
    rw [← List.pairwise_map (f := fun row : SizeCost => row.amount)
      (R := fun a b => orderKey a < orderKey b), amounts_rowsOf]
    exact Binary64.pairwise_lt_mergeSort ((nodup_distinct _).filter _)
  positive := by
    intro t hpos
    rw [← List.forall_mem_map (f := fun row : SizeCost => row.amount)
      (P := fun a => a.isFinite = true ∧ 0.0 < a), amounts_rowsOf] at hpos
    rw [← List.pairwise_map (f := fun row : SizeCost => row.amount) (R := (· < ·)), amounts_rowsOf]
    exact pairwise_lt_sharedAmounts hpos
  present := fun t a => exists_rowsOf_iff
  exact := by
    intro row hrow
    rw [costs_ofStore, List.mem_append] at hrow
    rcases hrow with hrow | hrow
    · exact (mem_costsOfType hrow).2
    · exact (mem_costsOfType hrow).2
  joined := by
    intro row hrow
    obtain ⟨t, ht⟩ := exists_costs_iff.mp ⟨row, hrow, rfl⟩
    exact exists_points_iff.mpr (.of_isSharedBy ht)
  missing := fun p _ => not_congr exists_costs_iff

/-- **The table of costs is exact, in whatever orders the hash maps are enumerated.** -/
theorem table_exact (orders : KeyOrders s) :
    inOrder orders = ofStore s ∧ Tabulates s (inOrder orders).value := by
  rw [inOrder_eq]
  exact ⟨rfl, tabulates_ofStore s⟩

/-- A transfer to one recipient, which costs one subunit. -/
def oneSubunit : Sample where
  amount := 1.0
  recipientCount := 1
  totalCost := 1.0
  receivedAmount := 1.0
  efficiency := 100.0
  timeMs := 0.0
  breakdown := .ofFn fun _ => 0.25
  accountsCreated := 0
  accountsRemaining := 0

/-- One amount, which no transfer type has in both modes. -/
def crossed : Store :=
  (Store.empty.append ⟨.optimized, .singleRecipient⟩ [oneSubunit]).append
    ⟨.unoptimized, .multiWallet⟩ [oneSubunit]

example : (ofStore crossed).value.points.map (·.amount) = [1.0] ∧
    (ofStore crossed).value.costs = [] := by
  decide +kernel

end Scaling
end TransferCost
