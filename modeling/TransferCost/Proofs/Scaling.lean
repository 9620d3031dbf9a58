import TransferCost.Proofs.Binary64.Constants
import TransferCost.Proofs.Binary64.TotalOrder
import TransferCost.Proofs.Logged
import TransferCost.Scaling

/-!
# The scaling curve, from hash maps in any order

A scaling analysis is carried out on hash maps: samples are pushed one by one onto the group of the
bits of their amount, and the amounts are what the map of the optimized samples enumerates.  Nothing
is known of the order of that enumeration.  This file follows the maps, and shows that the order has
no influence and that the curve is exact.

## Why the order does not matter

A `KeyOrder` is any arrangement of the keys of a map.  The keys of a map are distinct, and distinct
bits are distinct doubles, so the amounts are a permutation of `distinct` ones.  They are sorted by
a total order, in which only equal doubles are equal.

## Why no sample is lost

`getElem?_collect` reads a group after all samples were pushed: it is the sublist of the samples
with its bits, in their order, and it is missing if it would be empty.  `getElem?_push` is the step.
-/

namespace TransferCost

open Binary64 (orderKey totalLE)

/-- Samples by the bits of their amount. -/
abbrev AmountGroups := Std.HashMap UInt64 (List Sample)

namespace AmountGroups

/-- The groups with one more sample, at the end of its group. -/
def push (g : AmountGroups) (x : Sample) : AmountGroups :=
  g.alter x.amount.toBits fun group? => some (group?.getD [] ++ [x])

/-- The groups of some samples. -/
def collect (samples : List Sample) : AmountGroups :=
  samples.foldl push ∅

/-- The group of an amount. -/
def group? (g : AmountGroups) (amount : Float) : Option (List Sample) :=
  g[amount.toBits]?

/-- An order in which the keys of a map may be enumerated. -/
structure KeyOrder (g : AmountGroups) where
  keys : List UInt64
  perm : keys.Perm g.keys

instance (g : AmountGroups) : Inhabited (KeyOrder g) :=
  ⟨⟨g.keys, .refl _⟩⟩

/-- The amounts of both maps, where those of the first are enumerated in some order. -/
def sharedAmounts (optimized unoptimized : AmountGroups) (order : KeyOrder optimized) :
    List Float :=
  ((order.keys.map Float.ofBits).filter fun a => (unoptimized.group? a).isSome).mergeSort totalLE

/-- An amount with its two groups, if both are there. -/
def pair? (optimized unoptimized : AmountGroups) (amount : Float) :
    Option (Float × List Sample × List Sample) := do
  let o ← optimized.group? amount
  let u ← unoptimized.group? amount
  return (amount, o, u)

/-- The shared amounts with their groups. -/
def sharedPairs (optimized unoptimized : AmountGroups) (order : KeyOrder optimized) :
    List (Float × List Sample × List Sample) :=
  (sharedAmounts optimized unoptimized order).filterMap (pair? optimized unoptimized)

end AmountGroups

/-- The point of an amount, from its groups. -/
def ScalingPoint.ofPair : Float × List Sample × List Sample → ScalingPoint
  | (amount, optimized, unoptimized) =>
    let o := meanOf optimized (·.efficiency)
    let u := meanOf unoptimized (·.efficiency)
    { amount
      units := toUnits amount
      optimizedEfficiency := o
      unoptimizedEfficiency := u
      improvement := o - u }

/-- The row of an amount, from its groups. -/
def SizeCost.ofPair (t : TransferType) : Float × List Sample × List Sample → Logged SizeCost
  | (amount, optimized, unoptimized) => do
    let o := meanOf optimized (·.totalCost)
    let u := meanOf unoptimized (·.totalCost)
    let costReduction ← reductionOrOmit (metric t amount) o u
    return {
      transferType := t
      amount
      units := toUnits amount
      unoptimizedCost := u
      optimizedCost := o
      saving := u - o
      costReduction }

namespace Scaling

open AmountGroups

/-- The orders in which the maps of one analysis are enumerated: that of the curve, and one for each
transfer type. -/
structure KeyOrders (s : Store) where
  curve : KeyOrder (collect (s.samplesOfMode .optimized))
  rows : ∀ t, KeyOrder (collect (s.samples ⟨.optimized, t⟩))
deriving Inhabited

variable {s : Store} (orders : KeyOrders s)

/-- The points of the curve, from hash maps. -/
def pointsInOrder : List ScalingPoint :=
  (sharedPairs _ (collect (s.samplesOfMode .unoptimized)) orders.curve).map ScalingPoint.ofPair

/-- The rows of one transfer type, from hash maps. -/
def costsInOrder (t : TransferType) : Logged (List SizeCost) :=
  (sharedPairs _ (collect (s.samples ⟨.unoptimized, t⟩)) (orders.rows t)).mapM (SizeCost.ofPair t)

/-- The scaling analysis, from hash maps. -/
def inOrder : Logged Scaling := do
  let points := pointsInOrder orders
  let optimum := ScalingOptimum.ofPoints points
  Logged.report (optimumEvent points optimum)
  let single ← costsInOrder orders .singleRecipient
  let multi ← costsInOrder orders .multiWallet
  return { points, optimum, costs := single ++ multi }

end Scaling

/-! ## Groups -/

namespace AmountGroups

/-- The samples whose amount has these bits. -/
def ofBits (bits : UInt64) (samples : List Sample) : List Sample :=
  samples.filter fun x => decide (x.amount.toBits = bits)

theorem ofBits_toBits (a : Float) (samples : List Sample) :
    ofBits a.toBits samples = ofAmount a samples := by
  apply List.filter_congr
  intro x _
  rw [decide_eq_decide]
  exact ⟨Binary64.toBits_injective, congrArg Float.toBits⟩

theorem ofBits_append_singleton (bits : UInt64) (samples : List Sample) (x : Sample) :
    ofBits bits (samples ++ [x]) =
      ofBits bits samples ++ if x.amount.toBits = bits then [x] else [] := by
  unfold ofBits
  rw [List.filter_append]
  by_cases h : x.amount.toBits = bits <;> simp [h]

theorem ofBits_eq_nil_iff {bits : UInt64} {samples : List Sample} :
    ofBits bits samples = [] ↔ ¬ ∃ x ∈ samples, x.amount.toBits = bits := by
  simp [ofBits]

/-- A group, unless it is empty. -/
def nonempty? (group : List Sample) : Option (List Sample) :=
  if group = [] then none else some group

theorem nonempty?_append_singleton (group : List Sample) (x : Sample) :
    nonempty? (group ++ [x]) = some ((nonempty? group).getD [] ++ [x]) := by
  unfold nonempty?
  by_cases h : group = [] <;> simp [h]

/-- A pushed sample is added to the group of its bits, and to no other. -/
theorem getElem?_push (g : AmountGroups) (x : Sample) (bits : UInt64) :
    (g.push x)[bits]? =
      if x.amount.toBits = bits then some (g[bits]?.getD [] ++ [x]) else g[bits]? := by
  unfold push
  rw [Std.HashMap.getElem?_alter]
  by_cases h : x.amount.toBits = bits <;> simp [h]

/-- **A group holds the samples of its bits, each once and in their order.** -/
theorem getElem?_collect (samples : List Sample) (bits : UInt64) :
    (collect samples)[bits]? = nonempty? (ofBits bits samples) := by
  induction samples using List.reverseRecOn with
  | nil => simp [collect, ofBits, nonempty?]
  | append_singleton samples x ih =>
    have hpush : collect (samples ++ [x]) = (collect samples).push x := by
      simp [collect, List.foldl_append]
    rw [hpush, getElem?_push, ih, ofBits_append_singleton]
    by_cases h : x.amount.toBits = bits
    · rw [if_pos h, if_pos h, nonempty?_append_singleton]
    · rw [if_neg h, if_neg h, List.append_nil]

theorem group?_collect (samples : List Sample) (a : Float) :
    (collect samples).group? a = nonempty? (ofAmount a samples) := by
  rw [group?, getElem?_collect, ofBits_toBits]

theorem isSome_nonempty? (group : List Sample) : (nonempty? group).isSome ↔ group ≠ [] := by
  unfold nonempty?
  by_cases h : group = [] <;> simp [h]

theorem mem_keys_collect {samples : List Sample} {bits : UInt64} :
    bits ∈ (collect samples).keys ↔ ∃ x ∈ samples, x.amount.toBits = bits := by
  rw [Std.HashMap.mem_keys, Std.HashMap.mem_iff_isSome_getElem?, getElem?_collect,
    isSome_nonempty?, ne_eq, ofBits_eq_nil_iff, not_not]

/-! ## Amounts -/

theorem nodup_distinct (xs : List Float) : (distinct xs).Nodup := by
  induction xs with
  | nil => exact List.nodup_nil
  | cons x rest ih =>
    rw [distinct, List.nodup_cons]
    exact ⟨by simp, ih.filter _⟩

variable {samples : List Sample}

theorem mem_amounts (order : KeyOrder (collect samples)) {a : Float} :
    a ∈ order.keys.map Float.ofBits ↔ a ∈ samples.map (·.amount) := by
  simp only [List.mem_map, order.perm.mem_iff, mem_keys_collect]
  constructor
  · rintro ⟨_, ⟨x, hx, rfl⟩, rfl⟩
    exact ⟨x, hx, (Binary64.ofBits_toBits _).symm⟩
  · rintro ⟨x, hx, rfl⟩
    exact ⟨_, ⟨x, hx, rfl⟩, Binary64.ofBits_toBits _⟩

theorem nodup_amounts (order : KeyOrder (collect samples)) :
    (order.keys.map Float.ofBits).Nodup := by
  refine List.Nodup.map_on ?_ (order.perm.nodup_iff.mpr Std.HashMap.nodup_keys)
  intro bits hbits bits' hbits' h
  rw [order.perm.mem_iff, mem_keys_collect] at hbits hbits'
  obtain ⟨x, -, rfl⟩ := hbits
  obtain ⟨y, -, rfl⟩ := hbits'
  rw [Binary64.ofBits_toBits, Binary64.ofBits_toBits] at h
  rw [h]

/-- Whatever the order, the amounts are the distinct amounts of the samples. -/
theorem amounts_perm (order : KeyOrder (collect samples)) :
    (order.keys.map Float.ofBits).Perm (distinct (samples.map (·.amount))) := by
  rw [List.perm_ext_iff_of_nodup (nodup_amounts order) (nodup_distinct _)]
  intro a
  rw [mem_amounts, mem_distinct]

variable (unoptimized : List Sample)

theorem isSome_group?_collect (a : Float) :
    ((collect unoptimized).group? a).isSome = unoptimized.any fun x => decide (x.amount = a) := by
  rw [group?_collect, Bool.eq_iff_iff, isSome_nonempty?, ne_eq, ← ofBits_toBits, ofBits_eq_nil_iff,
    not_not, List.any_eq_true]
  simp only [decide_eq_true_eq]
  constructor
  · rintro ⟨x, hx, h⟩
    exact ⟨x, hx, Binary64.toBits_injective h⟩
  · rintro ⟨x, hx, h⟩
    exact ⟨x, hx, congrArg Float.toBits h⟩

/-- **The shared amounts do not depend on the order of the keys.** -/
theorem sharedAmounts_eq (order : KeyOrder (collect samples)) :
    sharedAmounts _ (collect unoptimized) order =
      TransferCost.sharedAmounts samples unoptimized := by
  unfold sharedAmounts TransferCost.sharedAmounts
  apply Binary64.mergeSort_eq_of_perm
  simp only [isSome_group?_collect]
  exact (amounts_perm order).filter _

theorem ofAmount_ne_nil {a : Float} (h : ∃ x ∈ samples, x.amount = a) :
    ofAmount a samples ≠ [] := by
  obtain ⟨x, hx, ha⟩ := h
  exact List.ne_nil_of_mem (mem_ofAmount.mpr ⟨hx, ha⟩)

/-- Both groups of a shared amount are there. -/
theorem pair?_collect {a : Float} (h : a ∈ TransferCost.sharedAmounts samples unoptimized) :
    pair? (collect samples) (collect unoptimized) a =
      some (a, ofAmount a samples, ofAmount a unoptimized) := by
  obtain ⟨ho, hu⟩ := mem_sharedAmounts.mp h
  simp only [pair?, group?_collect, nonempty?, if_neg (ofAmount_ne_nil ho),
    if_neg (ofAmount_ne_nil hu)]
  rfl

/-- **Every shared amount has a pair of groups, and no sample is lost in them.** -/
theorem sharedPairs_eq (order : KeyOrder (collect samples)) :
    sharedPairs _ (collect unoptimized) order =
      (TransferCost.sharedAmounts samples unoptimized).map fun a =>
        (a, ofAmount a samples, ofAmount a unoptimized) := by
  unfold sharedPairs
  rw [sharedAmounts_eq, ← List.filterMap_eq_map]
  apply List.filterMap_congr
  intro a ha
  exact pair?_collect unoptimized ha

end AmountGroups

/-! ## Shared amounts -/

section Shared

variable {o u : List Sample}

/-- Shared amounts are determined by their members. -/
theorem sharedAmounts_congr {o' u' : List Sample}
    (h : ∀ a, a ∈ sharedAmounts o u ↔ a ∈ sharedAmounts o' u') :
    sharedAmounts o u = sharedAmounts o' u' := by
  apply Binary64.mergeSort_eq_of_perm
  rw [List.perm_ext_iff_of_nodup ((AmountGroups.nodup_distinct _).filter _)
    ((AmountGroups.nodup_distinct _).filter _)]
  intro a
  have hmem := h a
  unfold sharedAmounts at hmem
  rwa [List.mem_mergeSort, List.mem_mergeSort] at hmem

/-- **Positive amounts ascend as numbers.** -/
theorem pairwise_lt_sharedAmounts
    (h : ∀ a ∈ sharedAmounts o u, a.isFinite = true ∧ 0.0 < a) :
    (sharedAmounts o u).Pairwise (· < ·) := by
  have hkeys : (sharedAmounts o u).Pairwise fun a b => orderKey a < orderKey b :=
    Binary64.pairwise_lt_mergeSort ((AmountGroups.nodup_distinct _).filter _)
  refine hkeys.imp_of_mem ?_
  intro a b ha hb hab
  obtain ⟨hafinite, hapos⟩ := h a ha
  obtain ⟨hbfinite, hbpos⟩ := h b hb
  rw [zero_lt_iff hafinite] at hapos
  rw [zero_lt_iff hbfinite] at hbpos
  exact Binary64.lt_of_orderKey_lt hafinite hbfinite hapos hbpos hab

end Shared

/-! ## The curve -/

namespace Scaling

open AmountGroups

variable {s : Store}

theorem pointsInOrder_eq (orders : KeyOrders s) : pointsInOrder orders = pointsOf s := by
  rw [pointsInOrder, sharedPairs_eq, List.map_map]
  rfl

theorem costsInOrder_eq (orders : KeyOrders s) (t : TransferType) :
    costsInOrder orders t = costsOfType s t := by
  rw [costsInOrder, sharedPairs_eq, List.mapM_map]
  rfl

/-- **The analysis does not depend on the orders of the hash maps.** -/
theorem inOrder_eq (orders : KeyOrders s) : inOrder orders = ofStore s := by
  rw [inOrder, pointsInOrder_eq]
  simp only [costsInOrder_eq]
  rfl

theorem points_ofStore (s : Store) : (ofStore s).value.points = pointsOf s := rfl

theorem amounts_pointsOf (s : Store) :
    (pointsOf s).map (·.amount) =
      sharedAmounts (s.samplesOfMode .optimized) (s.samplesOfMode .unoptimized) := by
  unfold pointsOf
  rw [List.map_map]
  exact List.map_id _

theorem amounts_costsOfType (s : Store) (t : TransferType) :
    (costsOfType s t).value.map (fun row => (row.transferType, row.amount)) =
      (sharedAmounts (s.samples ⟨.optimized, t⟩) (s.samples ⟨.unoptimized, t⟩)).map (t, ·) := by
  unfold costsOfType
  rw [Logged.value_mapM, List.map_map]
  rfl

theorem amount_ofSamples (optimized unoptimized : List Sample) (a : Float) :
    (ScalingPoint.ofSamples optimized unoptimized a).amount = a := rfl

theorem mem_samplesOfMode {o : Optimization} {x : Sample} :
    x ∈ s.samplesOfMode o ↔ ∃ t, x ∈ s.samples ⟨o, t⟩ := by
  unfold Store.samplesOfMode
  rw [List.mem_flatMap]
  constructor
  · rintro ⟨t, -, hx⟩
    exact ⟨t, hx⟩
  · rintro ⟨t, hx⟩
    exact ⟨t, by cases t <;> simp [TransferType.all], hx⟩

/-- The amounts of the curve ascend strictly. -/
theorem pairwise_pointsOf (s : Store) :
    (pointsOf s).Pairwise fun p q => orderKey p.amount < orderKey q.amount := by
  unfold pointsOf
  rw [List.pairwise_map]
  simp only [amount_ofSamples]
  exact Binary64.pairwise_lt_mergeSort ((nodup_distinct _).filter _)

/-- There is a sample of each mode, of whatever transfer type, with exactly this amount. -/
def IsShared (s : Store) (a : Float) : Prop :=
  ∀ o, ∃ t, ∃ x ∈ s.samples ⟨o, t⟩, x.amount.toBits = a.toBits

theorem exists_sample_iff {o : Optimization} {a : Float} :
    (∃ x ∈ s.samplesOfMode o, x.amount = a) ↔
      ∃ t, ∃ x ∈ s.samples ⟨o, t⟩, x.amount.toBits = a.toBits := by
  constructor
  · rintro ⟨x, hx, rfl⟩
    obtain ⟨t, hx⟩ := mem_samplesOfMode.mp hx
    exact ⟨t, x, hx, rfl⟩
  · rintro ⟨t, x, hx, ha⟩
    exact ⟨x, mem_samplesOfMode.mpr ⟨t, hx⟩, Binary64.toBits_injective ha⟩

theorem isShared_iff {a : Float} :
    IsShared s a ↔
      a ∈ sharedAmounts (s.samplesOfMode .optimized) (s.samplesOfMode .unoptimized) := by
  rw [mem_sharedAmounts, exists_sample_iff, exists_sample_iff]
  constructor
  · intro h
    exact ⟨h .optimized, h .unoptimized⟩
  · rintro ⟨ho, hu⟩ o
    cases o
    · exact ho
    · exact hu

/-- The efficiencies of all samples of a mode with an amount, those to single recipients first. -/
def efficienciesAt (s : Store) (o : Optimization) (a : Float) : List Float :=
  ((s.samples ⟨o, .singleRecipient⟩ ++ s.samples ⟨o, .multiWallet⟩).filter fun x =>
    decide (x.amount.toBits = a.toBits)).map (·.efficiency)

/-- Their mean: added up in this order from `-0.0`, and divided by their number. -/
def meanEfficiencyAt (s : Store) (o : Optimization) (a : Float) : Float :=
  (efficienciesAt s o a).foldl (· + ·) (-0.0) / Float.ofNat (efficienciesAt s o a).length

theorem meanEfficiencyAt_eq (s : Store) (o : Optimization) (a : Float) :
    meanEfficiencyAt s o a = meanOf (ofAmount a (s.samplesOfMode o)) (·.efficiency) := by
  have hmode :
      s.samplesOfMode o = s.samples ⟨o, .singleRecipient⟩ ++ s.samples ⟨o, .multiWallet⟩ := by
    simp [Store.samplesOfMode, TransferType.all]
  rw [← ofBits_toBits, hmode]
  rfl

/-- What a point says of the stored samples. -/
structure IsExact (s : Store) (p : ScalingPoint) : Prop where
  units : p.units = p.amount / 1000000000.0
  optimized : p.optimizedEfficiency = meanEfficiencyAt s .optimized p.amount
  unoptimized : p.unoptimizedEfficiency = meanEfficiencyAt s .unoptimized p.amount
  improvement : p.improvement = p.optimizedEfficiency - p.unoptimizedEfficiency

theorem isExact_of_mem {p : ScalingPoint} (h : p ∈ pointsOf s) : IsExact s p := by
  obtain ⟨a, -, rfl⟩ := List.mem_map.mp h
  exact ⟨rfl, (meanEfficiencyAt_eq s .optimized a).symm,
    (meanEfficiencyAt_eq s .unoptimized a).symm, rfl⟩

/-- **The curve is exact, in whatever orders the hash maps are enumerated.**  The whole analysis is
the same in all of them.  The amounts ascend strictly; they are those that a sample of either mode
has, bit for bit; and each point is made of exactly the samples with its amount. -/
theorem curve_exact (orders : KeyOrders s) :
    inOrder orders = ofStore s ∧
      (inOrder orders).value.points.Pairwise (fun p q => orderKey p.amount < orderKey q.amount) ∧
      (∀ a, a ∈ (inOrder orders).value.points.map (·.amount) ↔ IsShared s a) ∧
      ∀ p ∈ (inOrder orders).value.points, IsExact s p := by
  rw [inOrder_eq, points_ofStore]
  refine ⟨rfl, pairwise_pointsOf s, ?_, fun p hp => isExact_of_mem hp⟩
  intro a
  have hamounts : (pointsOf s).map (·.amount) =
      sharedAmounts (s.samplesOfMode .optimized) (s.samplesOfMode .unoptimized) := by
    unfold pointsOf
    rw [List.map_map]
    exact List.map_id _
  rw [hamounts, isShared_iff]

end Scaling
end TransferCost
