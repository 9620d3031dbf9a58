import TransferCost.Analysis
import TransferCost.Proofs.Intake
import TransferCost.Proofs.Sample
import TransferCost.Proofs.Scaling

/-!
# No mean is taken of nothing

A mean divides by the number of its samples.  An analysis takes means in two places: over whole
partitions, of which the check of the store says that they hold something, and over the samples of
one size, of which nothing says so but the way in which they are found.  This file watches an
analysis while it takes its means.

## 1.  Watching

`Averaging` is the monad of computations that take means.  Besides a logged result it keeps the
slices of samples of which a mean was taken.  The programs of the first section are those of the
analysis, on hash maps in any order, and `average` is their only way to a mean.

## 2.  Nothing else is computed

For each program there is a lemma on its result, which is that of the analysis itself, and one on
its slices.  `mem_slices_sufficient` says which slices these are: the partitions, and for each point
of the curve and each row of the table the samples of its size, in either mode.

## 3.  When there is an analysis

`Store.FirstShort` names the partition that is complained about if there is none, and
`Analysis.ok_iff_sufficient` joins the parts.
-/

namespace TransferCost

open Binary64

/-! ## 1.  Watching -/

/-- A logged result, and the slices of samples of which a mean was taken on the way to it. -/
@[ext] structure Averaging (α : Type) where
  result : Logged α
  slices : List (List Sample)

namespace Averaging

variable {α β : Type}

instance : Monad Averaging where
  pure a := ⟨pure a, []⟩
  bind x f := ⟨x.result >>= fun a => (f a).result, x.slices ++ (f x.result.value).slices⟩

/-- The mean of a quantity over a slice. -/
def average (slice : List Sample) (quantity : Sample → Float) : Averaging Float :=
  ⟨pure (meanOf slice quantity), [slice]⟩

/-- A step that takes no mean. -/
def aside (x : Logged α) : Averaging α :=
  ⟨x, []⟩

/-- One value for each kind of cost. -/
def perKind (f : CostKind → Averaging α) : Averaging (PerKind α) := do
  let txFee ← f .txFee
  let rent ← f .rent
  let compute ← f .compute
  let overhead ← f .overhead
  return { txFee, rent, compute, overhead }

/-- The means of a slice. -/
def means (slice : List Sample) : Averaging Means := do
  let breakdown ← perKind fun k => average slice (·.breakdown.get k)
  let efficiency ← average slice (·.efficiency)
  let totalCost ← average slice (·.totalCost)
  let timeMs ← average slice (·.timeMs)
  let accountsCreated ← average slice fun x => Float.ofNat x.accountsCreated.toNat
  let accountsRemaining ← average slice fun x => Float.ofNat x.accountsRemaining.toNat
  return {
    count := slice.length
    efficiency, totalCost, timeMs, breakdown, accountsCreated, accountsRemaining }

/-- The analysis of a transfer type. -/
def ofType (s : Store) (t : TransferType) : Averaging TypeAnalysis := do
  let optimized ← means (s.samples ⟨.optimized, t⟩)
  let unoptimized ← means (s.samples ⟨.unoptimized, t⟩)
  let means : PerMode Means := { optimized, unoptimized }
  aside <| Logged.report <| .meansTaken t
    (.ofFn fun o => (means.get o).efficiency) (.ofFn fun o => (means.get o).count)
  let improvement ← aside (Improvement.between t.key optimized unoptimized)
  return { means, improvement }

/-- The point of an amount, from its groups. -/
def point : Float × List Sample × List Sample → Averaging ScalingPoint
  | (amount, optimized, unoptimized) => do
    let o ← average optimized (·.efficiency)
    let u ← average unoptimized (·.efficiency)
    return {
      amount
      units := toUnits amount
      optimizedEfficiency := o
      unoptimizedEfficiency := u
      improvement := o - u }

/-- The row of an amount, from its groups. -/
def row (t : TransferType) : Float × List Sample × List Sample → Averaging SizeCost
  | (amount, optimized, unoptimized) => do
    let o ← average optimized (·.totalCost)
    let u ← average unoptimized (·.totalCost)
    let costReduction ← aside (reductionOrOmit (SizeCost.metric t amount) o u)
    return {
      transferType := t
      amount
      units := toUnits amount
      unoptimizedCost := u
      optimizedCost := o
      saving := u - o
      costReduction }

section Programs

open AmountGroups

variable {s : Store} (orders : Scaling.KeyOrders s)

/-- The rows of a transfer type, from hash maps. -/
def rows (t : TransferType) : Averaging (List SizeCost) :=
  (sharedPairs _ (collect (s.samples ⟨.unoptimized, t⟩)) (orders.rows t)).mapM (row t)

/-- The scaling analysis, from hash maps. -/
def scaling : Averaging Scaling := do
  let points ← (sharedPairs _ (collect (s.samplesOfMode .unoptimized)) orders.curve).mapM point
  let optimum := ScalingOptimum.ofPoints points
  aside (Logged.report (Scaling.optimumEvent points optimum))
  let single ← rows orders .singleRecipient
  let multi ← rows orders .multiWallet
  return { points, optimum, costs := single ++ multi }

/-- The analysis of stored samples that are enough. -/
def sufficient : Averaging Analysis := do
  aside (Logged.report (.analysisStarted s.size))
  let single ← ofType s .singleRecipient
  let multi ← ofType s .multiWallet
  let scaling ← scaling orders
  return {
    types := ⟨single, multi⟩
    contrast := .between single.improvement multi.improvement
    scaling }

/-- The analysis of the stored samples under a threshold. -/
def analysis (threshold : ℕ) : Averaging (Except Failure Analysis) :=
  match s.check threshold with
  | .error e => return .error e
  | .ok () => do
    let a ← sufficient orders
    return .ok a

end Programs

/-! ## 2.  Nothing else is computed -/

@[simp] theorem result_pure (a : α) : (pure a : Averaging α).result = pure a := rfl

@[simp] theorem slices_pure (a : α) : (pure a : Averaging α).slices = [] := rfl

@[simp] theorem result_bind (x : Averaging α) (f : α → Averaging β) :
    (x >>= f).result = x.result >>= fun a => (f a).result := rfl

@[simp] theorem slices_bind (x : Averaging α) (f : α → Averaging β) :
    (x >>= f).slices = x.slices ++ (f x.result.value).slices := rfl

@[simp] theorem result_average (slice : List Sample) (quantity : Sample → Float) :
    (average slice quantity).result = pure (meanOf slice quantity) := rfl

@[simp] theorem slices_average (slice : List Sample) (quantity : Sample → Float) :
    (average slice quantity).slices = [slice] := rfl

@[simp] theorem result_aside (x : Logged α) : (aside x).result = x := rfl

@[simp] theorem slices_aside (x : Logged α) : (aside x).slices = [] := rfl

instance : LawfulMonad Averaging :=
  LawfulMonad.mk' _
    (fun x => Averaging.ext (LawfulFunctor.id_map x.result) (List.append_nil _))
    (fun _ _ => Averaging.ext rfl rfl)
    (fun x _ _ => Averaging.ext (LawfulMonad.bind_assoc _ _ _) (List.append_assoc x.slices _ _))

theorem result_mapM (f : α → Averaging β) (as : List α) :
    (as.mapM f).result = as.mapM fun a => (f a).result := by
  induction as with
  | nil => rfl
  | cons a rest ih =>
    rw [List.mapM_cons, List.mapM_cons, result_bind, ← ih]
    rfl

theorem slices_mapM (f : α → Averaging β) (as : List α) :
    (as.mapM f).slices = as.flatMap fun a => (f a).slices := by
  induction as with
  | nil => rfl
  | cons a rest ih =>
    rw [List.mapM_cons, slices_bind, slices_bind, ih, slices_pure, List.append_nil,
      List.flatMap_cons]

/-- All means of a slice are taken of it. -/
theorem slices_means (slice : List Sample) :
    (means slice).slices = List.replicate 9 slice := rfl

theorem mem_slices_means {slice xs : List Sample} : xs ∈ (means slice).slices ↔ xs = slice := by
  rw [slices_means, List.mem_replicate]
  exact and_iff_right (by norm_num)

@[simp] theorem result_ofType (s : Store) (t : TransferType) :
    (ofType s t).result = TypeAnalysis.ofStore s t := rfl

theorem slices_ofType (s : Store) (t : TransferType) :
    (ofType s t).slices =
      (means (s.samples ⟨.optimized, t⟩)).slices ++ (means (s.samples ⟨.unoptimized, t⟩)).slices :=
  rfl

/-- The point of a pair, which is not looked at. -/
theorem result_point (pair : Float × List Sample × List Sample) :
    (point pair).result = pure (ScalingPoint.ofPair pair) := rfl

theorem slices_point (pair : Float × List Sample × List Sample) :
    (point pair).slices = [pair.2.1, pair.2.2] := rfl

section Programs

open AmountGroups

variable {s : Store} (orders : Scaling.KeyOrders s)

theorem result_rows (t : TransferType) : (rows orders t).result = Scaling.costsInOrder orders t :=
  result_mapM _ _

theorem result_scaling : (scaling orders).result = Scaling.ofStore s := by
  rw [← Scaling.inOrder_eq orders]
  unfold scaling Scaling.inOrder Scaling.pointsInOrder
  simp only [result_bind, result_aside, result_rows, result_pure, result_mapM, result_point,
    List.mapM_pure, pure_bind]

theorem result_sufficient : (sufficient orders).result = Analysis.ofSufficient s := by
  unfold sufficient Analysis.ofSufficient
  simp only [result_bind, result_aside, result_ofType, result_scaling, result_pure]

/-- **Watching changes nothing.** -/
theorem result_analysis (threshold : ℕ) :
    (analysis orders threshold).result = Analysis.ofStore s threshold := by
  unfold analysis Analysis.ofStore
  cases s.check threshold with
  | error e => rfl
  | ok done => rw [result_bind, result_sufficient, map_eq_pure_bind]; rfl

end Programs

/-! ### The slices -/

section Slices

open AmountGroups

/-- The samples of one size in two lists, as the slices of points and rows. -/
def IsGroup (optimized unoptimized slice : List Sample) : Prop :=
  ∃ a ∈ sharedAmounts optimized unoptimized,
    slice = ofAmount a optimized ∨ slice = ofAmount a unoptimized

/-- A slice of which an analysis takes a mean: a partition, the samples of a mode that have one
size, or the samples of a partition that have one size. -/
def IsAveraged (s : Store) (slice : List Sample) : Prop :=
  (∃ p, slice = s.samples p) ∨
    IsGroup (s.samplesOfMode .optimized) (s.samplesOfMode .unoptimized) slice ∨
    ∃ t, IsGroup (s.samples ⟨.optimized, t⟩) (s.samples ⟨.unoptimized, t⟩) slice

variable {s : Store} {slice : List Sample} (orders : Scaling.KeyOrders s)

theorem exists_transferType {P : TransferType → Prop} :
    (∃ t, P t) ↔ P .singleRecipient ∨ P .multiWallet := by
  constructor
  · rintro ⟨t, ht⟩
    cases t
    · exact .inl ht
    · exact .inr ht
  · rintro (h | h) <;> exact ⟨_, h⟩

theorem exists_partition {P : Partition → Prop} :
    (∃ p, P p) ↔ ∃ t, P ⟨.optimized, t⟩ ∨ P ⟨.unoptimized, t⟩ := by
  constructor
  · rintro ⟨⟨o, t⟩, hp⟩
    cases o
    · exact ⟨t, .inl hp⟩
    · exact ⟨t, .inr hp⟩
  · rintro ⟨t, h | h⟩ <;> exact ⟨_, h⟩

/-- Whoever takes a mean of either group of each pair takes them of the groups of shared sizes. -/
theorem mem_flatMap_sharedPairs {o u : List Sample} (order : KeyOrder (collect o)) :
    (slice ∈ (sharedPairs _ (collect u) order).flatMap fun pair => [pair.2.1, pair.2.2]) ↔
      IsGroup o u slice := by
  rw [sharedPairs_eq, List.flatMap_map]
  simp only [List.mem_flatMap, List.mem_cons, List.not_mem_nil, or_false]
  rfl

theorem mem_slices_rows {t : TransferType} :
    slice ∈ (rows orders t).slices ↔
      IsGroup (s.samples ⟨.optimized, t⟩) (s.samples ⟨.unoptimized, t⟩) slice := by
  unfold rows
  rw [slices_mapM]
  exact mem_flatMap_sharedPairs (orders.rows t)

theorem mem_slices_scaling :
    slice ∈ (scaling orders).slices ↔
      IsGroup (s.samplesOfMode .optimized) (s.samplesOfMode .unoptimized) slice ∨
        ∃ t, IsGroup (s.samples ⟨.optimized, t⟩) (s.samples ⟨.unoptimized, t⟩) slice := by
  unfold scaling
  simp only [slices_bind, slices_aside, slices_pure, List.nil_append, List.append_nil,
    List.mem_append, mem_slices_rows, slices_mapM, slices_point]
  rw [mem_flatMap_sharedPairs, exists_transferType]

theorem mem_slices_sufficient : slice ∈ (sufficient orders).slices ↔ IsAveraged s slice := by
  unfold sufficient
  simp only [slices_bind, slices_aside, slices_pure, List.nil_append, List.append_nil,
    List.mem_append, mem_slices_scaling, slices_ofType, mem_slices_means]
  unfold IsAveraged
  simp only [exists_partition, exists_transferType, or_assoc]

/-- **A slice of which a mean is taken holds something**, if each partition does. -/
theorem IsAveraged.ne_nil (hs : ∀ p, s.samples p ≠ []) (h : IsAveraged s slice) : slice ≠ [] := by
  have hgroup {o u : List Sample} (hg : IsGroup o u slice) : slice ≠ [] := by
    obtain ⟨a, ha, hslice⟩ := hg
    obtain ⟨ho, hu⟩ := mem_sharedAmounts.mp ha
    rcases hslice with rfl | rfl
    · exact ofAmount_ne_nil ho
    · exact ofAmount_ne_nil hu
  rcases h with ⟨p, rfl⟩ | hg | ⟨t, hg⟩
  · exact hs p
  · exact hgroup hg
  · exact hgroup hg

end Slices

end Averaging

/-! ## 3.  When there is an analysis -/

/-- A positive count is positive as a double, however great it is. -/
theorem zero_lt_ofNat {n : ℕ} (hn : 0 < n) : 0.0 < Float.ofNat n := by
  rcases rounded_cases false (Nat.cast_nonneg n) with ⟨-, m, e, heq, -⟩ | ⟨-, heq⟩
  · have hcount : (Float.ofNat n).isFinite = true :=
      isFinite_iff.mpr ⟨_, _, _, (value_ofNat n).trans heq⟩
    rw [zero_lt_iff hcount, toRat_ofNat hcount]
    exact one_pos.trans_le (one_le_nearest hn)
  · exact lt_of_infinite isFinite_zero ((value_ofNat n).trans heq)

namespace Store

variable {s : Store} {threshold : ℕ}

/-- The first partition with fewer samples than each partition needs, in the order of
`Partition.all_eq`. -/
structure FirstShort (s : Store) (threshold : ℕ) (p : Partition) : Prop where
  short : (s.samples p).length < max 1 threshold
  before : ∀ q, Intake.Precedes q p → max 1 threshold ≤ (s.samples q).length

theorem required_eq (threshold : ℕ) : required threshold = max 1 threshold :=
  Nat.max_comm _ _

/-- Each partition holds as many samples as the threshold says, and at least one. -/
def HoldsEnough (s : Store) (threshold : ℕ) : Prop :=
  ∀ p, max 1 threshold ≤ (s.samples p).length

theorem isSufficient_iff_holdsEnough :
    s.isSufficient threshold = true ↔ s.HoldsEnough threshold := by
  rw [isSufficient_iff, required_eq]
  rfl

theorem HoldsEnough.ne_nil (h : s.HoldsEnough threshold) (p : Partition) : s.samples p ≠ [] :=
  List.ne_nil_of_length_pos ((le_max_left 1 threshold).trans (h p))

theorem HoldsEnough.check (h : s.HoldsEnough threshold) : s.check threshold = .ok () :=
  check_eq_ok_iff.mpr (isSufficient_iff_holdsEnough.mpr h)

/-- The check complains about the first short partition. -/
theorem check_of_not_holdsEnough (h : ¬ s.HoldsEnough threshold) :
    ∃ p, s.FirstShort threshold p ∧
      s.check threshold =
        .error (.insufficientData p (s.samples p).length (max 1 threshold)) := by
  cases hshort : s.short? threshold with
  | none =>
    have hsufficient : s.isSufficient threshold = true := by
      rw [isSufficient, hshort]
      rfl
    exact absurd (isSufficient_iff_holdsEnough.mp hsufficient) h
  | some p =>
    refine ⟨p, ?_, by rw [check, hshort, required_eq]⟩
    unfold short? at hshort
    rw [List.find?_eq_some_iff_append] at hshort
    obtain ⟨hp, front, back, hall, hfront⟩ := hshort
    rw [decide_eq_true_eq, required_eq] at hp
    refine ⟨hp, fun q hq => ?_⟩
    have hlong := hfront q (hq.mem_front hall)
    rwa [Bool.not_eq_true', decide_eq_false_iff_not, not_lt, required_eq] at hlong

end Store

section Analysis

variable {s : Store} {threshold : ℕ} (orders : Scaling.KeyOrders s)

theorem Analysis.value_of_holdsEnough (h : s.HoldsEnough threshold) :
    (ofStore s threshold).value = .ok (ofSufficient s).value := by
  rw [ofStore, h.check]
  rfl

theorem Analysis.value_of_not_holdsEnough (h : ¬ s.HoldsEnough threshold) :
    ∃ p, s.FirstShort threshold p ∧ (ofStore s threshold).value =
      .error (.insufficientData p (s.samples p).length (max 1 threshold)) := by
  obtain ⟨p, hfirst, hcheck⟩ := Store.check_of_not_holdsEnough h
  refine ⟨p, hfirst, ?_⟩
  rw [ofStore, hcheck]
  rfl

theorem Analysis.exists_ok_iff :
    (∃ a, (ofStore s threshold).value = .ok a) ↔ s.HoldsEnough threshold := by
  constructor
  · rintro ⟨a, ha⟩
    by_contra hnot
    obtain ⟨p, -, herror⟩ := value_of_not_holdsEnough hnot
    rw [herror] at ha
    exact absurd ha (by simp)
  · exact fun h => ⟨_, value_of_holdsEnough h⟩

/-- An analysis that fails takes no mean at all. -/
theorem Averaging.mem_slices_analysis {slice : List Sample} :
    slice ∈ (analysis orders threshold).slices ↔ s.HoldsEnough threshold ∧ IsAveraged s slice := by
  unfold analysis
  by_cases h : s.HoldsEnough threshold
  · rw [h.check]
    simp only [slices_bind, slices_pure, List.append_nil, mem_slices_sufficient, h, true_and]
  · obtain ⟨p, -, hcheck⟩ := Store.check_of_not_holdsEnough h
    rw [hcheck]
    exact iff_of_false List.not_mem_nil fun hboth => h hboth.1

end Analysis

/-- **An analysis is made of sufficient data, and of nothing else.**  Whatever the orders of the
hash maps are:
* watched or not, the analysis is the same;
* it succeeds if and only if each partition holds as many samples as the threshold says, and at
  least one, and that is what it means to be sufficient;
* otherwise it complains about the first short partition, with its size and the size that it needs;
* if it succeeds, the slices of which it takes means are those of `Averaging.IsAveraged`, and if it
  fails there are none;
* each of these slices holds something, so that no mean divides by zero. -/
theorem Analysis.ok_iff_sufficient (s : Store) (threshold : ℕ) (orders : Scaling.KeyOrders s) :
    (Averaging.analysis orders threshold).result = ofStore s threshold ∧
      ((∃ a, (ofStore s threshold).value = .ok a) ↔
        ∀ p, max 1 threshold ≤ (s.samples p).length) ∧
      (s.isSufficient threshold = true ↔ ∀ p, max 1 threshold ≤ (s.samples p).length) ∧
      ((¬ ∀ p, max 1 threshold ≤ (s.samples p).length) → ∃ p, s.FirstShort threshold p ∧
        (ofStore s threshold).value =
          .error (.insufficientData p (s.samples p).length (max 1 threshold))) ∧
      (∀ slice, slice ∈ (Averaging.analysis orders threshold).slices ↔
        (∀ p, max 1 threshold ≤ (s.samples p).length) ∧ Averaging.IsAveraged s slice) ∧
      ∀ slice ∈ (Averaging.analysis orders threshold).slices,
        slice ≠ [] ∧ 0.0 < Float.ofNat slice.length := by
  refine ⟨Averaging.result_analysis orders threshold, exists_ok_iff,
    Store.isSufficient_iff_holdsEnough, value_of_not_holdsEnough,
    fun slice => Averaging.mem_slices_analysis orders, ?_⟩
  intro slice hslice
  obtain ⟨henough, haveraged⟩ := (Averaging.mem_slices_analysis orders).mp hslice
  have hne := haveraged.ne_nil henough.ne_nil
  exact ⟨hne, zero_lt_ofNat (List.length_pos_iff.mpr hne)⟩

end TransferCost
