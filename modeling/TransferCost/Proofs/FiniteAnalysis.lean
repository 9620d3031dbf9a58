import TransferCost.Proofs.Binary64.NotANumber
import TransferCost.Proofs.Means
import TransferCost.Proofs.Quantities
import TransferCost.Proofs.Reload
import TransferCost.Proofs.ResultDocument
import TransferCost.Proofs.Scaling

/-!
# When an analysis is finite

Each sample is checked alone, and none of the checks bounds its costs or its time from above.  So
the analysis of valid samples need not consist of finite numbers.  This file says exactly when it
does.

## 1.  Samples

Of the quantities of a valid sample, the efficiency and the numbers of accounts are of moderate
size, and amount, total cost and time are not negative.

## 2.  Means

The means of moderate quantities are finite.  All others are so if and only if the sums that they
are taken of do not overflow: `Means.allFinite_iff`.

## 3.  Reductions

Only a denominator of exactly zero is guarded against.  Any other one gives a reduction, which is
finite if and only if the optimized mean, in percent of the unoptimized one, is so:
`isFinite_reductionOf_iff`.  A reduction is never above one hundred, so differences of finite ones
do not overflow.

## 4.  Sizes

The samples of one size are among those of their partition, so their means do not overflow if those
of the partition do not.  The curve is made of efficiencies and amounts, and is always finite.

## 5.  The whole analysis

`Store.StaysInRange` collects the conditions, and `Analysis.finite_iff_staysInRange` is the theorem.
-/

namespace TransferCost

open Binary64

/-! ## 1.  Samples -/

/-- A number of accounts, as a double. -/
theorem atMost_count (n : UInt32) : AtMost (2 ^ 32) (Float.ofNat n.toNat) := by
  refine atMost_of_value (value_ofNat_signed n.toNat) (by norm_num) ?_
  rw [Nat.abs_cast]
  exact_mod_cast n.toNat_lt.le

namespace Sample

variable {x : Sample}

/-- The received part of an amount is between nought and one hundred percent, up to rounding. -/
theorem atMost_efficiencyOf {received amount : Float} (ha : amount.isFinite = true)
    (hpos : 0.0 < amount) (hr : 0.0 ≤ received) (hle : received ≤ amount) :
    AtMost (2 ^ 7) (efficiencyOf received amount) := by
  have hfinite := isFinite_of_le_of_le isFinite_zero ha hr hle
  rw [zero_lt_iff ha] at hpos
  rw [zero_le_iff hfinite] at hr
  rw [le_iff hfinite ha] at hle
  have hratio : AtMost (2 ^ 0) (received / amount) := by
    refine atMost_of_value (value_div hfinite ha hpos.ne') (by norm_num) ?_
    rw [abs_of_nonneg (div_nonneg hr hpos.le), pow_zero]
    exact (div_le_one hpos).mpr hle
  refine atMost_of_value (value_mul hratio.1 isFinite_hundred) (by norm_num) ?_
  have hone := hratio.2
  rw [toRat_hundred, abs_mul, abs_of_pos (by norm_num : (0 : ℚ) < 100)]
  norm_num at hone ⊢
  linarith

/-- Where a difference is below the tolerance, so is the exact one, up to rounding. -/
theorem abs_sub_le_one {y z : Float} (hy : y.isFinite = true) (hz : z.isFinite = true)
    (h : ¬ tolerance < (y - z).abs) : |toRat y - toRat z| ≤ 1 := by
  have hvalue := value_sub hy hz
  have hnumber : (y - z).abs.isNaN = false := by
    rw [isNaN_abs]
    exact isNaN_of_roundedSigned hvalue
  have hfinite : (y - z).isFinite = true := by
    refine isFinite_of_float_abs_le isFinite_tolerance ?_
    exact (not_lt_iff (isNaN_of_isFinite isFinite_tolerance) hnumber).mp h
  rw [lt_iff isFinite_tolerance (isFinite_abs hfinite), toRat_abs, toRat_eq_near hvalue hfinite,
    abs_near, not_lt, toRat_tolerance] at h
  by_contra hlarge
  rw [not_le] at hlarge
  have hone : 1 ≤ nearest |toRat y - toRat z| := by
    have hmono := nearest_mono zero_le_one hlarge.le
    exact (by exact_mod_cast one_le_nearest one_pos : (1 : ℚ) ≤ nearest 1).trans hmono
  norm_num at h
  linarith

/-- **The efficiency of a valid sample is of moderate size.** -/
theorem atMost_efficiency (h : x.IsValid) (hfinite : x.efficiency.isFinite = true) :
    AtMost (2 ^ 32) x.efficiency := by
  have hrules := (isValid_iff x).mp h
  have hexpected := atMost_efficiencyOf hrules.amount.1 hrules.amount.2 hrules.received.1
    hrules.received.2
  have hclose := abs_sub_le_one hfinite hexpected.1 hrules.efficiency
  refine ⟨hfinite, ?_⟩
  have htriangle := abs_sub_abs_le_abs_sub (toRat x.efficiency)
    (toRat (efficiencyOf x.receivedAmount x.amount))
  have hbound := hexpected.2
  norm_num at hbound ⊢
  linarith

theorem totalCost_nonneg (h : x.IsValid) : 0 ≤ toRat x.totalCost := by
  have htotal := ((isValid_iff x).mp h).total
  exact ((zero_lt_iff htotal.1).mp htotal.2).le

theorem timeMs_nonneg (h : x.IsValid) : 0 ≤ toRat x.timeMs := by
  have htime := ((isValid_iff x).mp h).time
  exact (zero_le_iff htime.1).mp htime.2

end Sample

/-! ## 2.  Means -/

/-- No sum overflows that a mean cost or a mean time is taken of. -/
structure HasFiniteSums (samples : List Sample) : Prop where
  cost : (sum (samples.map (·.totalCost))).isFinite = true
  time : (sum (samples.map (·.timeMs))).isFinite = true
  share : ∀ k, (sum (samples.map (·.breakdown.get k))).isFinite = true

section Means

variable {samples : List Sample} {quantity : Sample → Float}

theorem isFinite_meanOf_iff (hne : samples ≠ []) :
    (meanOf samples quantity).isFinite = true ↔
      (sum (samples.map quantity)).isFinite = true :=
  isFinite_mean_iff (by rwa [ne_eq, List.map_eq_nil_iff])

theorem atMost_meanOf (hne : samples ≠ []) (h : ∀ x ∈ samples, AtMost (2 ^ 32) (quantity x)) :
    AtMost (2 ^ 100) (meanOf samples quantity) :=
  AtMost.mean (by rwa [ne_eq, List.map_eq_nil_iff]) (List.forall_mem_map.mpr h)

theorem meanOf_nonneg (hne : samples ≠ []) (h : ∀ x ∈ samples, 0 ≤ toRat (quantity x))
    (hfinite : (meanOf samples quantity).isFinite = true) : 0 ≤ toRat (meanOf samples quantity) :=
  mean_nonneg (by rwa [ne_eq, List.map_eq_nil_iff]) (List.forall_mem_map.mpr h) hfinite

/-- The samples are valid, and each of their quantities is a finite number. -/
def AreSound (samples : List Sample) : Prop :=
  ∀ x ∈ samples, x.IsValid ∧ x.HasFiniteQuantities

theorem AreSound.atMost_efficiency (h : AreSound samples) :
    ∀ x ∈ samples, AtMost (2 ^ 32) x.efficiency := by
  intro x hx
  exact Sample.atMost_efficiency (h x hx).1 ((h x hx).2 _ (by simp [Sample.quantities]))

/-- **The means are finite if and only if the sums of costs and times are.** -/
theorem Means.allFinite_iff (hne : samples ≠ []) (h : AreSound samples) :
    AllFinite (Means.ofSamples samples).quantities ↔ HasFiniteSums samples := by
  have hefficiency := (atMost_meanOf hne h.atMost_efficiency).1
  have hcreated := (atMost_meanOf hne fun x _ => atMost_count x.accountsCreated).1
  have hremaining := (atMost_meanOf hne fun x _ => atMost_count x.accountsRemaining).1
  simp only [quantities, ofSamples, allFinite_append, allFinite_cons, allFinite_nil, allFinite_map,
    PerKind.get_ofFn, hefficiency, hcreated, hremaining, isFinite_meanOf_iff hne, true_and,
    and_true]
  constructor
  · rintro ⟨⟨hcost, htime⟩, hshare⟩
    exact ⟨hcost, htime, fun k => hshare k k.mem_all⟩
  · intro hsums
    exact ⟨⟨hsums.cost, hsums.time⟩, fun k _ => hsums.share k⟩

end Means

/-! ## 3.  Reductions -/

/-- One quantity in percent of another one. -/
def percentOf (optimized unoptimized : Float) : Float :=
  100.0 * (optimized / unoptimized)

/-- There is no reduction, because the denominator is zero, or it is a finite percentage. -/
def AreComparable (optimized unoptimized : Float) : Prop :=
  (unoptimized == 0.0) = false → (percentOf optimized unoptimized).isFinite = true

section Reduction

variable {q : Float}

theorem atMost_hundred_mul {x : Float} {k : ℕ} (hk : 7 + k < 1024) (hx : AtMost (2 ^ k) x) :
    AtMost (2 ^ (7 + k)) (100.0 * x) := by
  refine atMost_of_value (value_mul isFinite_hundred hx.1) hk ?_
  rw [toRat_hundred, abs_mul, pow_add]
  exact mul_le_mul (by norm_num [abs_of_pos]) hx.2 (abs_nonneg _) (by positivity)

/-- Next to a large number, one is lost. -/
theorem toRat_one_sub_of_large (hq : q.isFinite = true) (hlarge : 2 ^ 62 ≤ |toRat q|) :
    (1.0 - q).isFinite = true ∧ toRat (1.0 - q) = -toRat q := by
  have hvalue := value_sub isFinite_one hq
  have habsorbed : near (toRat 1.0 - toRat q) = -toRat q := by
    have h := near_toRat_add (isFinite_neg hq) (d := 1) (by rwa [toRat_neg, abs_neg]) (by norm_num)
    rwa [toRat_neg, neg_add_eq_sub, ← toRat_one] at h
  have hfinite : (1.0 - q).isFinite = true := by
    rw [isFinite_iff_near_lt hvalue, habsorbed, abs_neg]
    exact abs_toRat_lt hq
  exact ⟨hfinite, (toRat_eq_near hvalue hfinite).trans habsorbed⟩

/-- **A reduction is finite if and only if the percentage is.**  Up to `2 ^ 62` both are, and a
larger number only changes its sign. -/
theorem isFinite_reduction_iff :
    (100.0 * (1.0 - q)).isFinite = true ↔ (100.0 * q).isFinite = true := by
  by_cases hq : q.isFinite = true
  · rcases le_total (2 ^ 62) |toRat q| with hlarge | hsmall
    · obtain ⟨hfinite, hneg⟩ := toRat_one_sub_of_large hq hlarge
      rw [isFinite_iff_near_lt (value_mul isFinite_hundred hfinite),
        isFinite_iff_near_lt (value_mul isFinite_hundred hq), hneg, mul_neg, near_neg, abs_neg]
    · have hone : AtMost (2 ^ 62) 1.0 := ⟨isFinite_one, by norm_num⟩
      have hdiff := hone.sub (by norm_num) ⟨hq, hsmall⟩
      exact iff_of_true (atMost_hundred_mul (by norm_num) hdiff).1
        (atMost_hundred_mul (by norm_num) ⟨hq, hsmall⟩).1
  · refine iff_of_false (fun h => hq ?_) (fun h => hq (isFinite_of_mul h).2)
    exact (isFinite_of_sub (isFinite_of_mul h).2).2

/-- What is not negative reduces by no more than one hundred percent. -/
theorem reduction_le (hq : 0 ≤ toRat q) (h : (100.0 * (1.0 - q)).isFinite = true) :
    toRat (100.0 * (1.0 - q)) ≤ 100 := by
  obtain ⟨-, hdiff⟩ := isFinite_of_mul h
  obtain ⟨-, hq'⟩ := isFinite_of_sub hdiff
  have hone : toRat (1.0 - q) ≤ 1 := by
    rw [toRat_eq_near (value_sub isFinite_one hq') hdiff, ← toRat_one]
    exact near_le_toRat isFinite_one (by linarith)
  rw [toRat_eq_near (value_mul isFinite_hundred hdiff) h, ← toRat_hundred]
  refine near_le_toRat isFinite_hundred ?_
  rw [toRat_hundred]
  linarith

end Reduction

theorem allFinite_reductionOrOmit {metric : String} {o u : Float} :
    AllFinite (reductionOrOmit metric o u).value.toList ↔ AreComparable o u := by
  rw [value_reductionOrOmit, allFinite_toList]
  unfold AreComparable percentOf
  rw [← isFinite_reduction_iff]
  by_cases h : (u == 0.0) = true <;> simp [h, reductionOf]

theorem allFinite_shareReduction {o u : Float} :
    AllFinite (shareReduction o u).toList ↔
      (tolerance < u → (percentOf o u).isFinite = true) := by
  unfold shareReduction percentOf
  rw [allFinite_toList, ← isFinite_reduction_iff]
  by_cases h : tolerance < u <;> simp [h, reductionOf]

/-- Means of optimized and unoptimized samples between which every reduction is finite. -/
structure HaveFiniteRatios (optimized unoptimized : Means) : Prop where
  cost : AreComparable optimized.totalCost unoptimized.totalCost
  time : AreComparable optimized.timeMs unoptimized.timeMs
  share : ∀ k, tolerance < unoptimized.breakdown.get k →
    (percentOf (optimized.breakdown.get k) (unoptimized.breakdown.get k)).isFinite = true

/-- **An improvement is finite if and only if the ratios are.** -/
theorem Improvement.allFinite_iff (label : String) {o u : Means}
    (ho : AtMost (2 ^ 100) o.efficiency) (hu : AtMost (2 ^ 100) u.efficiency) :
    AllFinite (Improvement.between label o u).value.quantities ↔ HaveFiniteRatios o u := by
  have hefficiency := (ho.sub (by norm_num) hu).1
  simp only [between, quantities, Logged.value_bind, Logged.value_pure, allFinite_cons,
    allFinite_append, allFinite_flatMap, hefficiency, PerKind.get_ofFn, allFinite_reductionOrOmit,
    allFinite_shareReduction, true_and]
  constructor
  · rintro ⟨⟨hcost, htime⟩, hshare⟩
    exact ⟨hcost, htime, fun k => hshare k k.mem_all⟩
  · intro h
    exact ⟨⟨h.cost, h.time⟩, fun k _ => h.share k⟩

/-! Differences of reductions. -/

/-- A result that is at most one hundred greater than a double is finite. -/
theorem isFinite_of_abs_le_add {x z : Float} {s : Bool} {q : ℚ} (h : value z = roundedSigned s q)
    (hx : x.isFinite = true) (hq : |q| ≤ |toRat x| + 100) : z.isFinite = true := by
  rcases le_total (2 ^ 62) |toRat x| with hlarge | hsmall
  · have habsorbed := near_toRat_add (isFinite_abs hx) (d := 100)
      (by rwa [toRat_abs, abs_abs]) (by norm_num)
    rw [toRat_abs] at habsorbed
    rw [isFinite_iff_near_lt h, abs_near]
    rw [near_of_nonneg (by positivity)] at habsorbed
    calc nearest |q| ≤ nearest (|toRat x| + 100) := nearest_mono (abs_nonneg q) hq
      _ = |toRat x| := habsorbed
      _ < 2 ^ (1024 : ℤ) := abs_toRat_lt hx
  · refine (atMost_of_value (k := 63) h (by norm_num) ?_).1
    norm_num at hsmall ⊢
    linarith

theorem isFinite_sub_of_le_hundred {x y : Float} (hx : x.isFinite = true) (hy : y.isFinite = true)
    (hx' : toRat x ≤ 100) (hy' : toRat y ≤ 100) : (x - y).isFinite = true := by
  have hvalue := value_sub hx hy
  rcases le_total (toRat y) (toRat x) with h | h
  · refine isFinite_of_abs_le_add hvalue hy ?_
    rw [abs_of_nonneg (by linarith)]
    linarith [neg_abs_le (toRat y)]
  · refine isFinite_of_abs_le_add hvalue hx ?_
    rw [abs_of_nonpos (by linarith)]
    linarith [neg_abs_le (toRat x)]

theorem reductionOrOmit_le {metric : String} {o u : Float} (ho : o.isFinite = true)
    (hu : u.isFinite = true) (ho' : 0 ≤ toRat o) (hu' : 0 ≤ toRat u) :
    ∀ r ∈ (reductionOrOmit metric o u).value, r.isFinite = true → toRat r ≤ 100 := by
  intro r hr hfinite
  rw [value_reductionOrOmit] at hr
  split_ifs at hr with hzero
  · exact absurd hr (by simp)
  · obtain rfl := Option.some_inj.mp hr
    rw [beq_zero_iff hu] at hzero
    obtain ⟨-, hdiff⟩ := isFinite_of_mul hfinite
    obtain ⟨-, hq⟩ := isFinite_of_sub hdiff
    refine reduction_le ?_ hfinite
    rw [toRat_eq_near (value_div ho hu hzero) hq]
    exact near_nonneg (div_nonneg ho' hu')

/-- What bounds an improvement from above. -/
structure Improvement.IsBounded (i : Improvement) : Prop where
  efficiency : AtMost (2 ^ 101) i.efficiency
  cost : ∀ r ∈ i.costReduction, r.isFinite = true → toRat r ≤ 100
  time : ∀ r ∈ i.timeReduction, r.isFinite = true → toRat r ≤ 100

theorem allFinite_difference {multi single : Option Float} (hm : AllFinite multi.toList)
    (hs : AllFinite single.toList) (hm' : ∀ r ∈ multi, r.isFinite = true → toRat r ≤ 100)
    (hs' : ∀ r ∈ single, r.isFinite = true → toRat r ≤ 100) :
    AllFinite (difference multi single).toList := by
  rw [allFinite_toList] at hm hs ⊢
  rintro d hd
  cases multi with
  | none => exact absurd hd (by simp [difference])
  | some m =>
    cases single with
    | none => exact absurd hd (by simp [difference])
    | some s =>
      obtain rfl : m - s = d := Option.some_inj.mp hd
      exact isFinite_sub_of_le_hundred (hm m rfl) (hs s rfl) (hm' m rfl (hm m rfl))
        (hs' s rfl (hs s rfl))

/-- **The contrast of finite improvements is finite.** -/
theorem Contrast.allFinite_between {single multi : Improvement} (hs : single.IsBounded)
    (hm : multi.IsBounded) (hs' : AllFinite single.quantities) (hm' : AllFinite multi.quantities) :
    AllFinite (Contrast.between single multi).quantities := by
  simp only [Improvement.quantities, allFinite_cons, allFinite_append] at hs' hm'
  obtain ⟨-, ⟨hcost, htime⟩, -⟩ := hs'
  obtain ⟨-, ⟨hcost', htime'⟩, -⟩ := hm'
  simp only [between, quantities, allFinite_cons, allFinite_append]
  exact ⟨(hm.efficiency.sub (by norm_num) hs.efficiency).1,
    allFinite_difference hcost' hcost hm.cost hs.cost,
    allFinite_difference htime' htime hm.time hs.time⟩

/-! ## 4.  Sizes -/

section Sizes

variable {o u : List Sample} {a : Float}

theorem AreSound.ofAmount {samples : List Sample} (h : AreSound samples) (a : Float) :
    AreSound (ofAmount a samples) :=
  fun x hx => h x (mem_ofAmount.mp hx).1

/-- A shared amount is an amount of samples, so it is finite, and so is its number of units. -/
theorem isFinite_sharedAmount (ho : AreSound o) (ha : a ∈ sharedAmounts o u) :
    a.isFinite = true ∧ (toUnits a).isFinite = true := by
  obtain ⟨⟨x, hx, rfl⟩, -⟩ := mem_sharedAmounts.mp ha
  have hfinite := (ho x hx).2 _ (by simp [Sample.quantities] : x.amount ∈ x.quantities)
  exact ⟨hfinite, (div_ofNat (n := 1000000000) hfinite (by norm_num)).1⟩

theorem ofAmount_ne_nil_of_mem (ha : a ∈ sharedAmounts o u) :
    ofAmount a o ≠ [] ∧ ofAmount a u ≠ [] := by
  obtain ⟨ho, hu⟩ := mem_sharedAmounts.mp ha
  exact ⟨AmountGroups.ofAmount_ne_nil ho, AmountGroups.ofAmount_ne_nil hu⟩

/-- **Every point of the curve is finite.** -/
theorem ScalingPoint.allFinite_ofSamples (ho : AreSound o) (hu : AreSound u)
    (ha : a ∈ sharedAmounts o u) : AllFinite (ScalingPoint.ofSamples o u a).quantities := by
  obtain ⟨hamount, hunits⟩ := isFinite_sharedAmount ho ha
  obtain ⟨hne, hne'⟩ := ofAmount_ne_nil_of_mem ha
  have hoptimized := atMost_meanOf hne (ho.ofAmount a).atMost_efficiency
  have hunoptimized := atMost_meanOf hne' (hu.ofAmount a).atMost_efficiency
  have himprovement := hoptimized.sub (by norm_num) hunoptimized
  simp only [quantities, ofSamples, allFinite_cons, allFinite_nil, and_true]
  exact ⟨hamount, hunits, hoptimized.1, hunoptimized.1, himprovement.1⟩

theorem mem_of_better {best : Option ScalingPoint} {points : List ScalingPoint} {p : ScalingPoint}
    (h : points.foldl better best = some p) : best = some p ∨ p ∈ points := by
  induction points generalizing best with
  | nil => exact .inl h
  | cons x rest ih =>
    rcases ih h with hx | hrest
    · unfold better at hx
      split at hx
      · exact .inr (Option.some_inj.mp hx ▸ List.mem_cons_self)
      · split_ifs at hx
        · exact .inr (Option.some_inj.mp hx ▸ List.mem_cons_self)
        · exact .inl hx
    · exact .inr (List.mem_cons_of_mem x hrest)

/-- The optimum is one of the points. -/
theorem ScalingOptimum.allFinite_ofPoints {points : List ScalingPoint}
    (h : ∀ p ∈ points, AllFinite p.quantities) :
    ∀ o ∈ ScalingOptimum.ofPoints points, AllFinite o.quantities := by
  intro o ho
  obtain ⟨p, hp, rfl⟩ := Option.map_eq_some_iff.mp ho
  have hmem : p ∈ points := (mem_of_better hp).resolve_left (by simp)
  have hfinite := h p hmem
  simp only [ScalingPoint.quantities, quantities, allFinite_cons, allFinite_nil] at hfinite ⊢
  obtain ⟨hamount, hunits, -, -, himprovement⟩ := hfinite
  exact ⟨hamount, hunits, himprovement⟩

/-- The mean cost of the samples of one amount does not overflow if the sum of all costs does
not. -/
theorem meanOf_ofAmount {samples : List Sample} (h : AreSound samples)
    (hne : ofAmount a samples ≠ [])
    (hsum : (sum (samples.map (·.totalCost))).isFinite = true) :
    (meanOf (ofAmount a samples) (·.totalCost)).isFinite = true ∧
      0 ≤ toRat (meanOf (ofAmount a samples) (·.totalCost)) := by
  have hsub : ((ofAmount a samples).map (·.totalCost)).Sublist (samples.map (·.totalCost)) :=
    List.filter_sublist.map _
  have hpart := sum_of_sublist hsub
    (List.forall_mem_map.mpr fun x hx => Sample.totalCost_nonneg (h x hx).1) hsum
  have hfinite := (isFinite_meanOf_iff hne).mpr hpart.1
  exact ⟨hfinite, meanOf_nonneg hne
    (fun x hx => Sample.totalCost_nonneg (h.ofAmount a x hx).1) hfinite⟩

theorem isFinite_sub_of_nonneg {x y : Float} (hx : x.isFinite = true) (hy : y.isFinite = true)
    (hx' : 0 ≤ toRat x) (hy' : 0 ≤ toRat y) : (x - y).isFinite = true := by
  have hvalue := value_sub hx hy
  rcases le_total (toRat y) (toRat x) with h | h
  · refine isFinite_of_abs_le hvalue hx ?_
    rw [abs_of_nonneg (by linarith), abs_of_nonneg hx']
    linarith
  · refine isFinite_of_abs_le hvalue hy ?_
    rw [abs_of_nonpos (by linarith), abs_of_nonneg hy']
    linarith

/-- **A row is finite if and only if its mean costs are comparable.** -/
theorem SizeCost.allFinite_iff {t : TransferType} (ho : AreSound o) (hu : AreSound u)
    (ho' : HasFiniteSums o) (hu' : HasFiniteSums u) (ha : a ∈ sharedAmounts o u) :
    AllFinite (SizeCost.ofSamples t o u a).value.quantities ↔
      AreComparable (meanOf (ofAmount a o) (·.totalCost))
        (meanOf (ofAmount a u) (·.totalCost)) := by
  obtain ⟨hamount, hunits⟩ := isFinite_sharedAmount ho ha
  obtain ⟨hne, hne'⟩ := ofAmount_ne_nil_of_mem ha
  obtain ⟨hoptimized, hpos⟩ := meanOf_ofAmount ho hne ho'.cost
  obtain ⟨hunoptimized, hpos'⟩ := meanOf_ofAmount hu hne' hu'.cost
  have hsaving := isFinite_sub_of_nonneg hunoptimized hoptimized hpos' hpos
  simp only [ofSamples, quantities, Logged.value_bind, Logged.value_pure, allFinite_append,
    allFinite_cons, allFinite_nil, hamount, hunits, hoptimized, hunoptimized, hsaving,
    allFinite_reductionOrOmit, and_true, true_and]

end Sizes

/-! ## 5.  The whole analysis -/

/-- What must hold of the stored samples for their analysis to be finite. -/
structure Store.StaysInRange (s : Store) : Prop where
  /-- No sum over a partition overflows. -/
  sums : ∀ p, HasFiniteSums (s.samples p)
  /-- No reduction between the means of the two modes overflows. -/
  ratios : ∀ t, HaveFiniteRatios (Means.ofSamples (s.samples ⟨.optimized, t⟩))
    (Means.ofSamples (s.samples ⟨.unoptimized, t⟩))
  /-- No reduction of the mean cost at one amount overflows. -/
  sizes : ∀ t, ∀ a ∈ sharedAmounts (s.samples ⟨.optimized, t⟩) (s.samples ⟨.unoptimized, t⟩),
    AreComparable (meanOf (ofAmount a (s.samples ⟨.optimized, t⟩)) (·.totalCost))
      (meanOf (ofAmount a (s.samples ⟨.unoptimized, t⟩)) (·.totalCost))

section Store

variable {s : Store}

theorem AreSound.samplesOfMode (h : ∀ p, AreSound (s.samples p)) (o : Optimization) :
    AreSound (s.samplesOfMode o) := by
  intro x hx
  obtain ⟨t, hx⟩ := Scaling.mem_samplesOfMode.mp hx
  exact h _ x hx

/-- The analysis of one transfer type. -/
theorem TypeAnalysis.allFinite_iff (h : ∀ p, AreSound (s.samples p)) (hne : ∀ p, s.samples p ≠ [])
    (t : TransferType) :
    AllFinite (TypeAnalysis.ofStore s t).value.quantities ↔
      (∀ o, HasFiniteSums (s.samples ⟨o, t⟩)) ∧
        HaveFiniteRatios (Means.ofSamples (s.samples ⟨.optimized, t⟩))
          (Means.ofSamples (s.samples ⟨.unoptimized, t⟩)) := by
  have hefficiency : ∀ p, AtMost (2 ^ 100) (Means.ofSamples (s.samples p)).efficiency := fun p =>
    atMost_meanOf (hne p) (h p).atMost_efficiency
  have hmeans : ∀ o, AllFinite (Means.ofSamples (s.samples ⟨o, t⟩)).quantities ↔
      HasFiniteSums (s.samples ⟨o, t⟩) := fun o => Means.allFinite_iff (hne _) (h _)
  have himprovement := Improvement.allFinite_iff t.key (hefficiency ⟨.optimized, t⟩)
    (hefficiency ⟨.unoptimized, t⟩)
  simp only [ofStore, quantities, Logged.value_bind, Logged.value_pure, allFinite_append,
    allFinite_flatMap, PerMode.get_ofFn, hmeans]
  exact and_congr ⟨fun hall o => hall o o.mem_all, fun hall o _ => hall o⟩ himprovement

/-- Sums that do not overflow make improvements that are bounded. -/
theorem TypeAnalysis.isBounded_improvement (h : ∀ p, AreSound (s.samples p))
    (hne : ∀ p, s.samples p ≠ []) (t : TransferType)
    (hsums : ∀ o, HasFiniteSums (s.samples ⟨o, t⟩)) :
    (TypeAnalysis.ofStore s t).value.improvement.IsBounded := by
  have hcost : ∀ o, (meanOf (s.samples ⟨o, t⟩) (·.totalCost)).isFinite = true := fun o =>
    (isFinite_meanOf_iff (hne _)).mpr (hsums o).cost
  have htime : ∀ o, (meanOf (s.samples ⟨o, t⟩) (·.timeMs)).isFinite = true := fun o =>
    (isFinite_meanOf_iff (hne _)).mpr (hsums o).time
  have hcost' : ∀ o, 0 ≤ toRat (meanOf (s.samples ⟨o, t⟩) (·.totalCost)) := fun o =>
    meanOf_nonneg (hne _) (fun x hx => Sample.totalCost_nonneg (h _ x hx).1) (hcost o)
  have htime' : ∀ o, 0 ≤ toRat (meanOf (s.samples ⟨o, t⟩) (·.timeMs)) := fun o =>
    meanOf_nonneg (hne _) (fun x hx => Sample.timeMs_nonneg (h _ x hx).1) (htime o)
  have hefficiency : ∀ o, AtMost (2 ^ 100) (meanOf (s.samples ⟨o, t⟩) (·.efficiency)) := fun o =>
    atMost_meanOf (hne _) (h _).atMost_efficiency
  exact {
    efficiency := (hefficiency .optimized).sub (by norm_num) (hefficiency .unoptimized)
    cost := reductionOrOmit_le (hcost _) (hcost _) (hcost' _) (hcost' _)
    time := reductionOrOmit_le (htime _) (htime _) (htime' _) (htime' _) }

/-- Curve, optimum and table. -/
theorem Scaling.allFinite_iff (h : ∀ p, AreSound (s.samples p))
    (hsums : ∀ p, HasFiniteSums (s.samples p)) :
    AllFinite (Scaling.ofStore s).value.quantities ↔
      ∀ t, ∀ a ∈ sharedAmounts (s.samples ⟨.optimized, t⟩) (s.samples ⟨.unoptimized, t⟩),
        AreComparable (meanOf (ofAmount a (s.samples ⟨.optimized, t⟩)) (·.totalCost))
          (meanOf (ofAmount a (s.samples ⟨.unoptimized, t⟩)) (·.totalCost)) := by
  have hpoints : ∀ p ∈ pointsOf s, AllFinite p.quantities := by
    intro p hp
    obtain ⟨a, ha, rfl⟩ := List.mem_map.mp hp
    exact ScalingPoint.allFinite_ofSamples (AreSound.samplesOfMode h _)
      (AreSound.samplesOfMode h _) ha
  have hoptimum : ∀ o ∈ (ScalingOptimum.ofPoints (pointsOf s)).toList, AllFinite o.quantities :=
    fun o ho => ScalingOptimum.allFinite_ofPoints hpoints o (Option.mem_toList.mp ho)
  have hrows : ∀ t, (∀ c ∈ (costsOfType s t).value, AllFinite c.quantities) ↔
      ∀ a ∈ sharedAmounts (s.samples ⟨.optimized, t⟩) (s.samples ⟨.unoptimized, t⟩),
        AreComparable (meanOf (ofAmount a (s.samples ⟨.optimized, t⟩)) (·.totalCost))
          (meanOf (ofAmount a (s.samples ⟨.unoptimized, t⟩)) (·.totalCost)) := by
    intro t
    unfold costsOfType
    rw [Logged.value_mapM, List.forall_mem_map]
    exact forall₂_congr fun a ha =>
      SizeCost.allFinite_iff (h _) (h _) (hsums _) (hsums _) ha
  simp only [ofStore, quantities, Logged.value_bind, Logged.value_pure, allFinite_append,
    allFinite_flatMap, List.forall_mem_append, hrows]
  constructor
  · rintro ⟨-, hsingle, hmulti⟩ t
    cases t
    · exact hsingle
    · exact hmulti
  · intro hall
    exact ⟨⟨hpoints, hoptimum⟩, hall _, hall _⟩

/-- The analysis of a store without an empty partition. -/
theorem Analysis.allFinite_ofSufficient_iff
    (h : ∀ p, AreSound (s.samples p)) (hne : ∀ p, s.samples p ≠ []) :
    AllFinite (ofSufficient s).value.quantities ↔ s.StaysInRange := by
  have htypes := TypeAnalysis.allFinite_iff h hne
  simp only [ofSufficient, quantities, Logged.value_bind, Logged.value_pure, allFinite_append,
    allFinite_flatMap]
  constructor
  · rintro ⟨⟨htype, -⟩, hscaling⟩
    have hparts : ∀ t, AllFinite (TypeAnalysis.ofStore s t).value.quantities := by
      intro t
      have hfinite := htype t t.mem_all
      cases t <;> exact hfinite
    have hsums : ∀ p, HasFiniteSums (s.samples p) := fun p =>
      ((htypes p.transferType).mp (hparts _)).1 p.optimization
    exact {
      sums := hsums
      ratios := fun t => ((htypes t).mp (hparts t)).2
      sizes := (Scaling.allFinite_iff h hsums).mp hscaling }
  · intro hrange
    have hparts : ∀ t, AllFinite (TypeAnalysis.ofStore s t).value.quantities := fun t =>
      (htypes t).mpr ⟨fun _ => hrange.sums _, hrange.ratios t⟩
    have hbounded : ∀ t, (TypeAnalysis.ofStore s t).value.improvement.IsBounded := fun t =>
      TypeAnalysis.isBounded_improvement h hne t fun _ => hrange.sums _
    have himprovement : ∀ t,
        AllFinite (TypeAnalysis.ofStore s t).value.improvement.quantities := fun t =>
      (allFinite_append.mp (hparts t)).2
    refine ⟨⟨?_, ?_⟩, (Scaling.allFinite_iff h hrange.sums).mpr hrange.sizes⟩
    · intro t _
      cases t <;> exact hparts _
    · exact Contrast.allFinite_between (hbounded _) (hbounded _) (himprovement _) (himprovement _)

/-- An analysis has taken place only if no partition is empty. -/
theorem Analysis.of_ok {threshold : ℕ} {a : Analysis}
    (ha : (Analysis.ofStore s threshold).value = .ok a) :
    (∀ p, s.samples p ≠ []) ∧ (ofSufficient s).value = a := by
  unfold ofStore at ha
  cases hcheck : s.check threshold with
  | error e =>
    rw [hcheck] at ha
    exact absurd ha (by simp)
  | ok done =>
    rw [hcheck] at ha
    obtain rfl : (ofSufficient s).value = a := Except.ok.inj ha
    refine ⟨?_, rfl⟩
    intro p
    have hlength := Store.isSufficient_iff.mp (Store.check_eq_ok_iff.mp hcheck) p
    exact List.ne_nil_of_length_pos ((Nat.le_max_right threshold 1).trans hlength)

/-- **The analysis of valid samples is finite if and only if the samples stay in range**: no sum
over a partition overflows, and no optimized mean is too large in comparison with the unoptimized
one.  Nothing else can go wrong.  Efficiencies, numbers of accounts, the curve and its optimum are
always finite, and so is every difference of finite improvements.  An analysis of samples that stay
in range can be written and read again. -/
theorem Analysis.finite_iff_staysInRange {threshold : ℕ} {a : Analysis}
    (h : ∀ p, ∀ x ∈ s.samples p, x.IsValid ∧ x.HasFiniteQuantities)
    (ha : (Analysis.ofStore s threshold).value = .ok a) :
    (AllFinite a.quantities ↔ s.StaysInRange) ∧
      (s.StaysInRange → (∀ p, (s.samples p).length < Nat.pow 2 64) →
        ∀ d : ResultDocument, d.results = a → d.metadata.generatedAt.IsValid →
          ResultDocument.ofString d.text = .ok d) := by
  obtain ⟨hne, rfl⟩ := of_ok ha
  have hiff := allFinite_ofSufficient_iff h hne
  refine ⟨hiff, ?_⟩
  rintro hrange hlength d hd htime
  have hwritable : d.IsWritable := by
    refine ⟨?_, ?_, htime⟩
    · rw [hd]
      exact hiff.mpr hrange
    · rw [hd]
      intro t o
      have hcount := hlength ⟨o, t⟩
      cases t <;> cases o <;> exact hcount
  exact ResultDocument.ofString_eq_ok (ResultDocument.decodes_toJson hwritable).string

end Store

/-- A sample with a transaction fee and no other costs. -/
def Sample.ofFee (fee : Float) : Sample where
  amount := 1000.0
  recipientCount := 1
  totalCost := fee
  receivedAmount := 500.0
  efficiency := 50.0
  timeMs := 1000.0
  breakdown := ⟨fee, 0.0, 0.0, 0.0⟩
  accountsCreated := 0
  accountsRemaining := 0

/-- Two such samples in each partition. -/
def Store.ofFee (fee : Float) : Store :=
  ⟨.fill [.ofFee fee, .ofFee fee]⟩

theorem Store.isSound_ofFee (fee : Float)
    (h : (Sample.ofFee fee).IsValid ∧ (Sample.ofFee fee).HasFiniteQuantities) :
    ∀ p, ∀ x ∈ (ofFee fee).samples p, x.IsValid ∧ x.HasFiniteQuantities := by
  intro p x hx
  rw [ofFee, samples, PerPartition.get_fill] at hx
  obtain rfl : x = Sample.ofFee fee := by
    simpa using hx
  exact h

theorem Analysis.value_ofFee (fee : Float) :
    (ofStore (Store.ofFee fee) 2).value = .ok (ofSufficient (Store.ofFee fee)).value :=
  rfl

/-- Two great fees are valid, and their mean is a double, but their sum overflows.  Ordinary fees
stay in range. -/
theorem Analysis.finite_iff_staysInRange_ofFee :
    (∀ p, ∀ x ∈ (Store.ofFee 1e308).samples p, x.IsValid ∧ x.HasFiniteQuantities) ∧
      (∃ a, (ofStore (Store.ofFee 1e308) 2).value = .ok a ∧ ¬ AllFinite a.quantities) ∧
      (Store.ofFee 5000.0).StaysInRange := by
  have hgreat := Store.isSound_ofFee 1e308 (by decide +kernel)
  have hordinary := Store.isSound_ofFee 5000.0 (by decide +kernel)
  refine ⟨hgreat, ⟨_, value_ofFee 1e308, ?_⟩, ?_⟩
  · rw [(finite_iff_staysInRange hgreat (value_ofFee 1e308)).1]
    intro hrange
    have hcost := (hrange.sums ⟨.optimized, .singleRecipient⟩).cost
    exact absurd hcost (by decide +kernel)
  · exact (finite_iff_staysInRange hordinary (value_ofFee 5000.0)).1.mp (by decide +kernel)

end TransferCost
