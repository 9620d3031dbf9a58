import TransferCost.Proofs.Binary64.Signs
import TransferCost.Proofs.Quantities
import TransferCost.Proofs.Sample

/-!
# The signs of an improvement

A report that says that optimization pays must not be an effect of rounding.  A reduction is rounded
three times on the way from two means to a percentage, and the two means may be neighbours, so it
has to be proved that a gain is not rounded to nought, nor to a loss.

`FollowsOrder r a b` says that `r` is positive, zero or negative just as `a` is greater than, equal
to or less than `b`.  `order_reductionOf` follows a reduction step by step, and
`Improvement.between_sign_law` collects what an improvement says about all its metrics.
-/

namespace TransferCost

open Binary64

/-- The first number is positive, zero or negative, according as the second one is greater than,
equal to or less than the third one. -/
structure FollowsOrder (r a b : Float) : Prop where
  positive : 0.0 < r ↔ b < a
  zero : (r == 0.0) = true ↔ (a == b) = true
  negative : r < 0.0 ↔ a < b

theorem followsOrder_of_order {r a b : Float} (hr : r.isNaN = false) (ha : a.isNaN = false)
    (hb : b.isNaN = false) (h : order r 0.0 = order a b) : FollowsOrder r a b := by
  have hzero : (0.0 : Float).isNaN = false := isNaN_of_isFinite isFinite_zero
  refine ⟨?_, ?_, ?_⟩
  · rw [lt_iff_level hzero hr, lt_iff_level hb ha, ← cmp_eq_gt_iff, ← cmp_eq_gt_iff]
    exact Eq.congr_left h
  · rw [beq_iff_order hr hzero, beq_iff_order ha hb, h]
  · rw [lt_iff_level hr hzero, lt_iff_level ha hb, ← cmp_eq_lt_iff, ← cmp_eq_lt_iff]
    exact Eq.congr_left h

/-- **A difference follows the order of its operands.** -/
theorem followsOrder_sub {x y : Float} (hx : x.isFinite = true) (hy : y.isFinite = true) :
    FollowsOrder (x - y) x y :=
  followsOrder_of_order (isNaN_of_roundedSigned (value_sub hx hy)) (isNaN_of_isFinite hx)
    (isNaN_of_isFinite hy) (order_sub hx hy)

section Reduction

variable {o u : Float}

/-- The sign of a reduction, through quotient, difference and multiple. -/
theorem order_reductionOf (ho : o.isFinite = true) (hu : u.isFinite = true) (hpos : 0.0 < u) :
    order (reductionOf o u) 0.0 = order u o := by
  rw [zero_lt_iff hu] at hpos
  have hquotient := isNaN_div ho hu hpos.ne'
  calc order (100.0 * (1.0 - o / u)) 0.0
      = order (1.0 - o / u) 0.0 := order_hundred_mul (isNaN_finite_sub isFinite_one hquotient)
    _ = order 1.0 (o / u) := order_finite_sub isFinite_one hquotient
    _ = (order (o / u) 1.0).swap := (order_swap _ _).symm
    _ = (order o u).swap := by rw [order_div_one ho hu hpos]
    _ = order u o := order_swap o u

/-- **A reduction is positive, zero or negative according as the optimized quantity is less than,
equal to or greater than the unoptimized one**, if the latter is positive. -/
theorem followsOrder_reductionOf (ho : o.isFinite = true) (hu : u.isFinite = true)
    (hpos : 0.0 < u) : FollowsOrder (reductionOf o u) u o := by
  have hquotient := isNaN_div ho hu ((zero_lt_iff hu).mp hpos).ne'
  exact followsOrder_of_order (isNaN_hundred_mul (isNaN_finite_sub isFinite_one hquotient))
    (isNaN_of_isFinite hu) (isNaN_of_isFinite ho) (order_reductionOf ho hu hpos)

theorem value_reductionOrOmit_eq_none_iff (metric : String) :
    (reductionOrOmit metric o u).value = none ↔ u = 0.0 ∨ u = -0.0 := by
  rw [value_reductionOrOmit, ← beq_zero_iff_eq, ite_eq_left_iff]
  simp only [reduceCtorEq, imp_false, not_not]

theorem shareReduction_eq_none_iff : shareReduction o u = none ↔ ¬ tolerance < u := by
  unfold shareReduction
  rw [ite_eq_right_iff]
  simp only [reduceCtorEq, imp_false]

/-- The reduction of one quantity to another one.  It is left out if and only if it is relative to
one of the zeros, and relative to what is positive it has the right sign. -/
structure IsReduction (r? : Option Float) (optimized unoptimized : Float) : Prop where
  absent : r? = none ↔ unoptimized = 0.0 ∨ unoptimized = -0.0
  present : 0.0 < unoptimized → ∃ r, r? = some r ∧ FollowsOrder r unoptimized optimized

theorem isReduction_reductionOrOmit (metric : String) (ho : o.isFinite = true)
    (hu : u.isFinite = true) : IsReduction (reductionOrOmit metric o u).value o u where
  absent := value_reductionOrOmit_eq_none_iff metric
  present := by
    intro hpos
    have hne : ¬ (u == 0.0) = true := by
      rw [beq_zero_iff hu]
      exact ((zero_lt_iff hu).mp hpos).ne'
    rw [value_reductionOrOmit, if_neg hne]
    exact ⟨_, rfl, followsOrder_reductionOf ho hu hpos⟩

/-- The reduction of one share of the cost to another one.  A share counts as zero up to the
tolerance of samples. -/
structure IsShareReduction (r? : Option Float) (optimized unoptimized : Float) : Prop where
  present : r?.isSome = true ↔ 1e-6 < unoptimized
  sign : ∀ r, r? = some r → FollowsOrder r unoptimized optimized

theorem zero_lt_of_tolerance_lt (hu : u.isFinite = true) (h : tolerance < u) : 0.0 < u := by
  rw [lt_iff isFinite_tolerance hu] at h
  rw [zero_lt_iff hu]
  rw [toRat_tolerance] at h
  exact (by norm_num : (0 : ℚ) < 4722366482869645 / 2 ^ 72).trans h

theorem isShareReduction_shareReduction (ho : o.isFinite = true) (hu : u.isFinite = true) :
    IsShareReduction (shareReduction o u) o u where
  present := by
    rw [Option.isSome_iff_ne_none, ne_eq, shareReduction_eq_none_iff, not_not]
    rfl
  sign := by
    intro r hr
    unfold shareReduction at hr
    split_ifs at hr with h
    obtain rfl := Option.some.inj hr
    exact followsOrder_reductionOf ho hu (zero_lt_of_tolerance_lt hu h)

end Reduction

/-! ## The improvement -/

namespace Improvement

variable {o u : Means}

/-- Each metric of an improvement has the sign that the means call for. -/
structure ObeysSignLaw (optimized unoptimized : Means) (i : Improvement) : Prop where
  efficiency : FollowsOrder i.efficiency optimized.efficiency unoptimized.efficiency
  cost : IsReduction i.costReduction optimized.totalCost unoptimized.totalCost
  time : IsReduction i.timeReduction optimized.timeMs unoptimized.timeMs
  share : ∀ k, IsShareReduction (i.reductionOfKind.get k) (optimized.breakdown.get k)
    (unoptimized.breakdown.get k)

theorem isFinite_of_allFinite (h : AllFinite o.quantities) :
    o.efficiency.isFinite = true ∧ o.totalCost.isFinite = true ∧ o.timeMs.isFinite = true ∧
      ∀ k, (o.breakdown.get k).isFinite = true := by
  simp only [Means.quantities, allFinite_append, allFinite_cons, allFinite_nil, allFinite_map,
    and_true] at h
  obtain ⟨⟨⟨hefficiency, hcost, htime⟩, hshares⟩, -⟩ := h
  exact ⟨hefficiency, hcost, htime, fun k => hshares k k.mem_all⟩

/-- **No sign of an improvement is an effect of rounding.**  Let the means be finite, of whatever
size and however close to each other.  Then the gain of efficiency is positive, zero or negative
according as the optimized mean is greater than, equal to or less than the unoptimized one.  The
reductions of cost and time are left out if and only if the unoptimized mean is one of the zeros,
and if it is positive they are positive, zero or negative according as the optimized mean is less
than, equal to or greater than it.  A share has a reduction if and only if its unoptimized mean is
above one millionth, and that has the same sign. -/
theorem between_sign_law (label : String) (ho : AllFinite o.quantities)
    (hu : AllFinite u.quantities) : ObeysSignLaw o u (between label o u).value := by
  obtain ⟨hefficiency, hcost, htime, hshare⟩ := isFinite_of_allFinite ho
  obtain ⟨hefficiency', hcost', htime', hshare'⟩ := isFinite_of_allFinite hu
  exact {
    efficiency := followsOrder_sub hefficiency hefficiency'
    cost := isReduction_reductionOrOmit _ hcost hcost'
    time := isReduction_reductionOrOmit _ htime htime'
    share := by
      intro k
      simp only [between, Logged.value_bind, Logged.value_pure, PerKind.get_ofFn]
      exact isShareReduction_shareReduction (hshare k) (hshare' k) }

/-- Means at the limits of doubles: the efficiency is the least positive double, the cost the one
just below one, and the time is so long that its quotient overflows. -/
def edgeOptimized : Means where
  count := 1
  efficiency := 5e-324
  totalCost := 0.9999999999999999
  timeMs := 1e308
  breakdown := ⟨0.0, 0.5, 0.5, -1e308⟩
  accountsCreated := 0.0
  accountsRemaining := 0.0

/-- Means beside them. -/
def edgeUnoptimized : Means where
  count := 1
  efficiency := 0.0
  totalCost := 1.0
  timeMs := 5e-324
  breakdown := ⟨1e-6, 0.5, 0.49999999999999994, 0.000001000000000000001⟩
  accountsCreated := 0.0
  accountsRemaining := 0.0

theorem between_sign_law_edge :
    ObeysSignLaw edgeOptimized edgeUnoptimized (between "" edgeOptimized edgeUnoptimized).value ∧
      (∃ r, (between "" edgeOptimized edgeUnoptimized).value.costReduction = some r ∧ 0.0 < r) ∧
      (∃ r, (between "" edgeOptimized edgeUnoptimized).value.timeReduction = some r ∧ r < 0.0) ∧
      (between "" edgeOptimized edgeUnoptimized).value.reductionOfKind.txFee = none := by
  have hlaw : ObeysSignLaw edgeOptimized edgeUnoptimized _ :=
    between_sign_law "" (by decide +kernel) (by decide +kernel)
  obtain ⟨r, hr, hsign⟩ := hlaw.cost.present (by decide +kernel)
  obtain ⟨r', hr', hsign'⟩ := hlaw.time.present (by decide +kernel)
  refine ⟨hlaw, ⟨r, hr, hsign.positive.mpr (by decide +kernel)⟩,
    ⟨r', hr', hsign'.negative.mpr (by decide +kernel)⟩, ?_⟩
  rw [← Option.not_isSome_iff_eq_none]
  exact fun h => absurd ((hlaw.share .txFee).present.mp h) (by decide +kernel)

end Improvement
end TransferCost
