import TransferCost.Proofs.Binary64.Residual
import TransferCost.Proofs.Binary64.Whole
import TransferCost.Proofs.Sample
import TransferCost.Simulation

/-!
# When simulated samples are valid

Settings that pass their check do not always simulate valid samples: the check looks at the range of
amounts and at a few counts, and at none of the constants of the cost model.  This file says exactly
which settings do.

## 1.  The amounts

Amounts are rounded to whole subunits.  They are positive if the smallest one is at least one half,
and no smaller than one then.  All later amounts are above the first, because a step is never
negative (`smallest_le_of_mem_evenlySpaced`).

## 2.  The received part

An amount of one or more times a ratio is between zero and the amount exactly if the ratio is
between zero and one.  Underflow and rounding do not matter: `received_iff`.

## 3.  The costs

The shares of the cost do not depend on the amount.  The fourth share is the residual of a sum of
doubles, and it may be negative where the other three are fine.  The sum of all four shares is
always close enough to the total, unless it overflows: `not_slack_lt`.

## 4.  All rules

`CostModel.IsSound` collects what must hold of the constants, and `simulated_valid_iff` is the exact
condition.
-/

namespace TransferCost

open Binary64

/-! ## 1.  The amounts -/

section Amounts

variable {first last : Float}

/-- A step of a range is not negative. -/
theorem toRat_step_nonneg {n : ℕ} (hle : first ≤ last) (hn : 0 < n)
    (h : ((last - first) / Float.ofNat n).isFinite = true) :
    0 ≤ toRat ((last - first) / Float.ofNat n) := by
  have hdiff := isFinite_of_div h
  obtain ⟨hlast, hfirst⟩ := isFinite_of_sub hdiff
  refine (div_ofNat hdiff hn).2.2 ?_
  rw [toRat_eq_near (value_sub hlast hfirst) hdiff]
  rw [le_iff hfirst hlast] at hle
  exact near_nonneg (sub_nonneg.mpr hle)

/-- An amount that is steps above the first is not below it. -/
theorem toRat_le_add_steps {i n : ℕ} (hle : first ≤ last) (hn : 0 < n)
    (h : (first + Float.ofNat i * ((last - first) / Float.ofNat n)).isFinite = true) :
    toRat first ≤ toRat (first + Float.ofNat i * ((last - first) / Float.ofNat n)) := by
  obtain ⟨hfirst, hsteps⟩ := isFinite_of_add h
  obtain ⟨hi, hstep⟩ := isFinite_of_mul hsteps
  have hi' : 0 ≤ toRat (Float.ofNat i) := by
    rw [toRat_ofNat hi]
    exact nearest_nonneg _
  have hsteps' : 0 ≤ toRat (Float.ofNat i * ((last - first) / Float.ofNat n)) := by
    rw [toRat_eq_near (value_mul hi hstep) hsteps]
    exact near_nonneg (mul_nonneg hi' (toRat_step_nonneg hle hn hstep))
  rw [toRat_eq_near (value_add hfirst hsteps) h]
  exact toRat_le_near hfirst (le_add_of_nonneg_right hsteps')

/-- **No amount of a range is below the first.** -/
theorem toRat_le_of_mem_evenlySpaced {n : ℕ} {x : Float} (hpos : 0.0 < first) (hle : first ≤ last)
    (hx : x ∈ evenlySpaced first last n) (h : x.isFinite = true) :
    first.isFinite = true ∧ toRat first ≤ toRat x := by
  cases n with
  | zero => exact absurd hx List.not_mem_nil
  | succ n =>
    cases n with
    | zero =>
      rw [evenlySpaced, List.mem_singleton] at hx
      subst hx
      exact ⟨h, le_rfl⟩
    | succ n =>
      rw [evenlySpaced, List.mem_append, List.mem_singleton, List.mem_map] at hx
      rcases hx with ⟨i, -, rfl⟩ | rfl
      · exact ⟨(isFinite_of_add h).1, toRat_le_add_steps hle n.succ_pos h⟩
      · have hfirst := isFinite_of_le_of_le isFinite_zero h (le_of_float_lt hpos) hle
        exact ⟨hfirst, (le_iff hfirst h).mp hle⟩

/-- The first amount of a range, as it is computed. -/
theorem exists_first_mem_evenlySpaced (first last : Float) {n : ℕ} (hn : n ≠ 0) :
    ∃ x ∈ evenlySpaced first last n, x.isFinite = true → first.isFinite = true ∧
      toRat x = toRat first := by
  cases n with
  | zero => exact absurd rfl hn
  | succ n =>
    cases n with
    | zero => exact ⟨first, List.mem_singleton_self _, fun h => ⟨h, rfl⟩⟩
    | succ n =>
      refine ⟨first + Float.ofNat 0 * ((last - first) / Float.ofNat (n + 1)), ?_, ?_⟩
      · rw [evenlySpaced, List.mem_append, List.mem_map]
        exact .inl ⟨0, List.mem_range.mpr n.succ_pos, rfl⟩
      · intro h
        obtain ⟨hfirst, hsteps⟩ := isFinite_of_add h
        obtain ⟨hzero, hstep⟩ := isFinite_of_mul hsteps
        refine ⟨hfirst, ?_⟩
        rw [toRat_eq_near (value_add hfirst hsteps) h, toRat_eq_near (value_mul hzero hstep) hsteps,
          toRat_ofNat hzero, Nat.cast_zero, nearest_zero, zero_mul, near_of_nonneg le_rfl,
          nearest_zero, add_zero, near_toRat hfirst]

end Amounts

/-- **The simulated amounts are positive if the smallest one is one half or more**, and are not
below one then. -/
theorem one_le_of_mem_amounts {r : SizeRange} {a : Float} (hpos : 0.0 < r.smallest)
    (hle : r.smallest ≤ r.largest) (hhalf : 0.5 ≤ r.smallest) (ha : a ∈ r.amounts)
    (h : a.isFinite = true) : 1 ≤ toRat a := by
  obtain ⟨x, hx, rfl⟩ := List.mem_map.mp ha
  have hfinite := isFinite_of_roundWhole h
  obtain ⟨hfirst, hge⟩ := toRat_le_of_mem_evenlySpaced hpos hle hx hfinite
  rw [le_iff isFinite_half hfirst, toRat_half] at hhalf
  exact (one_le_toRat_roundWhole_iff hfinite).mpr (hhalf.trans hge)

/-- A positive amount is one or more, and the smallest of the range is one half or more. -/
theorem half_le_smallest {r : SizeRange} (hsteps : r.steps ≠ 0)
    (h : ∀ a ∈ r.amounts, a.isFinite = true ∧ 0.0 < a) : 0.5 ≤ r.smallest := by
  obtain ⟨x, hx, hsame⟩ := exists_first_mem_evenlySpaced r.smallest r.largest hsteps
  obtain ⟨hfinite, hpos⟩ := h _ (List.mem_map.mpr ⟨x, hx, rfl⟩)
  have hxfinite := isFinite_of_roundWhole hfinite
  obtain ⟨hfirst, heq⟩ := hsame hxfinite
  rw [zero_lt_iff hfinite] at hpos
  rw [le_iff isFinite_half hfirst, toRat_half, ← heq]
  exact (zero_lt_toRat_roundWhole_iff hxfinite).mp hpos

/-! ## 2.  The received part -/

/-- The doubles above one begin one unit in the last place above it. -/
theorem one_add_le_toRat {x : Float} (hx : x.isFinite = true) (h : 1 < toRat x) :
    1 + 1 / 2 ^ 52 ≤ toRat x := by
  obtain ⟨n, m, e, hv⟩ := isFinite_iff.mp hx
  have hrat := toRat_of_value hv
  have hmagnitude := magnitude_nonneg m e
  cases n with
  | true =>
    rw [hrat, signedRat_true] at h
    linarith
  | false =>
    rw [hrat, signedRat_false] at h ⊢
    rcases canonical_of_value hv with ⟨rfl, rfl⟩ | ⟨hm, hc, -⟩
    · rw [Nat.cast_zero, zero_mul] at h
      linarith
    have hlt : (m : ℚ) < 2 ^ (53 : ℤ) := by
      exact_mod_cast hc.mantissa_lt
    rcases lt_trichotomy e (-52) with he | rfl | he
    · have hsmall : (m : ℚ) * 2 ^ e < 1 :=
        calc (m : ℚ) * 2 ^ e < 2 ^ (53 : ℤ) * 2 ^ e := mul_lt_mul_of_pos_right hlt (two_zpow_pos e)
          _ = 2 ^ (53 + e) := (two_zpow_add 53 e).symm
          _ ≤ 2 ^ (0 : ℤ) := two_zpow_le (by omega)
          _ = 1 := zpow_zero 2
      exact absurd h hsmall.not_gt
    · have hpow : (2 : ℚ) ^ (-52 : ℤ) = 1 / 2 ^ 52 := by norm_num
      rw [hpow] at h ⊢
      have hgt : (2 : ℚ) ^ 52 < m := by
        rw [mul_one_div, lt_div_iff₀ (by norm_num), one_mul] at h
        exact h
      have hge : (2 : ℚ) ^ 52 + 1 ≤ m := by
        exact_mod_cast hgt
      rw [mul_one_div, le_div_iff₀ (by norm_num)]
      linarith
    · have hfull : 2 ^ 52 ≤ m := hc.normal_or.resolve_right (by
        show ¬ e = -1074
        omega)
      have hle : (2 : ℚ) ^ (52 : ℤ) ≤ m := by
        exact_mod_cast hfull
      calc (1 : ℚ) + 1 / 2 ^ 52 ≤ 2 ^ (1 : ℤ) := by norm_num
        _ ≤ 2 ^ (52 + e) := two_zpow_le (by omega)
        _ = 2 ^ (52 : ℤ) * 2 ^ e := two_zpow_add 52 e
        _ ≤ m * 2 ^ e := mul_le_mul_of_nonneg_right hle (two_zpow_pos e).le

/-- The number after a mantissa is a double, too. -/
theorem near_succ_mantissa {m : ℕ} {e : ℤ} (hm : m < 2 ^ 53) (he : minExponent ≤ e) :
    near (((m + 1 : ℕ) : ℚ) * 2 ^ e) = (m + 1 : ℕ) * 2 ^ e := by
  rw [near_of_nonneg (magnitude_nonneg _ e)]
  by_cases hfull : m + 1 = 2 ^ 53
  · rw [hfull, ← magnitude_carry]
    exact nearest_of_mantissa_lt (by norm_num) (by omega)
  · exact nearest_of_mantissa_lt (by omega) he

/-- **Rounding does not undo a factor above one.** -/
theorem toRat_lt_near {a : Float} {q : ℚ} (ha : a.isFinite = true) (hone : 1 ≤ toRat a)
    (hq : toRat a * (1 + 1 / 2 ^ 52) ≤ q) : toRat a < near q := by
  obtain ⟨n, m, e, hv⟩ := isFinite_iff.mp ha
  have hrat := toRat_of_value hv
  have hmagnitude := magnitude_nonneg m e
  cases n with
  | true =>
    rw [hrat, signedRat_true] at hone
    linarith
  | false =>
    rw [hrat, signedRat_false] at hone hq ⊢
    rcases canonical_of_value hv with ⟨rfl, rfl⟩ | ⟨hm, hc, -⟩
    · rw [Nat.cast_zero, zero_mul] at hone
      linarith
    have hstep := two_zpow_pos e
    have hlt : (m : ℚ) < 2 ^ (53 : ℤ) := by
      exact_mod_cast hc.mantissa_lt
    have hfull : 2 ^ 52 ≤ m := by
      refine hc.normal_or.resolve_right ?_
      rintro rfl
      have hsmall : (m : ℚ) * 2 ^ minExponent < 1 :=
        calc (m : ℚ) * 2 ^ minExponent < 2 ^ (53 : ℤ) * 2 ^ minExponent :=
              mul_lt_mul_of_pos_right hlt hstep
          _ = 2 ^ (53 + minExponent) := (two_zpow_add 53 minExponent).symm
          _ ≤ 2 ^ (0 : ℤ) := two_zpow_le (by decide)
          _ = 1 := zpow_zero 2
      exact absurd hone hsmall.not_ge
    have hle : (2 : ℚ) ^ 52 ≤ m := by
      exact_mod_cast hfull
    have hnext : ((m + 1 : ℕ) : ℚ) * 2 ^ e ≤ q := by
      refine le_trans ?_ hq
      have hunit : (1 : ℚ) ≤ m * (1 / 2 ^ 52) := by
        rw [mul_one_div, le_div_iff₀ (by norm_num), one_mul]
        exact hle
      push_cast
      nlinarith
    have hmono := near_mono hnext
    rw [near_succ_mantissa hc.mantissa_lt hc.minExponent_le] at hmono
    refine lt_of_lt_of_le ?_ hmono
    push_cast
    linarith

/-- **The received part is in bounds exactly if the ratio is.** -/
theorem received_iff {a ratio : Float} (ha : a.isFinite = true) (hone : 1 ≤ toRat a) :
    (0.0 ≤ a * ratio ∧ a * ratio ≤ a) ↔ 0.0 ≤ ratio ∧ ratio ≤ 1.0 := by
  constructor
  · rintro ⟨hnonneg, hle⟩
    have hproduct := isFinite_of_le_of_le isFinite_zero ha hnonneg hle
    obtain ⟨-, hratio⟩ := isFinite_of_mul hproduct
    rw [zero_le_iff hproduct, toRat_eq_near (value_mul ha hratio) hproduct] at hnonneg
    rw [le_iff hproduct ha, toRat_eq_near (value_mul ha hratio) hproduct] at hle
    rw [zero_le_iff hratio, le_iff hratio isFinite_one, toRat_one]
    constructor
    · by_contra hneg
      rw [not_le] at hneg
      have hmono := near_mono (by nlinarith : toRat a * toRat ratio ≤ toRat ratio)
      rw [near_toRat hratio] at hmono
      linarith
    · by_contra hgt
      rw [not_le] at hgt
      have hfactor := one_add_le_toRat hratio hgt
      have hlt := toRat_lt_near ha hone (mul_le_mul_of_nonneg_left hfactor (by linarith))
      linarith
  · rintro ⟨hnonneg, hle⟩
    have hratio := isFinite_of_le_of_le isFinite_zero isFinite_one hnonneg hle
    rw [zero_le_iff hratio] at hnonneg
    rw [le_iff hratio isFinite_one, toRat_one] at hle
    have hpos : 0 ≤ toRat a * toRat ratio := mul_nonneg (by linarith) hnonneg
    have hbound : toRat a * toRat ratio ≤ toRat a := mul_le_of_le_one_right (by linarith) hle
    have hproduct : (a * ratio).isFinite = true :=
      isFinite_of_abs_le (value_mul ha hratio) ha
        (by rw [abs_of_nonneg hpos, abs_of_nonneg (by linarith)]; exact hbound)
    rw [zero_le_iff hproduct, le_iff hproduct ha, toRat_eq_near (value_mul ha hratio) hproduct]
    refine ⟨near_nonneg hpos, ?_⟩
    exact near_le_toRat ha hbound

/-! ## 3.  The costs -/

/-- Shares of which the last is what is left of the total of the others. -/
structure IsResidual (t : Float) (b : Breakdown) : Prop where
  total : t = b.txFee + b.rent + b.compute
  overhead : b.overhead = t - b.txFee - b.rent - b.compute

namespace IsResidual

variable {t : Float} {b : Breakdown}

theorem total_eq (h : IsResidual t b) (ht : t.isFinite = true) : b.total = t + b.overhead := by
  have hpair := (isFinite_of_add (h.total ▸ ht)).1
  have hfee := (isFinite_of_add hpair).1
  show -0.0 + b.txFee + b.rent + b.compute + b.overhead = t + b.overhead
  rw [negZero_add hfee, h.total]

theorem slack_ge (ht : t.isFinite = true) :
    max 1 (toRat t) / 10 ^ 7 ≤ toRat (Sample.totalSlack t) := by
  have hM : 1 ≤ max 1 (toRat t) := le_max_left _ _
  rw [Sample.toRat_totalSlack ht, toRat_tolerance]
  generalize max 1 (toRat t) = M at hM ⊢
  have herror := abs_near_sub_le_of_abs_le (q := 4722366482869645 / 2 ^ 72 * M) (b := M)
    (abs_le.mpr ⟨by linarith, by linarith⟩)
  rw [abs_le] at herror
  linarith

/-- The total and the residual as rounded numbers. -/
theorem toRat_chain (h : IsResidual t b) (ht : t.isFinite = true)
    (ho : b.overhead.isFinite = true) :
    toRat t = near (near (toRat b.txFee + toRat b.rent) + toRat b.compute) ∧
      toRat b.overhead =
        near (near (near (toRat t - toRat b.txFee) - toRat b.rent) - toRat b.compute) := by
  have ht' := ht
  have ho' := ho
  rw [h.total] at ht'
  rw [h.overhead] at ho'
  obtain ⟨hpair, hcompute⟩ := isFinite_of_add ht'
  obtain ⟨hfee, hrent⟩ := isFinite_of_add hpair
  obtain ⟨hrest, -⟩ := isFinite_of_sub ho'
  obtain ⟨hrest', -⟩ := isFinite_of_sub hrest
  constructor
  · rw [h.total, toRat_eq_near (value_add hpair hcompute) ht',
      toRat_eq_near (value_add hfee hrent) hpair]
  · rw [h.overhead, toRat_eq_near (value_sub hrest hcompute) ho',
      toRat_eq_near (value_sub hrest' hrent) hrest, toRat_eq_near (value_sub ht hfee) hrest']

/-- **The sum of the shares is as close to the total as it must be**, unless it overflows. -/
theorem not_slack_lt (h : IsResidual t b) (ht : t.isFinite = true) (hpos : 0 < toRat t)
    (hshare : ∀ k, isBadShare (b.get k) = false) (hsum : b.total.isFinite = true) :
    ¬ Sample.totalSlack t < (t - b.total).abs := by
  have htolerance : toRat tolerance ≤ 1 / 10 ^ 5 := by
    rw [toRat_tolerance]
    norm_num
  have hbound : ∀ k, -(1 / 10 ^ 5) ≤ toRat (b.get k) := fun k =>
    (neg_le_neg htolerance).trans (isBadShare_eq_false_iff.mp (hshare k)).2
  have ho := (isBadShare_eq_false_iff.mp (hshare .overhead)).1
  obtain ⟨hT, hO⟩ := h.toRat_chain ht ho
  have hM : 1 ≤ max 1 (toRat t) := le_max_left _ _
  have hTM : toRat t ≤ max 1 (toRat t) := le_max_right _ _
  have hresidual : |toRat b.overhead| ≤ max 1 (toRat t) / 10 ^ 12 := by
    rw [hO]
    rw [hT] at hpos hTM ⊢
    exact abs_residual_le (le_max_left _ _) hpos.le hTM (hbound .txFee) (hbound .rent)
      (hbound .compute)
  have htotal : toRat b.total = near (toRat t + toRat b.overhead) := by
    rw [h.total_eq ht] at hsum ⊢
    exact toRat_eq_near (value_add ht ho) hsum
  have hdiff := abs_near_sub_sum_le hM hpos.le hTM hresidual
  rw [← htotal] at hdiff
  have hlimit : max 1 (toRat t) < 2 ^ (1024 : ℤ) := by
    refine max_lt ?_ ((le_abs_self _).trans_lt (abs_toRat_lt ht))
    exact (zpow_zero (2 : ℚ)).symm.trans_lt (two_zpow_lt_iff.mpr (by norm_num))
  have hfinite : (t - b.total).isFinite = true := by
    rw [isFinite_iff_near_lt (value_sub ht hsum)]
    refine (hdiff.trans ?_).trans_lt hlimit
    exact div_le_self (by linarith) (by norm_num)
  rw [lt_iff (Sample.isFinite_totalSlack ht) (isFinite_abs hfinite), toRat_abs,
    toRat_eq_near (value_sub ht hsum) hfinite, not_lt]
  have hslack := slack_ge ht
  generalize max 1 (toRat t) = M at *
  linarith

/-- A sum of shares that overflows is not close to the total. -/
theorem isFinite_sum (h : IsResidual t b) (ht : t.isFinite = true) (ho : b.overhead.isFinite = true)
    (hclose : ¬ Sample.totalSlack t < (t - b.total).abs) : b.total.isFinite = true := by
  have hvalue : value b.total = _ := (congrArg value (h.total_eq ht)).trans (value_add ht ho)
  rcases roundedSigned_cases (isNegative t && isNegative b.overhead)
    (toRat t + toRat b.overhead) with ⟨-, n, m, e, heq, -⟩ | ⟨-, n, heq⟩
  · exact isFinite_iff.mpr ⟨n, m, e, hvalue.trans heq⟩
  · have hinfinite : value (t - b.total).abs = .infinite false := by
      rw [value_abs, value_sub_infinite ht (hvalue.trans heq)]
      rfl
    exact absurd (lt_of_infinite (Sample.isFinite_totalSlack ht) hinfinite) hclose

end IsResidual

namespace CostModel

variable (m : CostModel) (o : Optimization) (recipients : UInt32)

/-- The total cost of a simulated transfer, which does not depend on the amount. -/
def totalOf : Float :=
  let mode := m.modes.get o
  let r := Float.ofNat recipients.toNat
  m.baseTxFee * (1.0 + mode.txFeePerRecipient * r) +
    m.baseRent * mode.rentFactor * Float.ofNat m.hopCount.toNat +
    (mode.computeBase + mode.computePerRecipient * r) / 1000000.0

/-- The shares of the cost. -/
def sharesOf : Breakdown :=
  let mode := m.modes.get o
  let r := Float.ofNat recipients.toNat
  let txFee := m.baseTxFee * (1.0 + mode.txFeePerRecipient * r)
  let rent := m.baseRent * mode.rentFactor * Float.ofNat m.hopCount.toNat
  let compute := (mode.computeBase + mode.computePerRecipient * r) / 1000000.0
  ⟨txFee, rent, compute, m.totalOf o recipients - txFee - rent - compute⟩

/-- The time of a simulated transfer. -/
def timeOf : Float :=
  let mode := m.modes.get o
  mode.timeBaseMs + mode.timePerRecipientMs * Float.ofNat recipients.toNat

theorem isResidual_sharesOf : IsResidual (m.totalOf o recipients) (m.sharesOf o recipients) :=
  ⟨rfl, rfl⟩

/-- What must hold of the constants of a mode, so that the samples that it simulates are valid. -/
structure IsSound : Prop where
  ratio : 0.0 ≤ (m.modes.get o).receivedRatio ∧ (m.modes.get o).receivedRatio ≤ 1.0
  time : (m.timeOf o recipients).isFinite = true ∧ 0.0 ≤ m.timeOf o recipients
  total : (m.totalOf o recipients).isFinite = true ∧ 0.0 < m.totalOf o recipients
  share : ∀ k, isBadShare ((m.sharesOf o recipients).get k) = false
  sum : (m.sharesOf o recipients).total.isFinite = true

end CostModel

/-! ## 4.  All rules -/

/-- **One simulated sample is valid exactly if the constants of its mode are sound.** -/
theorem isValid_simulate_iff {m : CostModel} {a : Float} {p : Partition} {recipients : UInt32}
    (ha : a.isFinite = true) (hone : 1 ≤ toRat a) (hr : recipients ≠ 0) :
    (m.simulate a p recipients).IsValid ↔ m.IsSound p.optimization recipients := by
  rw [Sample.isValid_iff]
  have hresidual := m.isResidual_sharesOf p.optimization recipients
  constructor
  · intro h
    have hoverhead := (isBadShare_eq_false_iff.mp (h.share .overhead)).1
    exact {
      ratio := (received_iff ha hone).mp h.received
      time := h.time
      total := h.total
      share := h.share
      sum := hresidual.isFinite_sum h.total.1 hoverhead h.sum }
  · intro h
    have hpos := (zero_lt_iff h.total.1).mp h.total.2
    exact {
      amount := ⟨ha, (zero_lt_iff ha).mpr (zero_lt_one.trans_le hone)⟩
      recipients := hr
      total := h.total
      share := h.share
      sum := hresidual.not_slack_lt h.total.1 hpos h.share h.sum
      received := (received_iff ha hone).mpr h.ratio
      efficiency := not_tolerance_lt_abs_sub_self _
      time := h.time }

/-- What the check says of the range and of the numbers of recipients. -/
theorem Settings.of_check {s : Settings} (h : s.check = .ok ()) :
    0.0 < s.range.smallest ∧ s.range.smallest ≤ s.range.largest ∧
      ∀ t, s.range.recipients t ≠ 0 := by
  have hfault : s.fault? = none := by
    unfold check at h
    split at h
    · exact absurd h (by simp)
    · assumption
  unfold fault? at hfault
  split_ifs at hfault with hrange hwallets
  rw [Bool.not_eq_true', Bool.not_eq_false, Bool.and_eq_true, decide_eq_true_eq,
    decide_eq_true_eq] at hrange
  refine ⟨hrange.1, hrange.2, ?_⟩
  intro t
  cases t
  · show (1 : UInt32) ≠ 0
    decide
  · exact hwallets

/-- **The settings that simulate valid samples only**, among those that pass the check. -/
theorem simulated_valid_iff {s : Settings} (hcheck : s.check = .ok ()) :
    (∀ a ∈ s.range.amounts, ∀ p,
        (s.model.simulate a p (s.range.recipients p.transferType)).IsValid) ↔
      s.range.steps = 0 ∨
        (0.5 ≤ s.range.smallest ∧ (∀ a ∈ s.range.amounts, a.isFinite = true) ∧
          ∀ p : Partition, s.model.IsSound p.optimization (s.range.recipients p.transferType)) := by
  obtain ⟨hpos, hle, hrecipients⟩ := Settings.of_check hcheck
  constructor
  · intro hvalid
    rw [or_iff_not_imp_left]
    intro hsteps
    have hamount : ∀ a ∈ s.range.amounts, a.isFinite = true ∧ 0.0 < a := by
      intro a ha
      exact ((Sample.isValid_iff _).mp (hvalid a ha ⟨.optimized, .singleRecipient⟩)).amount
    have hhalf := half_le_smallest hsteps hamount
    refine ⟨hhalf, fun a ha => (hamount a ha).1, ?_⟩
    intro p
    obtain ⟨x, hx, -⟩ := exists_first_mem_evenlySpaced s.range.smallest s.range.largest hsteps
    have hmem : roundWhole x ∈ s.range.amounts := List.mem_map.mpr ⟨x, hx, rfl⟩
    have hfinite := (hamount _ hmem).1
    exact (isValid_simulate_iff hfinite (one_le_of_mem_amounts hpos hle hhalf hmem hfinite)
      (hrecipients _)).mp (hvalid _ hmem p)
  · rintro (hsteps | ⟨hhalf, hfinite, hsound⟩) a ha p
    · have hnone : s.range.amounts = [] := by
        rw [SizeRange.amounts, hsteps]
        rfl
      rw [hnone] at ha
      exact absurd ha List.not_mem_nil
    · have ha' := hfinite a ha
      exact (isValid_simulate_iff ha' (one_le_of_mem_amounts hpos hle hhalf ha ha')
        (hrecipients _)).mpr (hsound p)

/-- The default settings with three amounts, except that optimized transfers are said to deliver
half as much again as was sent. -/
def Settings.generous : Settings :=
  { Settings.small with
    model := { CostModel.standard with
      modes := ⟨{ ModeModel.optimized with receivedRatio := 1.5 }, .unoptimized⟩ } }

/-- They pass the check, and simulate a sample that is not valid. -/
theorem simulated_valid_iff_generous :
    Settings.generous.check = .ok () ∧
      ¬ ∀ a ∈ Settings.generous.range.amounts, ∀ p, (Settings.generous.model.simulate a p
        (Settings.generous.range.recipients p.transferType)).IsValid := by
  have hcheck : Settings.generous.check = .ok () := by
    decide +kernel
  refine ⟨hcheck, ?_⟩
  intro h
  rcases (simulated_valid_iff hcheck).mp h with hsteps | ⟨-, -, hsound⟩
  · exact absurd hsteps (by decide)
  · have hratio := (hsound ⟨.optimized, .singleRecipient⟩).ratio.2
    exact absurd hratio (by decide +kernel)

end TransferCost
