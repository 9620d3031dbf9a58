import TransferCost.Proofs.Binary64.NotANumber

/-!
# The signs of results

A rounded result may be a zero although the exact one is not, and it may be equal to a number that
the exact one is not equal to.  This file is about three results that keep apart what is apart,
however close the operands are.

* A difference is a zero only if the operands are equal.  Doubles are multiples of the least
  positive one, so their exact difference is never small enough to vanish: `order_sub`.
* A quotient is one only if the operands are equal.  A double below another one is below it by more
  than the rounding of the quotient can bridge: `gap_below`, `order_div_one`.
* A multiple by one hundred is a zero only if the operand is one: `order_hundred_mul`.

Nothing has to be assumed about overflow.  An infinite result has the sign of the exact one, and
`order` compares numbers of either kind.
-/

namespace TransferCost
namespace Binary64

open Float.Model

variable {x y z : Float} {q : ℚ} {s : Bool}

/-- How two numbers compare.  The two zeros are equal. -/
def order (x y : Float) : Ordering :=
  cmp (level x) (level y)

theorem order_swap (x y : Float) : (order x y).swap = order y x :=
  cmp_swap _ _

theorem order_of_isFinite (hx : x.isFinite = true) (hy : y.isFinite = true) :
    order x y = cmp (toRat x) (toRat y) := by
  rw [order, level_of_isFinite hx, level_of_isFinite hy, WithBot.coe_strictMono.cmp_map_eq,
    WithTop.coe_strictMono.cmp_map_eq]

theorem order_of_infinite {negative : Bool} (hx : value x = .infinite negative)
    (hy : y.isFinite = true) : order x y = if negative then .lt else .gt := by
  rw [order, level_of_infinite hx, level_of_isFinite hy]
  cases negative <;> simp [cmp, cmpUsing]

theorem beq_iff_order (hx : x.isNaN = false) (hy : y.isNaN = false) :
    (x == y) = true ↔ order x y = .eq := by
  show (UnpackedFloat.compare x.toModel.unpack y.toModel.unpack == some .eq) = true ↔ _
  rw [compare_level hx hy, beq_iff_eq, Option.some.injEq, order]

/-! ## Rounded numbers -/

/-- **A result compares with a double as the rounded number does**, whether or not it overflows. -/
theorem order_of_value (h : value z = roundedSigned s q) (hy : y.isFinite = true) :
    order z y = cmp (near q) (toRat y) := by
  obtain ⟨hlower, hupper⟩ := abs_lt.mp (abs_toRat_lt hy)
  by_cases hz : z.isFinite = true
  · rw [order_of_isFinite hz hy, toRat_eq_near h hz]
  rw [isFinite_iff_near_lt h, not_lt, abs_near] at hz
  rcases lt_trichotomy q 0 with hq | rfl | hq
  · rw [roundedSigned_of_neg s hq] at h
    rw [abs_of_neg hq] at hz
    have hneg : near q ≤ -2 ^ (1024 : ℤ) := by
      rw [near, if_pos hq]
      exact neg_le_neg hz
    have hvalue := ((rounded_cases true (neg_pos.mpr hq).le).resolve_left fun hlt =>
      hz.not_gt hlt.1).2
    rw [order_of_infinite (h.trans hvalue) hy, if_pos rfl]
    exact ((cmp_eq_lt_iff _ _).mpr (hneg.trans_lt hlower)).symm
  · rw [abs_zero, nearest_zero] at hz
    exact absurd hz (two_zpow_pos 1024).not_ge
  · rw [roundedSigned_of_pos s hq] at h
    rw [abs_of_pos hq] at hz
    have hpos : 2 ^ (1024 : ℤ) ≤ near q := by
      rwa [near_of_nonneg hq.le]
    have hvalue := ((rounded_cases false hq.le).resolve_left fun hlt => hz.not_gt hlt.1).2
    rw [order_of_infinite (h.trans hvalue) hy, if_neg Bool.false_ne_true]
    exact ((cmp_eq_gt_iff _ _).mpr (hupper.trans_le hpos)).symm

/-- What is at least as large as the least positive double is not rounded to zero. -/
theorem near_pos (h : 2 ^ minExponent ≤ q) : 0 < near q := by
  have hself : near (2 ^ minExponent) = 2 ^ minExponent := by
    have hone := nearest_of_mantissa_lt (m := 1) (e := minExponent) (by norm_num) le_rfl
    rwa [Nat.cast_one, one_mul, ← near_of_nonneg (two_zpow_pos minExponent).le] at hone
  calc 0 < (2 : ℚ) ^ minExponent := two_zpow_pos minExponent
    _ = near (2 ^ minExponent) := hself.symm
    _ ≤ near q := near_mono h

/-- **A number keeps its sign** if it is zero or at least as large as the least positive double. -/
theorem cmp_near_zero (h : q ≠ 0 → 2 ^ minExponent ≤ |q|) : cmp (near q) 0 = cmp q 0 := by
  rcases lt_trichotomy q 0 with hq | rfl | hq
  · have hpos := near_pos (h hq.ne)
    rw [abs_of_neg hq, near_neg, neg_pos] at hpos
    rw [(cmp_eq_lt_iff _ _).mpr hpos, (cmp_eq_lt_iff _ _).mpr hq]
  · rw [near_of_nonneg le_rfl, nearest_zero]
  · have hpos := near_pos (h hq.ne')
    rw [abs_of_pos hq] at hpos
    rw [(cmp_eq_gt_iff _ _).mpr hpos, (cmp_eq_gt_iff _ _).mpr hq]

/-- Every double is a multiple of the least positive one. -/
theorem exists_multiple (hx : x.isFinite = true) : ∃ n : ℤ, toRat x = n * 2 ^ minExponent := by
  obtain ⟨negative, m, e, h⟩ := isFinite_iff.mp hx
  rw [toRat_of_value h]
  have hmagnitude : ∃ k : ℕ, (m : ℚ) * 2 ^ e = k * 2 ^ minExponent := by
    rcases canonical_of_value h with ⟨rfl, rfl⟩ | ⟨-, hc, -⟩
    · exact ⟨0, by simp⟩
    · obtain ⟨d, rfl⟩ := Int.le.dest hc.minExponent_le
      refine ⟨m * 2 ^ d, ?_⟩
      rw [two_zpow_add, zpow_natCast]
      push_cast
      ring
  obtain ⟨k, hk⟩ := hmagnitude
  rw [hk]
  cases negative with
  | false => exact ⟨k, by simp⟩
  | true => exact ⟨-k, by simp⟩

/-- So what is not zero is at least as large as that. -/
theorem le_abs_of_multiple {n : ℤ} (hq : q = n * 2 ^ minExponent) (hne : q ≠ 0) :
    2 ^ minExponent ≤ |q| := by
  have hstep := two_zpow_pos minExponent
  have hn : n ≠ 0 := by
    rintro rfl
    exact hne (by rw [hq, Int.cast_zero, zero_mul])
  have hone : (1 : ℚ) ≤ |(n : ℚ)| := by
    exact_mod_cast Int.one_le_abs hn
  rw [hq, abs_mul, abs_of_pos hstep]
  exact le_mul_of_one_le_left hstep.le hone

/-! ## Differences -/

/-- **The sign of a difference** is the comparison of its operands. -/
theorem order_sub (hx : x.isFinite = true) (hy : y.isFinite = true) :
    order (x - y) 0.0 = order x y := by
  obtain ⟨n, hn⟩ := exists_multiple hx
  obtain ⟨k, hk⟩ := exists_multiple hy
  have hdiff : toRat x - toRat y = ((n - k : ℤ) : ℚ) * 2 ^ minExponent := by
    rw [hn, hk]
    push_cast
    ring
  rw [order_of_value (value_sub hx hy) isFinite_zero, toRat_zero,
    cmp_near_zero (le_abs_of_multiple hdiff), cmp_sub_zero, order_of_isFinite hx hy]

/-- The subtrahend may be infinite. -/
theorem order_finite_sub (hx : x.isFinite = true) (hy : y.isNaN = false) :
    order (x - y) 0.0 = order x y := by
  rcases finite_or_infinite hy with hy | ⟨negative, hy⟩
  · exact order_sub hx hy
  · rw [order_of_infinite (value_sub_infinite hx hy) isFinite_zero, ← order_swap,
      order_of_infinite hy hx]
    cases negative <;> rfl

/-! ## Multiples -/

/-- A double times an infinity is infinite, if it is not zero. -/
theorem value_hundred_mul_infinite {negative : Bool} (hx : value x = .infinite negative) :
    value (100.0 * x) = .infinite negative := by
  rw [value_mul_eq, hx, value_hundred]
  cases negative <;> exact congrArg valueOf (unpack_pack_infinity _)

theorem isNaN_hundred_mul (hx : x.isNaN = false) : (100.0 * x).isNaN = false := by
  rcases finite_or_infinite hx with hx | ⟨negative, hx⟩
  · exact isNaN_of_roundedSigned (value_mul isFinite_hundred hx)
  · exact isNaN_of_infinite (value_hundred_mul_infinite hx)

/-- **A multiple by one hundred has the sign of the number.** -/
theorem order_hundred_mul (hx : x.isNaN = false) : order (100.0 * x) 0.0 = order x 0.0 := by
  rcases finite_or_infinite hx with hx | ⟨negative, hx⟩
  · obtain ⟨n, hn⟩ := exists_multiple hx
    have hproduct : toRat 100.0 * toRat x = ((100 * n : ℤ) : ℚ) * 2 ^ minExponent := by
      rw [toRat_hundred, hn]
      push_cast
      ring
    rw [order_of_value (value_mul isFinite_hundred hx) isFinite_zero,
      order_of_isFinite hx isFinite_zero, toRat_zero,
      cmp_near_zero (le_abs_of_multiple hproduct), toRat_hundred]
    simpa using cmp_mul_pos_left (by norm_num : (0 : ℚ) < 100) (toRat x) 0
  · rw [order_of_infinite (value_hundred_mul_infinite hx) isFinite_zero,
      order_of_infinite hx isFinite_zero]

/-! ## Quotients -/

/-- **A magnitude below another one is below it by a part of `2 ^ -53`.**  The bound is met just
below a power of two, where the step of the smaller one is half as large. -/
theorem magnitude_gap {m m' : ℕ} {e e' : ℤ} (hc : Canonical m e) (hc' : Canonical m' e')
    (h : (m' : ℚ) * 2 ^ e' < m * 2 ^ e) : (m' : ℚ) * 2 ^ e' ≤ m * 2 ^ e * (1 - 1 / 2 ^ 53) := by
  have hstep := two_zpow_pos e
  rcases le_or_gt e e' with he | he
  · -- In steps of the greater one, both are whole numbers.
    obtain ⟨k, rfl⟩ := Int.le.dest he
    rw [two_zpow_add, zpow_natCast, mul_comm ((2 : ℚ) ^ e), ← mul_assoc] at h ⊢
    have hlt : m' * 2 ^ k < m := by
      exact_mod_cast lt_of_mul_lt_mul_right h hstep.le
    have hle : (m' : ℚ) * 2 ^ k + 1 ≤ m := by
      exact_mod_cast hlt
    have hm : (m : ℚ) ≤ 2 ^ 53 := by
      exact_mod_cast hc.mantissa_lt.le
    calc (m' : ℚ) * 2 ^ k * 2 ^ e ≤ m * (1 - 1 / 2 ^ 53) * 2 ^ e :=
          mul_le_mul_of_nonneg_right (by linarith) hstep.le
      _ = m * 2 ^ e * (1 - 1 / 2 ^ 53) := mul_right_comm _ _ _
  · -- In smaller steps, the mantissa of the greater one is full.
    have hfull : 2 ^ 52 ≤ m :=
      hc.normal_or.resolve_right (by have hmin := hc'.minExponent_le; omega)
    have hm : (2 : ℚ) ^ 52 ≤ m := by
      exact_mod_cast hfull
    have hm' : (m' : ℚ) ≤ 2 ^ 53 - 1 := by
      have hlt := hc'.mantissa_lt
      rw [le_sub_iff_add_le]
      exact_mod_cast hlt
    have hhalf : (2 : ℚ) ^ e' ≤ 2 ^ e / 2 := by
      rw [div_eq_mul_inv, ← zpow_sub_one₀ (two_ne_zero' ℚ)]
      exact two_zpow_le (by omega)
    calc (m' : ℚ) * 2 ^ e' ≤ (2 ^ 53 - 1) * (2 ^ e / 2) :=
          mul_le_mul hm' hhalf (two_zpow_pos e').le (by norm_num)
      _ = 2 ^ 52 * 2 ^ e * (1 - 1 / 2 ^ 53) := by ring
      _ ≤ m * 2 ^ e * (1 - 1 / 2 ^ 53) :=
          mul_le_mul_of_nonneg_right (mul_le_mul_of_nonneg_right hm hstep.le) (by norm_num)

/-- A positive double is a magnitude. -/
theorem exists_canonical (hx : x.isFinite = true) (hpos : 0 < toRat x) :
    ∃ m e, Canonical m e ∧ toRat x = m * 2 ^ e := by
  obtain ⟨negative, m, e, h⟩ := isFinite_iff.mp hx
  have hm := pos_of_toRat_ne_zero h hpos.ne'
  have hc := ((canonical_of_value h).resolve_left fun hzero => hm.ne' hzero.1).2.1
  rw [toRat_of_value h] at hpos ⊢
  cases negative with
  | false => exact ⟨m, e, hc, rfl⟩
  | true =>
    rw [signedRat_true, neg_pos] at hpos
    exact absurd hpos (magnitude_nonneg m e).not_gt

/-- **What is below a positive double** is below it by that part. -/
theorem gap_below (hx : x.isFinite = true) (hy : y.isFinite = true) (hpos : 0 < toRat y)
    (h : toRat x < toRat y) : toRat x ≤ toRat y * (1 - 1 / 2 ^ 53) := by
  rcases le_or_gt (toRat x) 0 with hzero | hxpos
  · exact hzero.trans (mul_nonneg hpos.le (by norm_num))
  obtain ⟨m', e', hc', hx'⟩ := exists_canonical hx hxpos
  obtain ⟨m, e, hc, hy'⟩ := exists_canonical hy hpos
  rw [hx', hy'] at h ⊢
  exact magnitude_gap hc hc' h

/-- The number just below one is a double. -/
theorem near_below_one : near (1 - 1 / 2 ^ 53) = 1 - 1 / 2 ^ 53 := by
  have h := nearest_of_mantissa_lt (m := 2 ^ 53 - 1) (e := -53) (by norm_num) (by decide)
  rw [near_of_nonneg (by norm_num)]
  norm_num at h ⊢
  exact h

/-- Its inverse is not rounded to one.  It is just above the middle between one and the next
double. -/
theorem one_lt_near : 1 < near (1 / (1 - 1 / 2 ^ 53)) := by
  have hpos : (0 : ℚ) < 1 / (1 - 1 / 2 ^ 53) := by norm_num
  have hgrid : gridExponent (1 / (1 - 1 / 2 ^ 53)) = -52 := by
    refine gridExponent_eq hpos (by decide) ?_ (.inl ?_) <;> norm_num
  have herror := (abs_le.mp (abs_nearest_sub_le hpos.le)).1
  rw [hgrid] at herror
  rw [near_of_nonneg hpos.le]
  norm_num at herror ⊢
  linarith

/-- **A quotient compares with one as its operands do**, however close they are. -/
theorem order_div_one (hx : x.isFinite = true) (hy : y.isFinite = true) (hpos : 0 < toRat y) :
    order (x / y) 1.0 = order x y := by
  rw [order_of_value (value_div hx hy hpos.ne') isFinite_one, toRat_one, order_of_isFinite hx hy]
  rcases lt_trichotomy (toRat x) (toRat y) with h | h | h
  · have hle : toRat x / toRat y ≤ 1 - 1 / 2 ^ 53 := by
      rw [div_le_iff₀ hpos, mul_comm]
      exact gap_below hx hy hpos h
    have hlt : near (toRat x / toRat y) < 1 := by
      refine ((near_mono hle).trans_eq near_below_one).trans_lt ?_
      norm_num
    rw [(cmp_eq_lt_iff _ _).mpr hlt, (cmp_eq_lt_iff _ _).mpr h]
  · have hone : near 1 = 1 := by
      rw [← toRat_one]
      exact near_toRat isFinite_one
    rw [h, div_self hpos.ne', hone, cmp_self_eq_eq, cmp_self_eq_eq]
  · have hge : 1 / (1 - 1 / 2 ^ 53) ≤ toRat x / toRat y := by
      rw [div_le_div_iff₀ (by norm_num) hpos, one_mul]
      exact gap_below hy hx (hpos.trans h) h
    have hgt := one_lt_near.trans_le (near_mono hge)
    rw [(cmp_eq_gt_iff _ _).mpr hgt, (cmp_eq_gt_iff _ _).mpr h]

theorem isNaN_div (hx : x.isFinite = true) (hy : y.isFinite = true) (hne : toRat y ≠ 0) :
    (x / y).isNaN = false :=
  isNaN_of_roundedSigned (value_div hx hy hne)

end Binary64
end TransferCost
