import TransferCost.Proofs.Binary64.Constants

/-!
# Comparing doubles of every kind

Finite doubles are compared as numbers.  The infinities stand at the two ends, and what is not a
number is neither below nor above anything, itself included.

`level` puts this in one place.  It is the position of a number on the line of the rationals with
both ends added, and numbers are compared as their levels are (`lt_iff_level`, `le_iff_level`).  So
the laws of a linear order hold among numbers, `-0.0` and `0.0` being on one level.  Outside of them
only this is left: `not_lt_of_isNaN`, `not_isNaN_of_lt`.

The two zeros are the only doubles that are told apart although they are on one level:
`eq_of_toRat`, `beq_zero_iff_eq`.

Doubles that are not on one level are a step apart at least: `add_step_le_of_lt`.
-/

namespace TransferCost
namespace Binary64

open Float.Model

variable {x y z : Float}

/-! ## Numbers -/

theorem isNaN_iff : x.isNaN = true ↔ value x = .notANumber := by
  rw [value_eq_valueOf]
  show x.toModel.unpack.isNaN = true ↔ _
  cases x.toModel.unpack <;> simp [UnpackedFloat.isNaN, valueOf]

theorem isNaN_of_isFinite (hx : x.isFinite = true) : x.isNaN = false := by
  obtain ⟨n, m, e, h⟩ := isFinite_iff.mp hx
  rw [Bool.eq_false_iff, ne_eq, isNaN_iff, h]
  exact Value.noConfusion

theorem isNaN_of_infinite {negative : Bool} (h : value x = .infinite negative) :
    x.isNaN = false := by
  rw [Bool.eq_false_iff, ne_eq, isNaN_iff, h]
  exact Value.noConfusion

/-- What is a number is finite or infinite. -/
theorem finite_or_infinite (hx : x.isNaN = false) :
    x.isFinite = true ∨ ∃ negative, value x = .infinite negative := by
  cases h : value x with
  | notANumber => rw [isNaN_iff.mpr h] at hx; exact absurd hx (by simp)
  | infinite negative => exact .inr ⟨negative, rfl⟩
  | finite negative m e => exact .inl (isFinite_iff.mpr ⟨negative, m, e, h⟩)

/-! ## Levels -/

/-- The place of a double on the line of numbers, which has an end at either side.  What is not a
number is put at the lower end, for want of a better place. -/
def level (x : Float) : WithBot (WithTop ℚ) :=
  match value x with
  | .finite negative m e => ((signedRat negative (m * 2 ^ e) : ℚ) : WithTop ℚ)
  | .infinite false => ((⊤ : WithTop ℚ) : WithBot (WithTop ℚ))
  | .infinite true => ⊥
  | .notANumber => ⊥

theorem level_of_isFinite (hx : x.isFinite = true) : level x = ((toRat x : ℚ) : WithTop ℚ) := by
  obtain ⟨n, m, e, h⟩ := isFinite_iff.mp hx
  rw [level, toRat_of_value h, h]

theorem level_of_infinite {negative : Bool} (h : value x = .infinite negative) :
    level x = if negative then ⊥ else ((⊤ : WithTop ℚ) : WithBot (WithTop ℚ)) := by
  rw [level, h]
  cases negative <;> rfl

/-- An infinite double is compared with any number by its sign alone. -/
theorem compare_infinite_finite {negative : Bool} (hx : value x = .infinite negative)
    (hy : y.isFinite = true) : UnpackedFloat.compare x.toModel.unpack y.toModel.unpack =
      some (if negative then .lt else .gt) := by
  rw [unpack_of_infinite hx]
  rcases unpack_of_isFinite hy with ⟨s, hu⟩ | ⟨s, m, e, hm, hu⟩ <;> rw [hu] <;> cases negative <;>
    rfl

theorem compare_finite_infinite {negative : Bool} (hx : x.isFinite = true)
    (hy : value y = .infinite negative) :
    UnpackedFloat.compare x.toModel.unpack y.toModel.unpack =
      some (if negative then .gt else .lt) := by
  rw [unpack_of_infinite hy]
  rcases unpack_of_isFinite hx with ⟨s, hu⟩ | ⟨s, m, e, hm, hu⟩ <;> rw [hu] <;> cases negative <;>
    rfl

theorem compare_infinite {n₁ n₂ : Bool} (hx : value x = .infinite n₁)
    (hy : value y = .infinite n₂) :
    UnpackedFloat.compare x.toModel.unpack y.toModel.unpack = some (compare n₂ n₁) := by
  rw [unpack_of_infinite hx, unpack_of_infinite hy]
  cases n₁ <;> cases n₂ <;> rfl

/-- **Numbers are compared as their levels are.** -/
theorem compare_level (hx : x.isNaN = false) (hy : y.isNaN = false) :
    UnpackedFloat.compare x.toModel.unpack y.toModel.unpack =
      some (cmp (level x) (level y)) := by
  rcases finite_or_infinite hx with hx | ⟨n₁, hx⟩ <;>
    rcases finite_or_infinite hy with hy | ⟨n₂, hy⟩
  · rw [compare_finite hx hy, level_of_isFinite hx, level_of_isFinite hy]
    rw [WithBot.coe_strictMono.cmp_map_eq, WithTop.coe_strictMono.cmp_map_eq, cmp_eq_compare]
  · rw [compare_finite_infinite hx hy, level_of_isFinite hx, level_of_infinite hy]
    cases n₂ <;> simp [cmp, cmpUsing]
  · rw [compare_infinite_finite hx hy, level_of_infinite hx, level_of_isFinite hy]
    cases n₁ <;> simp [cmp, cmpUsing]
  · rw [compare_infinite hx hy, level_of_infinite hx, level_of_infinite hy]
    cases n₁ <;> cases n₂ <;> simp [cmp, cmpUsing] <;> rfl

theorem lt_iff_level (hx : x.isNaN = false) (hy : y.isNaN = false) : x < y ↔ level x < level y := by
  rw [lt_iff_compare, compare_level hx hy, Option.some.injEq, cmp_eq_lt_iff]

theorem le_iff_level (hx : x.isNaN = false) (hy : y.isNaN = false) : x ≤ y ↔ level x ≤ level y := by
  rw [le_iff_compare, compare_level hx hy, Option.any_some, Ordering.isLE_iff_ne_gt]
  exact (not_congr (cmp_eq_gt_iff _ _)).trans not_lt

/-! ## Laws -/

/-- What is not a number has no place in the order at all. -/
theorem compare_of_isNaN (h : x.isNaN = true ∨ y.isNaN = true) :
    UnpackedFloat.compare x.toModel.unpack y.toModel.unpack = none := by
  rw [unpack_eq x, unpack_eq y]
  rcases h with h | h
  · rw [isNaN_iff.mp h, unpackedOf, UnpackedFloat.compare]
  · rw [isNaN_iff.mp h]
    cases unpackedOf (value x) <;> rfl

/-- **What is not a number is not below anything**, nor is anything below it. -/
theorem not_lt_of_isNaN (h : x.isNaN = true ∨ y.isNaN = true) : ¬ x < y := by
  rw [lt_iff_compare, compare_of_isNaN h]
  exact nofun

theorem not_le_of_isNaN (h : x.isNaN = true ∨ y.isNaN = true) : ¬ x ≤ y := by
  rw [le_iff_compare, compare_of_isNaN h]
  exact Bool.false_ne_true

/-- What is compared successfully is a number. -/
theorem not_isNaN_of_le (h : x ≤ y) : x.isNaN = false ∧ y.isNaN = false := by
  by_contra hnot
  rw [not_and_or, Bool.not_eq_false, Bool.not_eq_false] at hnot
  exact not_le_of_isNaN hnot h

theorem not_isNaN_of_lt (h : x < y) : x.isNaN = false ∧ y.isNaN = false :=
  not_isNaN_of_le (le_of_float_lt h)

/-- **Of two numbers, the one that is not below is above or equal.** -/
theorem not_lt_iff (hx : x.isNaN = false) (hy : y.isNaN = false) : ¬ x < y ↔ y ≤ x := by
  rw [lt_iff_level hx hy, le_iff_level hy hx, not_lt]

theorem lt_of_float_le_of_lt (hxy : x ≤ y) (hyz : y < z) : x < z := by
  obtain ⟨hx, hy⟩ := not_isNaN_of_le hxy
  obtain ⟨-, hz⟩ := not_isNaN_of_lt hyz
  rw [le_iff_level hx hy] at hxy
  rw [lt_iff_level hy hz] at hyz
  rw [lt_iff_level hx hz]
  exact hxy.trans_lt hyz

/-! ## Doubles of the same number -/

/-- A double is known by its number, unless that is zero. -/
theorem eq_of_toRat (hx : x.isFinite = true) (hy : y.isFinite = true) (h : toRat x = toRat y)
    (hne : toRat y ≠ 0) : x = y := by
  apply value_injective
  rw [← roundedSigned_toRat hx, ← roundedSigned_toRat hy, h]
  exact roundedSigned_congr fun hzero => absurd hzero hne

theorem eq_zero_of_toRat (hx : x.isFinite = true) (h : toRat x = 0) : x = 0.0 ∨ x = -0.0 := by
  have hvalue := roundedSigned_toRat hx
  rw [h, roundedSigned_zero] at hvalue
  cases hsign : isNegative x with
  | false =>
    rw [hsign, ← value_zero] at hvalue
    exact .inl (value_injective hvalue.symm)
  | true =>
    rw [hsign, ← value_negZero] at hvalue
    exact .inr (value_injective hvalue.symm)

/-- **Only the two zeros count as zero.** -/
theorem beq_zero_iff_eq : (x == 0.0) = true ↔ x = 0.0 ∨ x = -0.0 := by
  constructor
  · intro h
    have hcompare : UnpackedFloat.compare x.toModel.unpack (0.0 : Float).toModel.unpack =
        some .eq := beq_iff_eq.mp h
    cases hnumber : x.isNaN with
    | true =>
      rw [compare_of_isNaN (.inl hnumber)] at hcompare
      exact absurd hcompare nofun
    | false =>
      rcases finite_or_infinite hnumber with hx | ⟨negative, hx⟩
      · exact eq_zero_of_toRat hx ((beq_zero_iff hx).mp h)
      · rw [compare_infinite_finite hx isFinite_zero] at hcompare
        cases negative <;> exact absurd hcompare nofun
  · rintro (rfl | rfl)
    · rw [beq_zero_iff isFinite_zero, toRat_zero]
    · rw [beq_zero_iff isFinite_negZero, toRat_negZero]

/-! ## The gap below a double -/

/-- Mantissas of 53 bits leave a gap of a whole step below one that is not the least of its step. -/
theorem magnitude_add_step_le {m m' : ℕ} {e e' : ℤ} (hm : 2 ^ 52 < m) (hm' : m' < 2 ^ 53)
    (h : (m' : ℚ) * 2 ^ e' < m * 2 ^ e) : (m' : ℚ) * 2 ^ e' + 2 ^ e ≤ m * 2 ^ e := by
  have hstep := two_zpow_pos e
  rcases le_or_gt e e' with he | he
  · -- In steps of `y`, both are whole numbers.
    obtain ⟨k, rfl⟩ := Int.le.dest he
    rw [two_zpow_add, zpow_natCast, mul_comm ((2 : ℚ) ^ e), ← mul_assoc] at h ⊢
    have hlt : m' * 2 ^ k < m := by
      exact_mod_cast lt_of_mul_lt_mul_right h hstep.le
    have hle : (m' : ℚ) * 2 ^ k + 1 ≤ m := by
      exact_mod_cast hlt
    rw [← add_one_mul]
    exact mul_le_mul_of_nonneg_right hle hstep.le
  · -- In smaller steps, the other is below the least mantissa.
    have hhalf : (2 : ℚ) ^ e' ≤ 2 ^ e / 2 := by
      rw [div_eq_mul_inv, ← zpow_sub_one₀ (two_ne_zero' ℚ)]
      exact two_zpow_le (by omega)
    have hsmall : (m' : ℚ) * 2 ^ e' ≤ 2 ^ 53 * (2 ^ e / 2) :=
      mul_le_mul (by exact_mod_cast hm'.le) hhalf (two_zpow_pos e').le (by norm_num)
    have hlarge : ((2 : ℚ) ^ 52 + 1) * 2 ^ e ≤ m * 2 ^ e :=
      mul_le_mul_of_nonneg_right (by exact_mod_cast hm) hstep.le
    linarith

/-- **What is below a double is below it by a whole step**, if the mantissa is not the least one. -/
theorem add_step_le_of_lt {m : ℕ} {e : ℤ} (hx : x.isFinite = true)
    (hy : value y = .finite false m e) (hm : 2 ^ 52 < m) (h : x < y) :
    toRat x + 2 ^ e ≤ toRat y := by
  rw [lt_iff hx (isFinite_iff.mpr ⟨_, _, _, hy⟩)] at h
  rw [toRat_of_value hy, signedRat_false] at h ⊢
  obtain ⟨negative, m', e', hvalue⟩ := isFinite_iff.mp hx
  rw [toRat_of_value hvalue] at h ⊢
  cases negative with
  | false =>
    rcases canonical_of_value hvalue with ⟨rfl, rfl⟩ | ⟨-, hcanonical, -⟩
    · exact magnitude_add_step_le hm (by norm_num) h
    · exact magnitude_add_step_le hm hcanonical.mantissa_lt h
  | true =>
    have hneg : -((m' : ℚ) * 2 ^ e') ≤ 0 :=
      neg_nonpos.mpr (mul_nonneg (Nat.cast_nonneg m') (two_zpow_pos e').le)
    have hone : (2 : ℚ) ^ e ≤ m * 2 ^ e :=
      le_mul_of_one_le_left (two_zpow_pos e).le (by exact_mod_cast hm.le.trans' (by norm_num))
    rw [signedRat_true]
    linarith

end Binary64
end TransferCost
