import TransferCost.Proofs.Binary64.Arithmetic

/-!
# Comparing doubles

Finite doubles are compared as the numbers that they stand for.  The logical model compares
exponents first and mantissas then, and this is right because both are canonical: a number with the
greater exponent has a full mantissa.

The second half of the file is about results of operations.  `near` is `nearest` for signed numbers,
and a result with the value `roundedSigned s q` is finite if `near q` is below `2 ^ 1024`, and is
`near q` then.
-/

namespace TransferCost
namespace Binary64

open Float.Model
open Float.Model.UnpackedFloat (Sign)

/-! ## Finite doubles -/

variable {x y : Float}

theorem magnitude_lt_of_exponent_lt {m₁ m₂ : ℕ} {e₁ e₂ : ℤ} (hc₁ : Canonical m₁ e₁)
    (hc₂ : Canonical m₂ e₂) (he : e₁ < e₂) : (m₁ : ℚ) * 2 ^ e₁ < m₂ * 2 ^ e₂ := by
  have hmin := hc₁.minExponent_le
  have hfull : 2 ^ 52 ≤ m₂ := hc₂.normal_or.resolve_right (by omega)
  have hlt : (m₁ : ℚ) < 2 ^ (53 : ℤ) := by
    exact_mod_cast hc₁.mantissa_lt
  have hle : (2 : ℚ) ^ (52 : ℤ) ≤ m₂ := by
    exact_mod_cast hfull
  calc (m₁ : ℚ) * 2 ^ e₁ < 2 ^ (53 : ℤ) * 2 ^ e₁ := mul_lt_mul_of_pos_right hlt (two_zpow_pos e₁)
    _ = 2 ^ (53 + e₁) := (two_zpow_add 53 e₁).symm
    _ ≤ 2 ^ (52 + e₂) := two_zpow_le (by omega)
    _ = 2 ^ (52 : ℤ) * 2 ^ e₂ := two_zpow_add 52 e₂
    _ ≤ m₂ * 2 ^ e₂ := mul_le_mul_of_nonneg_right hle (two_zpow_pos e₂).le

/-- A mantissa has 53 bits at most, so a large number has a large exponent. -/
theorem lt_exponent_of_le {m : ℕ} {d e : ℤ} (hm : m < 2 ^ 53)
    (h : (2 : ℚ) ^ (53 + d) ≤ m * 2 ^ e) : d < e := by
  have hlt : (m : ℚ) < 2 ^ (53 : ℤ) := by
    exact_mod_cast hm
  have hpow : (2 : ℚ) ^ (53 + d) < 2 ^ (53 + e) := by
    rw [two_zpow_add 53 e]
    exact h.trans_lt (mul_lt_mul_of_pos_right hlt (two_zpow_pos e))
  have hexponent := two_zpow_lt_iff.mp hpow
  omega

theorem compare_of_lt {a b : ℚ} (h : a < b) : compare a b = .lt :=
  compare_lt_iff_lt.mpr h

theorem compare_of_gt {a b : ℚ} (h : b < a) : compare a b = .gt :=
  compare_gt_iff_gt.mpr h

theorem compare_self_rat (a : ℚ) : compare a a = .eq :=
  compare_eq_iff_eq.mpr rfl

theorem compare_neg (a b : ℚ) : compare (-a) (-b) = (compare a b).swap := by
  rcases lt_trichotomy a b with h | rfl | h
  · rw [compare_of_lt h, compare_of_gt (neg_lt_neg h), Ordering.swap]
  · rw [compare_self_rat, compare_self_rat, Ordering.swap]
  · rw [compare_of_gt h, compare_of_lt (neg_lt_neg h), Ordering.swap]

theorem compare_natCast_mul {a : ℚ} (ha : 0 < a) (m n : ℕ) :
    compare ((m : ℚ) * a) (n * a) = compare m n := by
  rcases lt_trichotomy m n with h | rfl | h
  · rw [compare_lt_iff_lt.mpr h, compare_of_lt (mul_lt_mul_of_pos_right (Nat.cast_lt.mpr h) ha)]
  · rw [compare_self_rat, compare_eq_iff_eq.mpr rfl]
  · rw [compare_gt_iff_gt.mpr h, compare_of_gt (mul_lt_mul_of_pos_right (Nat.cast_lt.mpr h) ha)]

/-- **Canonical numbers are compared by their exponents first.** -/
theorem compare_magnitude {m₁ m₂ : ℕ} {e₁ e₂ : ℤ} (hc₁ : Canonical m₁ e₁) (hc₂ : Canonical m₂ e₂) :
    (compare e₁ e₂).then (compare m₁ m₂) = compare ((m₁ : ℚ) * 2 ^ e₁) (m₂ * 2 ^ e₂) := by
  rcases lt_trichotomy e₁ e₂ with he | rfl | he
  · rw [compare_lt_iff_lt.mpr he, compare_of_lt (magnitude_lt_of_exponent_lt hc₁ hc₂ he)]
    rfl
  · rw [compare_eq_iff_eq.mpr rfl, compare_natCast_mul (two_zpow_pos e₁)]
    rfl
  · rw [compare_gt_iff_gt.mpr he, compare_of_gt (magnitude_lt_of_exponent_lt hc₂ hc₁ he)]
    rfl

/-- **Finite doubles are compared as the numbers that they stand for.** -/
theorem compare_finite (hx : x.isFinite = true) (hy : y.isFinite = true) :
    UnpackedFloat.compare x.toModel.unpack y.toModel.unpack =
      some (compare (toRat x) (toRat y)) := by
  obtain ⟨n₁, m₁, e₁, h₁⟩ := isFinite_iff.mp hx
  obtain ⟨n₂, m₂, e₂, h₂⟩ := isFinite_iff.mp hy
  rw [unpack_eq, unpack_eq, h₁, h₂, toRat_of_value h₁, toRat_of_value h₂]
  rcases canonical_of_value h₁ with ⟨rfl, rfl⟩ | ⟨hm₁, hc₁, -⟩
  · rw [unpackedOf_zero, Nat.cast_zero, zero_mul, signedRat_zero]
    rcases canonical_of_value h₂ with ⟨rfl, rfl⟩ | ⟨hm₂, hc₂, -⟩
    · rw [unpackedOf_zero, Nat.cast_zero, zero_mul, signedRat_zero, compare_self_rat]
      rfl
    · have hpos := magnitude_pos hm₂ e₂
      rw [unpackedOf_finite n₂ e₂ hm₂]
      cases n₂
      · rw [signedRat_false, compare_of_lt hpos]
        rfl
      · rw [signedRat_true, compare_of_gt (neg_neg_of_pos hpos)]
        rfl
  have hpos₁ := magnitude_pos hm₁ e₁
  rw [unpackedOf_finite n₁ e₁ hm₁]
  rcases canonical_of_value h₂ with ⟨rfl, rfl⟩ | ⟨hm₂, hc₂, -⟩
  · rw [unpackedOf_zero, Nat.cast_zero, zero_mul, signedRat_zero]
    cases n₁
    · rw [signedRat_false, compare_of_gt hpos₁]
      rfl
    · rw [signedRat_true, compare_of_lt (neg_neg_of_pos hpos₁)]
      rfl
  have hpos₂ := magnitude_pos hm₂ e₂
  have hcompare := compare_magnitude hc₁ hc₂
  rw [unpackedOf_finite n₂ e₂ hm₂]
  cases n₁ <;> cases n₂
  · exact congrArg some hcompare
  · rw [signedRat_false, signedRat_true, compare_of_gt (by linarith)]
    rfl
  · rw [signedRat_false, signedRat_true, compare_of_lt (by linarith)]
    rfl
  · rw [signedRat_true, signedRat_true, compare_neg, ← hcompare]
    rfl

theorem lt_iff_compare : x < y ↔
    UnpackedFloat.compare x.toModel.unpack y.toModel.unpack = some .lt := by
  show decide (x.toModel < y.toModel) = true ↔ _
  rw [decide_eq_true_iff]
  show (UnpackedFloat.compare x.toModel.unpack y.toModel.unpack == some .lt) = true ↔ _
  exact beq_iff_eq

theorem le_iff_compare : x ≤ y ↔
    (UnpackedFloat.compare x.toModel.unpack y.toModel.unpack).any (·.isLE) = true := by
  show decide (x.toModel ≤ y.toModel) = true ↔ _
  rw [decide_eq_true_iff]
  rfl

theorem lt_iff (hx : x.isFinite = true) (hy : y.isFinite = true) : x < y ↔ toRat x < toRat y := by
  rw [lt_iff_compare, compare_finite hx hy, Option.some.injEq, compare_lt_iff_lt]

theorem le_iff (hx : x.isFinite = true) (hy : y.isFinite = true) : x ≤ y ↔ toRat x ≤ toRat y := by
  rw [le_iff_compare, compare_finite hx hy, Option.any_some, Ordering.isLE_iff_ne_gt]
  exact compare_le_iff_le

theorem le_of_float_lt (h : x < y) : x ≤ y := by
  rw [lt_iff_compare] at h
  rw [le_iff_compare, h]
  rfl

theorem unpack_of_isFinite (hx : x.isFinite = true) :
    (∃ s, x.toModel.unpack = .zero s) ∨ ∃ s m e hm, x.toModel.unpack = .finite s m e hm := by
  change x.toModel.unpack.isFinite = true at hx
  cases hu : x.toModel.unpack with
  | notANumber => simp [hu, UnpackedFloat.isFinite] at hx
  | infinity s => simp [hu, UnpackedFloat.isFinite] at hx
  | zero s => exact .inl ⟨s, rfl⟩
  | finite s m e hm => exact .inr ⟨s, m, e, hm, rfl⟩

theorem isInf_of_value {negative : Bool} (h : value x = .infinite negative) : x.isInf = true := by
  rw [value_eq_valueOf] at h
  show x.toModel.unpack.isInf = true
  cases hu : x.toModel.unpack with
  | infinity s => rfl
  | notANumber => simp [hu, valueOf] at h
  | zero s => simp [hu, valueOf] at h
  | finite s m e hm => simp [hu, valueOf] at h

/-- A double between finite ones is finite. -/
theorem isFinite_of_le_of_le {z : Float} (hx : x.isFinite = true) (hy : y.isFinite = true)
    (hxz : x ≤ z) (hzy : z ≤ y) : z.isFinite = true := by
  rw [le_iff_compare] at hxz hzy
  change z.toModel.unpack.isFinite = true
  cases hz : z.toModel.unpack with
  | zero s => rfl
  | finite s m e hm => rfl
  | notANumber =>
    rw [hz] at hzy
    exact absurd hzy (by simp [UnpackedFloat.compare])
  | infinity s =>
    rw [hz] at hxz hzy
    cases s with
    | positive =>
      rcases unpack_of_isFinite hy with ⟨t, hu⟩ | ⟨t, m, e, hm, hu⟩ <;> rw [hu] at hzy <;>
        exact absurd hzy (by simp [UnpackedFloat.compare])
    | negative =>
      rcases unpack_of_isFinite hx with ⟨t, hu⟩ | ⟨t, m, e, hm, hu⟩ <;> rw [hu] at hxz <;>
        exact absurd hxz (by simp [UnpackedFloat.compare])

/-! ## Results of operations -/

/-- The nearest number with a 53-bit mantissa, of either sign. -/
def near (q : ℚ) : ℚ :=
  if q < 0 then -nearest (-q) else nearest q

theorem near_of_nonneg {q : ℚ} (hq : 0 ≤ q) : near q = nearest q :=
  if_neg hq.not_gt

theorem near_neg (q : ℚ) : near (-q) = -near q := by
  rcases lt_trichotomy q 0 with h | rfl | h
  · rw [near_of_nonneg (by linarith), near, if_pos h, neg_neg]
  · rw [neg_zero, near_of_nonneg le_rfl, nearest_zero, neg_zero]
  · rw [near_of_nonneg h.le, near, if_pos (by linarith), neg_neg]

theorem near_nonneg {q : ℚ} (hq : 0 ≤ q) : 0 ≤ near q := by
  rw [near_of_nonneg hq]
  exact nearest_nonneg q

theorem abs_near (q : ℚ) : |near q| = nearest |q| := by
  rcases le_total 0 q with h | h
  · rw [near_of_nonneg h, abs_of_nonneg h, abs_of_nonneg (nearest_nonneg q)]
  · have hneg : 0 ≤ -q := by linarith
    rw [← neg_neg (near q), ← near_neg, abs_neg, near_of_nonneg hneg, abs_of_nonpos h,
      abs_of_nonneg (nearest_nonneg _)]

/-- **Rounding is monotone.** -/
theorem near_mono {a b : ℚ} (h : a ≤ b) : near a ≤ near b := by
  rcases le_total 0 a with ha | ha
  · rw [near_of_nonneg ha, near_of_nonneg (ha.trans h)]
    exact nearest_mono ha h
  have hna : near a = -nearest (-a) := by
    rw [← near_of_nonneg (by linarith : 0 ≤ -a), near_neg, neg_neg]
  rcases le_total 0 b with hb | hb
  · have hle := nearest_nonneg (-a)
    have hge := near_nonneg hb
    linarith
  · have hnb : near b = -nearest (-b) := by
      rw [← near_of_nonneg (by linarith : 0 ≤ -b), near_neg, neg_neg]
    have hle := nearest_mono (by linarith : 0 ≤ -b) (neg_le_neg h)
    linarith

/-- **A double is near to itself.** -/
theorem near_toRat (hx : x.isFinite = true) : near (toRat x) = toRat x := by
  obtain ⟨n, m, e, h⟩ := isFinite_iff.mp hx
  rw [toRat_of_value h]
  have hmagnitude : near ((m : ℚ) * 2 ^ e) = m * 2 ^ e := by
    rw [near_of_nonneg (magnitude_nonneg m e)]
    rcases canonical_of_value h with ⟨rfl, rfl⟩ | ⟨hm, hc, -⟩
    · simp
    · exact nearest_of_canonical hm hc
  cases n
  · exact hmagnitude
  · rw [signedRat_true, near_neg, hmagnitude]

/-- What is not above a double is not rounded to a number above it. -/
theorem near_le_toRat {q : ℚ} (hx : x.isFinite = true) (h : q ≤ toRat x) : near q ≤ toRat x :=
  (near_mono h).trans_eq (near_toRat hx)

/-- What is not below a double is not rounded to a number below it. -/
theorem toRat_le_near {q : ℚ} (hx : x.isFinite = true) (h : toRat x ≤ q) : toRat x ≤ near q :=
  (near_toRat hx).symm.trans_le (near_mono h)

/-- Rounding is off by little in comparison with the number, or with the least double. -/
theorem abs_near_sub_le (q : ℚ) : |near q - q| ≤ |q| / 2 ^ 53 + 1 / 2 ^ 1075 := by
  rcases le_total 0 q with h | h
  · rw [near_of_nonneg h, abs_of_nonneg h]
    exact abs_nearest_sub_le_rel h
  · have hneg : 0 ≤ -q := by linarith
    have heq : near q - q = -(nearest (-q) - -q) := by
      rw [← near_of_nonneg hneg, near_neg]
      ring
    rw [heq, abs_neg, abs_of_nonpos h]
    exact abs_nearest_sub_le_rel hneg

/-- **What a result is, and whether it is finite.** -/
theorem roundedSigned_cases (s : Bool) (q : ℚ) :
    (|near q| < 2 ^ (1024 : ℤ) ∧
        ∃ n m e, roundedSigned s q = .finite n m e ∧ signedRat n (m * 2 ^ e) = near q) ∨
      (2 ^ (1024 : ℤ) ≤ |near q| ∧ ∃ n, roundedSigned s q = .infinite n) := by
  rw [abs_near]
  unfold roundedSigned
  rcases rounded_cases (if q = 0 then s else decide (q < 0)) (abs_nonneg q) with
    ⟨hlt, m, e, heq, hm⟩ | ⟨hle, heq⟩
  · refine .inl ⟨hlt, _, m, e, heq, ?_⟩
    rw [hm]
    rcases lt_trichotomy q 0 with h | rfl | h
    · rw [if_neg h.ne, decide_eq_true h, signedRat_true, abs_of_neg h, near, if_pos h]
    · rw [abs_zero, nearest_zero, signedRat_zero, near_of_nonneg le_rfl, nearest_zero]
    · rw [if_neg h.ne', decide_eq_false h.not_gt, signedRat_false, abs_of_pos h,
        near_of_nonneg h.le]
  · exact .inr ⟨hle, _, heq⟩

section Results

variable {z : Float} {s : Bool} {q : ℚ}

theorem isFinite_iff_near_lt (h : value z = roundedSigned s q) :
    z.isFinite = true ↔ |near q| < 2 ^ (1024 : ℤ) := by
  rw [isFinite_iff, h]
  rcases roundedSigned_cases s q with ⟨hlt, n, m, e, heq, -⟩ | ⟨hle, n, heq⟩
  · rw [heq]
    exact ⟨fun _ => hlt, fun _ => ⟨n, m, e, rfl⟩⟩
  · rw [heq]
    constructor
    · rintro ⟨n', m, e, hh⟩
      exact absurd hh (by simp)
    · intro hlt
      exact absurd hle hlt.not_ge

theorem toRat_eq_near (h : value z = roundedSigned s q) (hz : z.isFinite = true) :
    toRat z = near q := by
  have hlt := (isFinite_iff_near_lt h).mp hz
  rcases roundedSigned_cases s q with ⟨-, n, m, e, heq, hm⟩ | ⟨hle, -⟩
  · rw [toRat_of_value (h.trans heq), hm]
  · exact absurd hle hlt.not_ge

theorem abs_toRat_lt (hx : x.isFinite = true) : |toRat x| < 2 ^ (1024 : ℤ) := by
  rw [← near_toRat hx]
  exact (isFinite_iff_near_lt (roundedSigned_toRat hx).symm).mp hx

/-- A result that is not greater than a double is finite. -/
theorem isFinite_of_abs_le (h : value z = roundedSigned s q) (hx : x.isFinite = true)
    (hq : |q| ≤ |toRat x|) : z.isFinite = true := by
  rw [isFinite_iff_near_lt h, abs_near]
  have hmono := nearest_mono (abs_nonneg q) hq
  rw [← abs_near (toRat x), near_toRat hx] at hmono
  exact hmono.trans_lt (abs_toRat_lt hx)

end Results

end Binary64
end TransferCost
