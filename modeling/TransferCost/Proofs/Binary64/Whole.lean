import TransferCost.Proofs.Means

/-!
# Rounding to whole numbers

`roundAway` is the nearest whole number to a rational one, and of two that are equally near the one
that is further from zero.  `roundWhole` gives exactly this number: what it rounds has fewer than 53
bits before the point, and so the result is a double and not rounded a second time.

`IsExactly x q` says that the double `x` is the number `q`, without any error.
-/

namespace TransferCost
namespace Binary64

/-- The double is exactly this number. -/
def IsExactly (x : Float) (q : ℚ) : Prop :=
  x.isFinite = true ∧ toRat x = q

theorem isExactly_toRat {x : Float} (hx : x.isFinite = true) : IsExactly x (toRat x) :=
  ⟨hx, rfl⟩

theorem isExactly_of_value {x : Float} {m : ℕ} {e : ℤ} {q : ℚ} (h : value x = .finite false m e)
    (hq : (m : ℚ) * 2 ^ e = q) : IsExactly x q := by
  refine ⟨isFinite_iff.mpr ⟨_, _, _, h⟩, ?_⟩
  rw [toRat_of_value h, signedRat_false, hq]

theorem isExactly_ofNat {n : ℕ} (hn : n ≤ 2 ^ 53) : IsExactly (Float.ofNat n) n :=
  ofNat_spec hn

/-- **A whole number that is written with decimals is exact**, as it is without them. -/
theorem isExactly_ofScientific {m n k : ℕ} (hm : m = n * 10 ^ k) (hn : n ≤ 2 ^ 53) :
    IsExactly (OfScientific.ofScientific m true k) n := by
  have hplain : (OfScientific.ofScientific m true k : Float) = Float.ofNat n := by
    apply value_injective
    have hexp : (m : ℚ) * 10 ^ signedExponent true k = n := by
      rw [hm, Nat.cast_mul, Nat.cast_pow, Nat.cast_ofNat, signedExponent, if_pos rfl,
        ten_zpow_negOfNat]
      exact mul_inv_cancel_right₀ (by positivity) _
    rw [value_ofNat, ← hexp]
    exact value_ofScientific m true k
  rw [hplain]
  exact isExactly_ofNat hn

/-! ## Rounding rational numbers -/

/-- The nearest whole number, and of two the one that is further from zero. -/
def roundAway (q : ℚ) : ℤ :=
  if 0 ≤ q then ⌊q + 1 / 2⌋ else ⌈q - 1 / 2⌉

theorem roundAway_nonneg {q : ℚ} (hq : 0 ≤ q) : 0 ≤ roundAway q := by
  rw [roundAway, if_pos hq, Int.floor_nonneg]
  linarith

theorem roundAway_nonpos {q : ℚ} (hq : q < 0) : roundAway q ≤ 0 := by
  rw [roundAway, if_neg hq.not_ge, Int.ceil_le, Int.cast_zero]
  linarith

/-- From one half on, a number is rounded to a positive one. -/
theorem one_le_roundAway_iff {q : ℚ} : 1 ≤ roundAway q ↔ 1 / 2 ≤ q := by
  rcases lt_or_ge q 0 with hq | hq
  · have hle := roundAway_nonpos hq
    exact iff_of_false (by omega) (by linarith)
  · rw [roundAway, if_pos hq, Int.le_floor, Int.cast_one]
    constructor <;> intro h <;> linarith

/-- **Rounding is monotone**, although halves go up on one side of zero and down on the other. -/
theorem roundAway_mono {a b : ℚ} (h : a ≤ b) : roundAway a ≤ roundAway b := by
  rcases lt_or_ge a 0 with ha | ha
  · rcases lt_or_ge b 0 with hb | hb
    · rw [roundAway, roundAway, if_neg ha.not_ge, if_neg hb.not_ge]
      exact Int.ceil_mono (sub_le_sub_right h _)
    · exact (roundAway_nonpos ha).trans (roundAway_nonneg hb)
  · rw [roundAway, roundAway, if_pos ha, if_pos (ha.trans h)]
    exact Int.floor_mono (add_le_add_left h _)

/-- A number and its opposite are rounded alike. -/
theorem cast_roundAway_signedRat (negative : Bool) {q : ℚ} (hq : 0 ≤ q) :
    (roundAway (signedRat negative q) : ℚ) = signedRat negative ⌊q + 1 / 2⌋₊ := by
  have hfloor : (⌊q + 1 / 2⌋ : ℚ) = ⌊q + 1 / 2⌋₊ :=
    (natCast_floor_eq_intCast_floor (by linarith)).symm
  cases negative with
  | false => rw [signedRat_false, signedRat_false, roundAway, if_pos hq, hfloor]
  | true =>
    rw [signedRat_true, signedRat_true, ← hfloor]
    rcases hq.eq_or_lt with rfl | hpos
    · norm_num [roundAway]
    · have hneg : -q - 1 / 2 = -(q + 1 / 2) := by ring
      rw [roundAway, if_neg (neg_neg_of_pos hpos).not_ge, hneg, Int.ceil_neg, Int.cast_neg]

/-! ## Rounding doubles -/

theorem magnitude_of_nonneg (m : ℕ) {e : ℤ} (he : 0 ≤ e) :
    (m : ℚ) * 2 ^ e = ((m * 2 ^ e.toNat : ℕ) : ℚ) := by
  rw [Nat.cast_mul, Nat.cast_pow, Nat.cast_ofNat, ← zpow_natCast, Int.toNat_of_nonneg he]

/-- A half is added in steps of one over two powers of two. -/
theorem floor_magnitude_add_half (m : ℕ) {e : ℤ} (he : e < 0) :
    ⌊(m : ℚ) * 2 ^ e + 1 / 2⌋₊ = (2 * m + 2 ^ (-e).toNat) / (2 * 2 ^ (-e).toNat) := by
  have hpow : (2 : ℚ) ^ e = 1 / ((2 ^ (-e).toNat : ℕ) : ℚ) := by
    rw [Nat.cast_pow, Nat.cast_ofNat, ← zpow_natCast, Int.toNat_of_nonneg (by omega), zpow_neg,
      one_div, inv_inv]
  have hsum : (m : ℚ) * 2 ^ e + 1 / 2 =
      ((2 * m + 2 ^ (-e).toNat : ℕ) : ℚ) / (2 * 2 ^ (-e).toNat : ℕ) := by
    rw [hpow]
    push_cast
    field_simp
  rw [hsum, Nat.floor_div_eq_div]

/-- There is room for the result, since a mantissa of 53 bits loses one of them at least. -/
theorem roundedMantissa_le {m s : ℕ} (hm : m < 2 ^ 53) (hs : 0 < s) :
    (2 * m + s) / (2 * s) ≤ 2 ^ 53 := by
  rw [← Nat.lt_succ_iff, Nat.div_lt_iff_lt_mul (by omega)]
  nlinarith

variable {x : Float}

theorem isExactly_signed {negative : Bool} {q : ℚ} (h : IsExactly x q) :
    IsExactly (signed negative x) (signedRat negative q) := by
  refine ⟨?_, by rw [toRat_signed, h.2]⟩
  cases negative
  · exact h.1
  · exact isFinite_neg h.1

/-- **A double is rounded to a whole number without any further error.** -/
theorem isExactly_roundWhole (hx : x.isFinite = true) :
    IsExactly (roundWhole x) (roundAway (toRat x)) := by
  obtain ⟨n, m, e, hv⟩ := isFinite_iff.mp hx
  have hrat := toRat_of_value hv
  have hround := cast_roundAway_signedRat n (magnitude_nonneg m e)
  rw [← hrat] at hround
  unfold roundWhole
  rw [hv, hround]
  dsimp only [Nat.pow_eq]
  split_ifs with he
  · have hwhole : ⌊(m : ℚ) * 2 ^ e + 1 / 2⌋₊ = m * 2 ^ e.toNat := by
      rw [magnitude_of_nonneg m he, Nat.floor_eq_iff (by positivity)]
      constructor <;> linarith
    rw [hwhole, ← magnitude_of_nonneg m he, ← hrat]
    exact isExactly_toRat hx
  · have hm : m < 2 ^ 53 := by
      rcases canonical_of_value hv with ⟨rfl, -⟩ | ⟨-, hc, -⟩
      · norm_num
      · exact hc.mantissa_lt
    rw [floor_magnitude_add_half m (not_le.mp he)]
    exact isExactly_signed (isExactly_ofNat (roundedMantissa_le hm (Nat.two_pow_pos _)))

/-- **From one half on, a double is rounded to one or more.** -/
theorem one_le_toRat_roundWhole_iff (hx : x.isFinite = true) :
    1 ≤ toRat (roundWhole x) ↔ 1 / 2 ≤ toRat x := by
  rw [(isExactly_roundWhole hx).2, ← one_le_roundAway_iff]
  exact_mod_cast Iff.rfl

/-- What is rounded to a positive number is rounded to one or more. -/
theorem zero_lt_toRat_roundWhole_iff (hx : x.isFinite = true) :
    0 < toRat (roundWhole x) ↔ 1 / 2 ≤ toRat x := by
  rw [← one_le_toRat_roundWhole_iff hx, (isExactly_roundWhole hx).2]
  exact_mod_cast Int.add_one_le_iff.symm

/-- Only finite doubles are rounded to finite ones. -/
theorem isFinite_of_roundWhole (h : (roundWhole x).isFinite = true) : x.isFinite = true := by
  cases hx : value x with
  | finite n m e => exact isFinite_iff.mpr ⟨n, m, e, hx⟩
  | infinite n =>
    unfold roundWhole at h
    rw [hx] at h
    exact h
  | notANumber =>
    unfold roundWhole at h
    rw [hx] at h
    exact h

/-- Doubles are rounded in the order of the whole numbers they are rounded to. -/
theorem roundWhole_le {x y : Float} (hx : x.isFinite = true) (hy : y.isFinite = true)
    (h : roundAway (toRat x) ≤ roundAway (toRat y)) : roundWhole x ≤ roundWhole y := by
  obtain ⟨hx, hx'⟩ := isExactly_roundWhole hx
  obtain ⟨hy, hy'⟩ := isExactly_roundWhole hy
  rw [le_iff hx hy, hx', hy']
  exact_mod_cast h

end Binary64
end TransferCost
