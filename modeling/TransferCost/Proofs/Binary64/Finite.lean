import TransferCost.Proofs.Binary64.Scientific

/-!
# Where results are finite

A sum or a product is finite only if both operands are, so what is finite at the end of a
computation was finite all along.  Here are also the few facts about infinities that comparisons
need, and what division by a count does to a finite number.
-/

namespace TransferCost
namespace Binary64

open Float.Model

variable {x y : Float}

/-! ## Finite operands -/

theorem isFinite_of_pack {u : UnpackedFloat} (h : (Float.Model.pack u).unpack.isFinite = true) :
    u.isFinite = true := by
  cases u with
  | notANumber => exact h
  | infinity s =>
    rw [unpack_pack_infinity] at h
    exact h
  | zero s => rfl
  | finite s m e hm => rfl

theorem isFinite_of_unpacked_add {u v : UnpackedFloat}
    (h : (UnpackedFloat.add .binary64 u v).isFinite = true) :
    u.isFinite = true ∧ v.isFinite = true := by
  cases u with
  | infinity s =>
    cases v with
    | infinity t => cases s <;> cases t <;> exact absurd h Bool.false_ne_true
    | _ => exact absurd h Bool.false_ne_true
  | _ => cases v <;> first | exact ⟨rfl, rfl⟩ | exact absurd h Bool.false_ne_true

theorem isFinite_of_unpacked_mul {u v : UnpackedFloat}
    (h : (UnpackedFloat.mul .binary64 u v).isFinite = true) :
    u.isFinite = true ∧ v.isFinite = true := by
  cases u <;> cases v <;> simp_all [UnpackedFloat.mul, UnpackedFloat.isFinite]

theorem isFinite_of_unpacked_div {u v : UnpackedFloat}
    (h : (UnpackedFloat.div .binary64 u v).isFinite = true) : u.isFinite = true := by
  cases u <;> cases v <;> simp_all [UnpackedFloat.div, UnpackedFloat.isFinite]

/-- **A finite sum has finite summands.** -/
theorem isFinite_of_add (h : (x + y).isFinite = true) : x.isFinite = true ∧ y.isFinite = true :=
  isFinite_of_unpacked_add (isFinite_of_pack h)

/-- **A finite product has finite factors.** -/
theorem isFinite_of_mul (h : (x * y).isFinite = true) : x.isFinite = true ∧ y.isFinite = true :=
  isFinite_of_unpacked_mul (isFinite_of_pack h)

/-- A finite quotient has a finite dividend; its divisor may be infinite. -/
theorem isFinite_of_div (h : (x / y).isFinite = true) : x.isFinite = true :=
  isFinite_of_unpacked_div (isFinite_of_pack h)

theorem float_neg_neg (x : Float) : - -x = x := by
  apply value_injective
  rw [value_neg, value_neg]
  cases value x <;> simp [Value.neg]

theorem isFinite_of_sub (h : (x - y).isFinite = true) : x.isFinite = true ∧ y.isFinite = true := by
  rw [float_sub_eq_add_neg] at h
  obtain ⟨hx, hy⟩ := isFinite_of_add h
  have hy' := isFinite_neg hy
  rw [float_neg_neg] at hy'
  exact ⟨hx, hy'⟩

/-! ## Infinities -/

theorem unpack_of_infinite {negative : Bool} (h : value x = .infinite negative) :
    x.toModel.unpack = .infinity (signOf negative) := by
  rw [unpack_eq, h, unpackedOf]

/-- Every finite double is below the positive infinity. -/
theorem lt_of_infinite (hx : x.isFinite = true) (hy : value y = .infinite false) : x < y := by
  rw [lt_iff_compare, unpack_of_infinite hy]
  rcases unpack_of_isFinite hx with ⟨s, hu⟩ | ⟨s, m, e, hm, hu⟩ <;> rw [hu] <;> cases s <;> rfl

theorem not_lt_notANumber (hy : value y = .notANumber) : ¬ x < y := by
  rw [lt_iff_compare, unpack_eq y, hy]
  cases x.toModel.unpack <;> simp [UnpackedFloat.compare, unpackedOf]

theorem value_sub_eq (x y : Float) : value (x - y) =
    valueOf (Float.Model.pack (UnpackedFloat.sub .binary64 (unpackedOf (value x))
      (unpackedOf (value y)))).unpack := by
  rw [← unpack_eq, ← unpack_eq]
  exact value_eq_valueOf _

/-- A finite double minus an infinite one is infinite. -/
theorem value_sub_infinite {negative : Bool} (hx : x.isFinite = true)
    (hy : value y = .infinite negative) : value (x - y) = .infinite (!negative) := by
  rw [value_sub_eq, hy, ← unpack_eq]
  rcases unpack_of_isFinite hx with ⟨s, hu⟩ | ⟨s, m, e, hm, hu⟩ <;> rw [hu] <;> cases negative <;>
    exact congrArg valueOf (unpack_pack_infinity _)

/-- **A double minus itself is a zero, or not a number.** -/
theorem value_abs_sub_self (x : Float) :
    value (x - x).abs = .finite false 0 0 ∨ value (x - x).abs = .notANumber := by
  rw [value_abs]
  cases hx : value x with
  | finite n m e =>
    have hfinite := isFinite_iff.mpr ⟨n, m, e, hx⟩
    rw [value_sub hfinite hfinite, sub_self, roundedSigned_zero]
    exact .inl rfl
  | infinite n =>
    rw [value_sub_eq, hx]
    cases n <;> exact .inr rfl
  | notANumber =>
    rw [value_sub_eq, hx]
    exact .inr rfl

/-- So it is never above anything that is not negative. -/
theorem not_lt_abs_sub_self (hy : y.isFinite = true) (hpos : 0 ≤ toRat y) (x : Float) :
    ¬ y < (x - x).abs := by
  rcases value_abs_sub_self x with h | h
  · rw [lt_iff hy (isFinite_iff.mpr ⟨_, _, _, h⟩), toRat_of_zero h]
    exact hpos.not_gt
  · exact not_lt_notANumber h

/-! ## Whole numbers -/

theorem toRat_signed (negative : Bool) (x : Float) :
    toRat (signed negative x) = signedRat negative (toRat x) := by
  cases negative
  · rfl
  · exact toRat_neg x

theorem value_ofNat_signed (n : ℕ) : value (Float.ofNat n) = roundedSigned false n := by
  rw [value_ofNat]
  exact (roundedSigned_signedRat false (Nat.cast_nonneg n)).symm

theorem toRat_ofNat {n : ℕ} (h : (Float.ofNat n).isFinite = true) :
    toRat (Float.ofNat n) = nearest n := by
  rw [toRat_eq_near (value_ofNat_signed n) h, near_of_nonneg (Nat.cast_nonneg n)]

theorem one_le_nearest {n : ℕ} (hn : 0 < n) : 1 ≤ nearest n := by
  have hone : nearest 1 = 1 := by
    have h := nearest_of_mantissa_lt (m := 1) (e := 0) (by norm_num) (by decide)
    rwa [Nat.cast_one, zpow_zero, mul_one] at h
  rw [← hone]
  exact nearest_mono zero_le_one (by exact_mod_cast hn)

/-- Division by an infinity gives a zero. -/
theorem div_infinite {negative : Bool} (hx : x.isFinite = true)
    (hy : value y = .infinite negative) :
    (x / y).isFinite = true ∧ toRat (x / y) = 0 := by
  have hzero : ∃ s, value (x / y) = .finite (isNegativeSign s) 0 0 := by
    rw [value_div_eq, hy, ← unpack_eq]
    rcases unpack_of_isFinite hx with ⟨s, hu⟩ | ⟨s, m, e, hm, hu⟩ <;> rw [hu] <;>
      exact ⟨_, valueOf_pack_zero _⟩
  obtain ⟨s, hs⟩ := hzero
  exact ⟨isFinite_iff.mpr ⟨_, _, _, hs⟩, toRat_of_zero hs⟩

/-- **The quotient of a double by a count** is finite, and of no greater size.  The count itself may
be too large for a finite double. -/
theorem div_ofNat {n : ℕ} (hx : x.isFinite = true) (hn : 0 < n) :
    (x / Float.ofNat n).isFinite = true ∧ |toRat (x / Float.ofNat n)| ≤ |toRat x| ∧
      (0 ≤ toRat x → 0 ≤ toRat (x / Float.ofNat n)) := by
  rcases rounded_cases false (Nat.cast_nonneg n) with ⟨-, m, e, heq, -⟩ | ⟨-, heq⟩
  · have hcount : (Float.ofNat n).isFinite = true :=
      isFinite_iff.mpr ⟨_, _, _, (value_ofNat n).trans heq⟩
    have hone : 1 ≤ toRat (Float.ofNat n) := by
      rw [toRat_ofNat hcount]
      exact one_le_nearest hn
    have hvalue := value_div hx hcount (by linarith)
    have hle : |toRat x / toRat (Float.ofNat n)| ≤ |toRat x| := by
      rw [abs_div, abs_of_nonneg (by linarith : 0 ≤ toRat (Float.ofNat n))]
      exact div_le_self (abs_nonneg _) hone
    have hfinite := isFinite_of_abs_le hvalue hx hle
    rw [toRat_eq_near hvalue hfinite]
    refine ⟨hfinite, ?_, fun h => near_nonneg (div_nonneg h (by linarith))⟩
    rw [abs_near]
    refine (nearest_mono (abs_nonneg _) hle).trans_eq ?_
    rw [← abs_near, near_toRat hx]
  · obtain ⟨hfinite, hzero⟩ := div_infinite hx ((value_ofNat n).trans heq)
    rw [hzero, abs_zero]
    exact ⟨hfinite, abs_nonneg _, fun _ => le_rfl⟩

end Binary64
end TransferCost
