import TransferCost.Proofs.Binary64.Rounding

/-!
# Arithmetic of doubles

A finite double stands for a rational number, `toRat`.  Each of the four operations gives the double
that the exact result is rounded to: `value_add`, `value_sub`, `value_mul` and `value_div` say this
down to the sign of a zero.

## Signs

`roundedSigned zeroSign q` is what a signed number is rounded to.  The sign is that of the number.
Only where the exact result is zero does it depend on the operation: a product of signs for `*` and
`/`, and negative for `+` if both operands are so.
-/

namespace TransferCost
namespace Binary64

open Float.Model
open Float.Model.UnpackedFloat (Sign decreaseExponent divCore)

/-! ## Numbers -/

/-- A magnitude with a sign. -/
def signedRat (negative : Bool) (q : ℚ) : ℚ :=
  if negative then -q else q

/-- The number that a value stands for, where it stands for one. -/
def Value.toRat : Value → ℚ
  | .finite negative m e => signedRat negative (m * 2 ^ e)
  | _ => 0

/-- The number that a double stands for, if it is finite. -/
def toRat (x : Float) : ℚ :=
  (value x).toRat

/-- The double carries a minus sign. -/
def isNegative (x : Float) : Bool :=
  match value x with
  | .finite negative _ _ => negative
  | .infinite negative => negative
  | .notANumber => false

@[simp] theorem signedRat_true (q : ℚ) : signedRat true q = -q := rfl

@[simp] theorem signedRat_false (q : ℚ) : signedRat false q = q := rfl

theorem abs_signedRat (negative : Bool) {q : ℚ} (hq : 0 ≤ q) : |signedRat negative q| = q := by
  cases negative
  · exact abs_of_nonneg hq
  · exact (abs_neg q).trans (abs_of_nonneg hq)

@[simp] theorem signedRat_zero (negative : Bool) : signedRat negative 0 = 0 := by
  cases negative <;> simp [signedRat]

theorem signedRat_ne_zero (negative : Bool) {q : ℚ} (hq : q ≠ 0) : signedRat negative q ≠ 0 := by
  cases negative
  · exact hq
  · exact neg_ne_zero.mpr hq

theorem signedRat_mul (n₁ n₂ : Bool) (a b : ℚ) :
    signedRat n₁ a * signedRat n₂ b = signedRat (n₁ ^^ n₂) (a * b) := by
  cases n₁ <;> cases n₂ <;> simp [signedRat]

theorem signedRat_div (n₁ n₂ : Bool) (a b : ℚ) :
    signedRat n₁ a / signedRat n₂ b = signedRat (n₁ ^^ n₂) (a / b) := by
  cases n₁ <;> cases n₂ <;> simp [signedRat, neg_div, div_neg]

theorem isFinite_iff {x : Float} :
    x.isFinite = true ↔ ∃ negative m e, value x = .finite negative m e := by
  rw [value_eq_valueOf]
  show x.toModel.unpack.isFinite = true ↔ _
  cases x.toModel.unpack <;> simp [UnpackedFloat.isFinite, valueOf]

theorem toRat_of_value {x : Float} {negative : Bool} {m : ℕ} {e : ℤ}
    (h : value x = .finite negative m e) : toRat x = signedRat negative (m * 2 ^ e) := by
  rw [toRat, h, Value.toRat]

theorem isNegative_of_value {x : Float} {negative : Bool} {m : ℕ} {e : ℤ}
    (h : value x = .finite negative m e) : isNegative x = negative := by
  rw [isNegative, h]

theorem unpack_eq (x : Float) : x.toModel.unpack = unpackedOf (value x) := by
  rw [value_eq_valueOf, unpackedOf_valueOf]

theorem unpackedOf_zero (negative : Bool) (e : ℤ) :
    unpackedOf (.finite negative 0 e) = .zero (signOf negative) :=
  rfl

theorem unpackedOf_finite (negative : Bool) {m : ℕ} (e : ℤ) (hm : 0 < m) :
    unpackedOf (.finite negative m e) = .finite (signOf negative) m e hm :=
  dif_pos hm

/-! ## Rounding with a sign -/

/-- The value of a double that was rounded to a signed number.  The sign of a zero is given. -/
def roundedSigned (zeroSign : Bool) (q : ℚ) : Value :=
  rounded (if q = 0 then zeroSign else decide (q < 0)) |q|

theorem roundedSigned_zero (zeroSign : Bool) : roundedSigned zeroSign 0 = .finite zeroSign 0 0 := by
  rw [roundedSigned, if_pos rfl, abs_zero, rounded_zero]

theorem roundedSigned_congr {z₁ z₂ : Bool} {q : ℚ} (h : q = 0 → z₁ = z₂) :
    roundedSigned z₁ q = roundedSigned z₂ q := by
  unfold roundedSigned
  split_ifs with hq
  · rw [h hq]
  · rfl

theorem roundedSigned_of_pos (zeroSign : Bool) {q : ℚ} (hq : 0 < q) :
    roundedSigned zeroSign q = rounded false q := by
  rw [roundedSigned, if_neg hq.ne', abs_of_pos hq, decide_eq_false hq.not_gt]

theorem roundedSigned_of_neg (zeroSign : Bool) {q : ℚ} (hq : q < 0) :
    roundedSigned zeroSign q = rounded true (-q) := by
  rw [roundedSigned, if_neg hq.ne, abs_of_neg hq, decide_eq_true hq]

theorem roundedSigned_signedRat (negative : Bool) {q : ℚ} (hq : 0 ≤ q) :
    roundedSigned negative (signedRat negative q) = rounded negative q := by
  rcases hq.eq_or_lt with rfl | hpos
  · rw [signedRat_zero, roundedSigned_zero, rounded_zero]
  · cases negative
    · exact roundedSigned_of_pos false hpos
    · exact (roundedSigned_of_neg true (neg_neg_of_pos hpos)).trans (by rw [neg_neg])

/-- **A double is rounded to itself**, whatever the sign of zeros. -/
theorem roundedSigned_toRat {x : Float} (hx : x.isFinite = true) :
    roundedSigned (isNegative x) (toRat x) = value x := by
  obtain ⟨negative, m, e, h⟩ := isFinite_iff.mp hx
  rw [isNegative_of_value h, toRat_of_value h, h,
    roundedSigned_signedRat _ (mul_nonneg (Nat.cast_nonneg m) (two_zpow_pos e).le)]
  rcases canonical_of_value h with ⟨rfl, rfl⟩ | ⟨hm, hc, he⟩
  · simp
  · exact rounded_of_canonical negative hm hc he

/-- A signed mantissa and an exponent are rounded to the number that they stand for. -/
theorem valueOf_pack_normalize (n : ℤ) (e : ℤ) (s : Sign) :
    valueOf (Float.Model.pack (UnpackedFloat.normalize .binary64 n e s)).unpack =
      roundedSigned (isNegativeSign s) (n * 2 ^ e) := by
  have hstep := two_zpow_pos e
  unfold UnpackedFloat.normalize
  cases hcmp : compare n 0 with
  | lt =>
    have hn : n < 0 := Int.compare_eq_lt.mp hcmp
    have habs : ((-n).toNat : ℚ) = -n := by
      exact_mod_cast Int.toNat_of_nonneg (by omega : 0 ≤ -n)
    have hneg : (n : ℚ) * 2 ^ e < 0 := mul_neg_of_neg_of_pos (Int.cast_lt_zero.mpr hn) hstep
    rw [roundedSigned_of_neg _ hneg, ← neg_mul, ← habs]
    exact valueOf_pack_round _ (by omega) e
  | eq =>
    have hn : n = 0 := Int.compare_eq_eq.mp hcmp
    dsimp only
    rw [hn, unpack_pack_zero, Int.cast_zero, zero_mul, roundedSigned_zero]
    rfl
  | gt =>
    have hn : 0 < n := Int.compare_eq_gt.mp hcmp
    have habs : (n.toNat : ℚ) = n := by
      exact_mod_cast Int.toNat_of_nonneg hn.le
    have hpos : 0 < (n : ℚ) * 2 ^ e := mul_pos (Int.cast_pos.mpr hn) hstep
    rw [roundedSigned_of_pos _ hpos, ← habs]
    exact valueOf_pack_round _ (by omega) e

/-! ## Products and quotients -/

theorem signOf_mul (n₁ n₂ : Bool) : signOf n₁ * signOf n₂ = signOf (n₁ ^^ n₂) := by
  cases n₁ <;> cases n₂ <;> rfl

theorem signOf_div (n₁ n₂ : Bool) : signOf n₁ / signOf n₂ = signOf (n₁ ^^ n₂) := by
  cases n₁ <;> cases n₂ <;> rfl

variable {m₁ m₂ : ℕ} {e₁ e₂ : ℤ}

theorem magnitude_mul (m₁ m₂ : ℕ) (e₁ e₂ : ℤ) :
    ((m₁ * m₂ : ℕ) : ℚ) * 2 ^ (e₁ + e₂) = m₁ * 2 ^ e₁ * (m₂ * 2 ^ e₂) := by
  rw [two_zpow_add]
  push_cast
  ring

/-- The product of two mantissas, where no bit of the exact product is missing. -/
theorem valueOf_pack_mul (s₁ s₂ : Sign) (h₁ : 0 < m₁) (h₂ : 0 < m₂)
    (he : e₁ + e₂ ≤ gridExponent (m₁ * 2 ^ e₁ * (m₂ * 2 ^ e₂))) :
    valueOf (Float.Model.pack (UnpackedFloat.mul .binary64 (.finite s₁ m₁ e₁ h₁)
      (.finite s₂ m₂ e₂ h₂))).unpack =
        rounded (isNegativeSign (s₁ * s₂)) (m₁ * 2 ^ e₁ * (m₂ * 2 ^ e₂)) :=
  valueOf_pack_roundWithAccuracy (mul_pos (magnitude_pos h₁ e₁) (magnitude_pos h₂ e₂))
    (located_of_eq (magnitude_mul m₁ m₂ e₁ e₂)) he

/-- Products of doubles have more bits than are needed. -/
theorem mul_exponent_le (h₁ : 0 < m₁) (h₂ : 0 < m₂) (hc₁ : Canonical m₁ e₁)
    (hc₂ : Canonical m₂ e₂) :
    e₁ + e₂ ≤ gridExponent (m₁ * 2 ^ e₁ * (m₂ * 2 ^ e₂)) := by
  have hpos : 0 < m₁ * m₂ := Nat.mul_pos h₁ h₂
  have hmin : minExponent = -1074 := rfl
  rw [← magnitude_mul, gridExponent, log_of_magnitude hpos]
  rcases hc₁.normal_or with hn | rfl
  · have hlog : 52 ≤ (m₁ * m₂).log2 :=
      (Nat.le_log2 hpos.ne').mpr (hn.trans (Nat.le_mul_of_pos_right m₁ h₂))
    omega
  rcases hc₂.normal_or with hn | rfl
  · have hlog : 52 ≤ (m₁ * m₂).log2 :=
      (Nat.le_log2 hpos.ne').mpr (hn.trans (Nat.le_mul_of_pos_left m₂ h₁))
    omega
  · omega

/-- A quotient is at least as large as its exponents say, up to one binary place. -/
theorem le_log_div (h₁ : 0 < m₁) (h₂ : 0 < m₂) (e₁ e₂ : ℤ) :
    (m₁.log2 : ℤ) + e₁ - (m₂.log2 + 1 + e₂) ≤ Int.log 2 ((m₁ : ℚ) * 2 ^ e₁ / (m₂ * 2 ^ e₂)) := by
  have hq₂ := magnitude_pos h₂ e₂
  have hupper : (m₂ : ℚ) * 2 ^ e₂ ≤ 2 ^ ((m₂.log2 : ℤ) + 1 + e₂) := by
    rw [two_zpow_add]
    exact mul_le_mul_of_nonneg_right (lt_two_pow_log2 m₂).le (two_zpow_pos e₂).le
  have hlower : (2 : ℚ) ^ ((m₁.log2 : ℤ) + e₁) ≤ m₁ * 2 ^ e₁ := by
    rw [two_zpow_add]
    exact mul_le_mul_of_nonneg_right (two_pow_log2_le h₁.ne') (two_zpow_pos e₁).le
  rw [← zpow_le_iff (div_pos (magnitude_pos h₁ e₁) hq₂), le_div_iff₀ hq₂]
  calc (2 : ℚ) ^ ((m₁.log2 : ℤ) + e₁ - (m₂.log2 + 1 + e₂)) * (m₂ * 2 ^ e₂)
      ≤ 2 ^ ((m₁.log2 : ℤ) + e₁ - (m₂.log2 + 1 + e₂)) * 2 ^ ((m₂.log2 : ℤ) + 1 + e₂) :=
        mul_le_mul_of_nonneg_left hupper (two_zpow_pos _).le
    _ = 2 ^ ((m₁.log2 : ℤ) + e₁) := by rw [← two_zpow_add, sub_add_cancel]
    _ ≤ m₁ * 2 ^ e₁ := hlower

/-- A quotient in steps of `2 ^ t` is one of whole numbers, if `t` is small enough. -/
theorem magnitude_div {t : ℤ} (h₂ : 0 < m₂) (ht : t ≤ e₁ - e₂) :
    (m₁ : ℚ) * 2 ^ e₁ / (m₂ * 2 ^ e₂) / 2 ^ t = ((m₁ <<< (e₁ - e₂ - t).toNat : ℕ) : ℚ) / m₂ := by
  have hm : (m₂ : ℚ) ≠ 0 := Nat.cast_ne_zero.mpr h₂.ne'
  have hshift : e₁ = ((e₁ - e₂ - t).toNat : ℤ) + (e₂ + t) := by omega
  have hpow : (2 : ℚ) ^ e₁ = 2 ^ (e₁ - e₂ - t).toNat * (2 ^ e₂ * 2 ^ t) := by
    rw [← zpow_natCast, ← two_zpow_add, ← two_zpow_add, ← hshift]
  rw [hpow, Nat.shiftLeft_eq, Nat.cast_mul, Nat.cast_pow, Nat.cast_ofNat]
  have h₂ := (two_zpow_pos e₂).ne'
  have h₃ := (two_zpow_pos t).ne'
  field_simp

/-- **The quotient of two mantissas is rounded correctly**, whatever their form. -/
theorem valueOf_pack_div (s₁ s₂ : Sign) (h₁ : 0 < m₁) (h₂ : 0 < m₂) :
    valueOf (Float.Model.pack (UnpackedFloat.div .binary64 (.finite s₁ m₁ e₁ h₁)
      (.finite s₂ m₂ e₂ h₂))).unpack =
        rounded (isNegativeSign (s₁ / s₂)) (m₁ * 2 ^ e₁ / (m₂ * 2 ^ e₂)) := by
  have hpos : (0 : ℚ) < m₁ * 2 ^ e₁ / (m₂ * 2 ^ e₂) :=
    div_pos (magnitude_pos h₁ e₁) (magnitude_pos h₂ e₂)
  have hlog := le_log_div h₁ h₂ e₁ e₂
  have ht : min (e₁ - e₂) (Format.binary64.targetExponent
      (totalExponent m₁ e₁ - totalExponent m₂ e₂)) ≤ e₁ - e₂ := min_le_left _ _
  refine valueOf_pack_roundWithAccuracy hpos ?_ ?_
  · rw [magnitude_div h₂ ht]
    exact located_fraction _ h₂
  · rw [targetExponent_eq, gridExponent]
    unfold totalExponent
    omega

section Operations

variable {x y : Float}

theorem magnitude_nonneg (m : ℕ) (e : ℤ) : (0 : ℚ) ≤ m * 2 ^ e :=
  mul_nonneg (Nat.cast_nonneg m) (two_zpow_pos e).le

theorem value_mul_eq (x y : Float) : value (x * y) =
    valueOf (Float.Model.pack (UnpackedFloat.mul .binary64 (unpackedOf (value x))
      (unpackedOf (value y)))).unpack := by
  rw [← unpack_eq, ← unpack_eq]
  exact value_eq_valueOf _

theorem value_div_eq (x y : Float) : value (x / y) =
    valueOf (Float.Model.pack (UnpackedFloat.div .binary64 (unpackedOf (value x))
      (unpackedOf (value y)))).unpack := by
  rw [← unpack_eq, ← unpack_eq]
  exact value_eq_valueOf _

theorem value_add_eq (x y : Float) : value (x + y) =
    valueOf (Float.Model.pack (UnpackedFloat.add .binary64 (unpackedOf (value x))
      (unpackedOf (value y)))).unpack := by
  rw [← unpack_eq, ← unpack_eq]
  exact value_eq_valueOf _

theorem valueOf_pack_zero (s : Sign) :
    valueOf (Float.Model.pack (.zero s)).unpack = .finite (isNegativeSign s) 0 0 :=
  congrArg valueOf (unpack_pack_zero s)

/-- **The product of doubles is the rounded product.** -/
theorem value_mul (hx : x.isFinite = true) (hy : y.isFinite = true) :
    value (x * y) = roundedSigned (isNegative x ^^ isNegative y) (toRat x * toRat y) := by
  obtain ⟨n₁, m₁, e₁, h₁⟩ := isFinite_iff.mp hx
  obtain ⟨n₂, m₂, e₂, h₂⟩ := isFinite_iff.mp hy
  rw [isNegative_of_value h₁, isNegative_of_value h₂, toRat_of_value h₁, toRat_of_value h₂,
    signedRat_mul, roundedSigned_signedRat _ (mul_nonneg (magnitude_nonneg m₁ e₁)
      (magnitude_nonneg m₂ e₂)), value_mul_eq, h₁, h₂, ← isNegativeSign_signOf (n₁ ^^ n₂),
    ← signOf_mul]
  rcases canonical_of_value h₁ with ⟨rfl, rfl⟩ | ⟨hm₁, hc₁, -⟩
  · rw [Nat.cast_zero, zero_mul, zero_mul, rounded_zero, unpackedOf_zero]
    rcases canonical_of_value h₂ with ⟨rfl, rfl⟩ | ⟨hm₂, -, -⟩
    · rw [unpackedOf_zero]
      exact valueOf_pack_zero _
    · rw [unpackedOf_finite n₂ e₂ hm₂]
      exact valueOf_pack_zero _
  rw [unpackedOf_finite n₁ e₁ hm₁]
  rcases canonical_of_value h₂ with ⟨rfl, rfl⟩ | ⟨hm₂, hc₂, -⟩
  · rw [Nat.cast_zero, zero_mul, mul_zero, rounded_zero, unpackedOf_zero]
    exact valueOf_pack_zero _
  · rw [unpackedOf_finite n₂ e₂ hm₂]
    exact valueOf_pack_mul _ _ hm₁ hm₂ (mul_exponent_le hm₁ hm₂ hc₁ hc₂)

theorem pos_of_toRat_ne_zero {n : Bool} {m : ℕ} {e : ℤ} (h : value x = .finite n m e)
    (hx : toRat x ≠ 0) : 0 < m := by
  rw [toRat_of_value h] at hx
  rcases Nat.eq_zero_or_pos m with rfl | hm
  · simp at hx
  · exact hm

/-- **The quotient of doubles is the rounded quotient.** -/
theorem value_div (hx : x.isFinite = true) (hy : y.isFinite = true) (hne : toRat y ≠ 0) :
    value (x / y) = roundedSigned (isNegative x ^^ isNegative y) (toRat x / toRat y) := by
  obtain ⟨n₁, m₁, e₁, h₁⟩ := isFinite_iff.mp hx
  obtain ⟨n₂, m₂, e₂, h₂⟩ := isFinite_iff.mp hy
  have hm₂ := pos_of_toRat_ne_zero h₂ hne
  rw [isNegative_of_value h₁, isNegative_of_value h₂, toRat_of_value h₁, toRat_of_value h₂,
    signedRat_div, roundedSigned_signedRat _ (div_nonneg (magnitude_nonneg m₁ e₁)
      (magnitude_nonneg m₂ e₂)), value_div_eq, h₁, h₂, unpackedOf_finite n₂ e₂ hm₂,
    ← isNegativeSign_signOf (n₁ ^^ n₂), ← signOf_div]
  rcases canonical_of_value h₁ with ⟨rfl, rfl⟩ | ⟨hm₁, hc₁, -⟩
  · rw [Nat.cast_zero, zero_mul, zero_div, rounded_zero, unpackedOf_zero]
    exact valueOf_pack_zero _
  · rw [unpackedOf_finite n₁ e₁ hm₁]
    exact valueOf_pack_div _ _ hm₁ hm₂

/-! ## Sums and differences -/

theorem cast_apply (negative : Bool) (n : ℕ) :
    (((signOf negative).apply n : ℤ) : ℚ) = signedRat negative n := by
  cases negative
  · rfl
  · exact Int.cast_neg _

theorem signedRat_mul_right (negative : Bool) (a b : ℚ) :
    signedRat negative a * b = signedRat negative (a * b) := by
  cases negative <;> simp [signedRat]

/-- The sum of two mantissas, made to have the same exponent. -/
theorem valueOf_pack_add (n₁ n₂ : Bool) {m₁ m₂ : ℕ} {e₁ e₂ : ℤ} (h₁ : 0 < m₁) (h₂ : 0 < m₂) :
    valueOf (Float.Model.pack (UnpackedFloat.add .binary64 (.finite (signOf n₁) m₁ e₁ h₁)
      (.finite (signOf n₂) m₂ e₂ h₂))).unpack =
        roundedSigned false (signedRat n₁ (m₁ * 2 ^ e₁) + signedRat n₂ (m₂ * 2 ^ e₂)) := by
  obtain ⟨hv₁, hd₁⟩ := decreaseExponent_spec m₁ e₁ (min e₁ e₂)
  obtain ⟨hv₂, hd₂⟩ := decreaseExponent_spec m₂ e₂ (min e₁ e₂)
  have hmin₁ : min e₁ (min e₁ e₂) = min e₁ e₂ := min_eq_right (min_le_left _ _)
  have hmin₂ : min e₂ (min e₁ e₂) = min e₁ e₂ := min_eq_right (min_le_right _ _)
  rw [hd₁, hmin₁] at hv₁
  rw [hd₂, hmin₂] at hv₂
  refine (valueOf_pack_normalize _ _ _).trans ?_
  rw [Int.cast_add, cast_apply, cast_apply, add_mul, signedRat_mul_right, signedRat_mul_right,
    ← hv₁, ← hv₂]
  rfl

theorem toRat_of_zero {n : Bool} {e : ℤ} (h : value x = .finite n 0 e) : toRat x = 0 := by
  rw [toRat_of_value h, Nat.cast_zero, zero_mul, signedRat_zero]

theorem toRat_ne_zero {n : Bool} {m : ℕ} {e : ℤ} (h : value x = .finite n m e) (hm : 0 < m) :
    toRat x ≠ 0 := by
  rw [toRat_of_value h]
  exact signedRat_ne_zero n (magnitude_pos hm e).ne'

theorem valueOf_pack_unpackedOf (x : Float) :
    valueOf (Float.Model.pack (unpackedOf (value x))).unpack = value x := by
  rw [← unpack_eq, pack_unpack, value_eq_valueOf]

theorem value_zero_add {n₁ n₂ : Bool} {m : ℕ} {e : ℤ} (h₁ : value x = .finite n₁ 0 0)
    (h₂ : value y = .finite n₂ m e) (hm : 0 < m) : value (x + y) = value y := by
  rw [← valueOf_pack_unpackedOf y, value_add_eq, h₁, h₂, unpackedOf_zero, unpackedOf_finite n₂ e hm]
  rfl

theorem value_add_zero {n₁ n₂ : Bool} {m : ℕ} {e : ℤ} (h₁ : value x = .finite n₁ m e) (hm : 0 < m)
    (h₂ : value y = .finite n₂ 0 0) : value (x + y) = value x := by
  rw [← valueOf_pack_unpackedOf x, value_add_eq, h₁, h₂, unpackedOf_zero, unpackedOf_finite n₁ e hm]
  rfl

/-- **The sum of doubles is the rounded sum.** -/
theorem value_add (hx : x.isFinite = true) (hy : y.isFinite = true) :
    value (x + y) = roundedSigned (isNegative x && isNegative y) (toRat x + toRat y) := by
  have hself₁ := roundedSigned_toRat hx
  have hself₂ := roundedSigned_toRat hy
  obtain ⟨n₁, m₁, e₁, h₁⟩ := isFinite_iff.mp hx
  obtain ⟨n₂, m₂, e₂, h₂⟩ := isFinite_iff.mp hy
  rcases canonical_of_value h₁ with ⟨rfl, rfl⟩ | ⟨hm₁, -, -⟩
  · rw [toRat_of_zero h₁, zero_add]
    rcases canonical_of_value h₂ with ⟨rfl, rfl⟩ | ⟨hm₂, -, -⟩
    · rw [toRat_of_zero h₂, roundedSigned_zero, isNegative_of_value h₁, isNegative_of_value h₂,
        value_add_eq, h₁, h₂, unpackedOf_zero, unpackedOf_zero]
      cases n₁ <;> cases n₂ <;> exact valueOf_pack_zero _
    · rw [value_zero_add h₁ h₂ hm₂, ← hself₂]
      exact roundedSigned_congr fun h => absurd h (toRat_ne_zero h₂ hm₂)
  · have hne := toRat_ne_zero h₁ hm₁
    rcases canonical_of_value h₂ with ⟨rfl, rfl⟩ | ⟨hm₂, -, -⟩
    · rw [toRat_of_zero h₂, add_zero, value_add_zero h₁ hm₁ h₂, ← hself₁]
      exact roundedSigned_congr fun h => absurd h hne
    · rw [value_add_eq, h₁, h₂, unpackedOf_finite n₁ e₁ hm₁, unpackedOf_finite n₂ e₂ hm₂,
        valueOf_pack_add, ← toRat_of_value h₁, ← toRat_of_value h₂]
      apply roundedSigned_congr
      intro hsum
      rw [toRat_of_value h₁, toRat_of_value h₂] at hsum
      rw [isNegative_of_value h₁, isNegative_of_value h₂]
      have hpos₁ := magnitude_pos hm₁ e₁
      have hpos₂ := magnitude_pos hm₂ e₂
      cases n₁ with
      | false => rfl
      | true =>
        cases n₂ with
        | false => rfl
        | true =>
          rw [signedRat_true, signedRat_true] at hsum
          exfalso
          linarith

/-! ## Signs -/

/-- A value with the other sign. -/
def Value.neg : Value → Value
  | .notANumber => .notANumber
  | .infinite negative => .infinite (!negative)
  | .finite negative m e => .finite (!negative) m e

/-- A value with a positive sign. -/
def Value.abs : Value → Value
  | .notANumber => .notANumber
  | .infinite _ => .infinite false
  | .finite _ m e => .finite false m e

theorem isNegativeSign_neg (s : Sign) : isNegativeSign (-s) = !isNegativeSign s := by
  cases s <;> rfl

theorem Unpacked.neg {u : UnpackedFloat} (h : Unpacked u) : Unpacked u.neg := by
  cases h with
  | notANumber => exact .notANumber
  | infinity s => exact .infinity _
  | zero s => exact .zero _
  | finite s hm h he => exact .finite _ hm h he

theorem Unpacked.abs {u : UnpackedFloat} (h : Unpacked u) : Unpacked u.abs := by
  cases h with
  | notANumber => exact .notANumber
  | infinity s => exact .infinity _
  | zero s => exact .zero _
  | finite s hm h he => exact .finite _ hm h he

theorem unpack_neg (x : Float) : (-x).toModel.unpack = x.toModel.unpack.neg :=
  (unpacked_unpack x.toModel).neg.unpack_pack

theorem value_neg (x : Float) : value (-x) = (value x).neg := by
  rw [value_eq_valueOf, value_eq_valueOf, unpack_neg]
  cases x.toModel.unpack <;> simp only [UnpackedFloat.neg, valueOf, Value.neg, isNegativeSign_neg]

theorem value_abs (x : Float) : value x.abs = (value x).abs := by
  have h : x.abs.toModel.unpack = x.toModel.unpack.abs :=
    (unpacked_unpack x.toModel).abs.unpack_pack
  rw [value_eq_valueOf, value_eq_valueOf, h]
  cases x.toModel.unpack <;> rfl

theorem isFinite_neg (hx : x.isFinite = true) : (-x).isFinite = true := by
  obtain ⟨n, m, e, h⟩ := isFinite_iff.mp hx
  exact isFinite_iff.mpr ⟨!n, m, e, by rw [value_neg, h, Value.neg]⟩

theorem toRat_neg (x : Float) : toRat (-x) = -toRat x := by
  unfold toRat
  rw [value_neg]
  cases value x with
  | notANumber => exact neg_zero.symm
  | infinite n => exact neg_zero.symm
  | finite n m e => cases n <;> simp [Value.neg, Value.toRat, signedRat]

theorem isFinite_abs (hx : x.isFinite = true) : x.abs.isFinite = true := by
  obtain ⟨n, m, e, h⟩ := isFinite_iff.mp hx
  exact isFinite_iff.mpr ⟨false, m, e, by rw [value_abs, h, Value.abs]⟩

theorem toRat_abs (x : Float) : toRat x.abs = |toRat x| := by
  unfold toRat
  rw [value_abs]
  cases value x with
  | notANumber => exact abs_zero.symm
  | infinite n => exact abs_zero.symm
  | finite n m e => exact (abs_signedRat n (magnitude_nonneg m e)).symm

theorem isNegative_neg (hx : x.isFinite = true) : isNegative (-x) = !isNegative x := by
  obtain ⟨n, m, e, h⟩ := isFinite_iff.mp hx
  rw [isNegative_of_value h, isNegative, value_neg, h]
  rfl

theorem signOf_apply_neg (s : Sign) (n : ℤ) : (-s).apply n = -s.apply n := by
  cases s
  · exact (neg_neg n).symm
  · rfl

theorem sub_unpacked (u v : UnpackedFloat) :
    UnpackedFloat.sub .binary64 u v = UnpackedFloat.add .binary64 u v.neg := by
  cases u with
  | notANumber => cases v <;> rfl
  | infinity s => cases v <;> rfl
  | zero s => cases v <;> rfl
  | finite s m e hm =>
    cases v with
    | notANumber => rfl
    | infinity t => rfl
    | zero t => rfl
    | finite t m' e' hm' =>
      simp only [UnpackedFloat.sub, UnpackedFloat.add, UnpackedFloat.neg, signOf_apply_neg,
        Int.sub_eq_add_neg]

/-- **A difference is the sum with the opposite.** -/
theorem float_sub_eq_add_neg (x y : Float) : x - y = x + -y := by
  show Float.ofModel (Float.Model.pack (UnpackedFloat.sub .binary64 x.toModel.unpack
    y.toModel.unpack)) = Float.ofModel (Float.Model.pack (UnpackedFloat.add .binary64
      x.toModel.unpack (-y).toModel.unpack))
  rw [unpack_neg, sub_unpacked]

/-- **The difference of doubles is the rounded difference.** -/
theorem value_sub (hx : x.isFinite = true) (hy : y.isFinite = true) :
    value (x - y) = roundedSigned (isNegative x && !isNegative y) (toRat x - toRat y) := by
  rw [float_sub_eq_add_neg, value_add hx (isFinite_neg hy), isNegative_neg hy, toRat_neg,
    ← sub_eq_add_neg]

end Operations

end Binary64
end TransferCost
