import TransferCost.Decimal.Basic
import TransferCost.Proofs.Binary64.Order

/-!
# Decimals as doubles

A decimal `c * 10 ^ k` is read as the double nearest to it, on both of the ways that `Float` has for
this.  Small ones are multiplied or divided by a power of ten from a table, and since both operands
are exact, the only rounding is that of the operation.  All others go through whole numbers, after
hopelessly large and small ones have been set aside.

So a decimal is read by its value alone: trailing zeros that are moved from the coefficient to the
exponent change nothing.
-/

namespace TransferCost
namespace Binary64

open Float.Model
open Float.Model.UnpackedFloat (Sign)

/-! ## Whole numbers -/

theorem value_toFloat (n : UInt64) : value n.toFloat = rounded false n.toNat := by
  have h : value n.toFloat = roundedSigned false ((n.toNat : ℤ) * 2 ^ (0 : ℤ)) := by
    rw [value_eq_valueOf]
    exact valueOf_pack_normalize n.toNat 0 .positive
  rw [h, zpow_zero, mul_one, Int.cast_natCast]
  exact roundedSigned_signedRat false (Nat.cast_nonneg n.toNat)

/-- A double that a small whole number was rounded to stands for that number. -/
theorem toRat_toFloat {n : UInt64} (hn : n.toNat < 2 ^ 53) :
    n.toFloat.isFinite = true ∧ isNegative n.toFloat = false ∧ toRat n.toFloat = n.toNat := by
  have hself : nearest n.toNat = n.toNat := by
    have h := nearest_of_mantissa_lt (e := 0) hn (by decide)
    rwa [zpow_zero, mul_one] at h
  rcases rounded_cases false (Nat.cast_nonneg n.toNat) with ⟨-, m, e, heq, hm⟩ | ⟨hle, -⟩
  · have hvalue := (value_toFloat n).trans heq
    refine ⟨isFinite_iff.mpr ⟨_, _, _, hvalue⟩, isNegative_of_value hvalue, ?_⟩
    rw [toRat_of_value hvalue, signedRat_false, hm, hself]
  · have hlt : ((n.toNat : ℕ) : ℚ) < 2 ^ (1024 : ℤ) := by
      have h53 : ((n.toNat : ℕ) : ℚ) < 2 ^ (53 : ℤ) := by
        exact_mod_cast hn
      exact h53.trans_le (two_zpow_le (by norm_num))
    rw [hself] at hle
    exact absurd hle hlt.not_ge

/-! ## The table of powers -/

/-- The value of a power of ten. -/
def isPowerOfTen (k : ℕ) : Value → Bool
  | .finite false m e => m * 2 ^ e.toNat == 10 ^ k * 2 ^ (-e).toNat
  | _ => false

/-- The powers of ten that are doubles, by their exponents. -/
def powerOfTen (k : ℕ) (hk : k < 23) : Float :=
  have _ : k < Float.exactlyRepresentablePowersOfTen.size := hk
  Float.exactlyRepresentablePowersOfTen[k]

theorem isPowerOfTen_powerOfTen (i : Fin 23) :
    isPowerOfTen i (value (powerOfTen i i.isLt)) = true := by
  revert i
  decide +kernel

theorem magnitude_eq_of_mul_eq {m n : ℕ} {e : ℤ} (h : m * 2 ^ e.toNat = n * 2 ^ (-e).toNat) :
    (m : ℚ) * 2 ^ e = n := by
  have hsplit : (e.toNat : ℤ) - (-e).toNat = e := by omega
  have hcast : (m : ℚ) * 2 ^ e.toNat = n * 2 ^ (-e).toNat := by
    exact_mod_cast h
  rw [← hsplit, zpow_sub₀ two_ne_zero, zpow_natCast, zpow_natCast, mul_div_assoc', hcast]
  exact mul_div_cancel_right₀ _ (by positivity)

/-- **The table is exact.** -/
theorem toRat_powerOfTen (k : ℕ) (hk : k < 23) :
    (powerOfTen k hk).isFinite = true ∧ isNegative (powerOfTen k hk) = false ∧
      toRat (powerOfTen k hk) = 10 ^ k := by
  have h := isPowerOfTen_powerOfTen ⟨k, hk⟩
  dsimp only at h
  cases hv : value (powerOfTen k hk) with
  | notANumber => simp [hv, isPowerOfTen] at h
  | infinite n => simp [hv, isPowerOfTen] at h
  | finite n m e =>
    cases n with
    | true => simp [hv, isPowerOfTen] at h
    | false =>
      rw [hv, isPowerOfTen, beq_iff_eq] at h
      refine ⟨isFinite_iff.mpr ⟨_, _, _, hv⟩, isNegative_of_value hv, ?_⟩
      rw [toRat_of_value hv, signedRat_false, magnitude_eq_of_mul_eq h]
      push_cast
      rfl

/-! ## The long way -/

theorem ten_zpow_pos (k : ℤ) : (0 : ℚ) < 10 ^ k :=
  zpow_pos (by norm_num) k

/-- A decimal that is set aside as too large is infinite. -/
theorem two_zpow_le_decimal {m : ℕ} {k : ℤ} (hm : m ≠ 0) (hk : 2048 < k) :
    (2 : ℚ) ^ (1024 : ℤ) ≤ m * 10 ^ k := by
  have hone : (1 : ℚ) ≤ m := by
    exact_mod_cast Nat.pos_of_ne_zero hm
  have hbase : (2 : ℚ) ^ k ≤ 10 ^ k :=
    zpow_le_zpow_left₀ (by omega) (by norm_num) (by norm_num)
  calc (2 : ℚ) ^ (1024 : ℤ) ≤ 2 ^ k := two_zpow_le (by omega)
    _ ≤ 10 ^ k := hbase
    _ ≤ m * 10 ^ k := le_mul_of_one_le_left (ten_zpow_pos k).le hone

/-- A decimal that is set aside as too small is rounded to zero. -/
theorem decimal_lt_two_zpow {m : ℕ} {k : ℤ} (hk : k < -(2048 + (m.log2 : ℤ))) :
    (m : ℚ) * 10 ^ k < 2 ^ (-1076 : ℤ) := by
  have hbase : (10 : ℚ) ^ k ≤ 2 ^ k := by
    have h : (2 : ℚ) ^ (-k) ≤ 10 ^ (-k) :=
      zpow_le_zpow_left₀ (by omega) (by norm_num) (by norm_num)
    rw [zpow_neg, zpow_neg] at h
    exact (inv_le_inv₀ (two_zpow_pos k) (ten_zpow_pos k)).mp h
  calc (m : ℚ) * 10 ^ k ≤ m * 2 ^ k := mul_le_mul_of_nonneg_left hbase (Nat.cast_nonneg m)
    _ < 2 ^ ((m.log2 : ℤ) + 1) * 2 ^ k :=
      mul_lt_mul_of_pos_right (lt_two_pow_log2 m) (two_zpow_pos k)
    _ = 2 ^ ((m.log2 : ℤ) + 1 + k) := (two_zpow_add _ _).symm
    _ ≤ 2 ^ (-1076 : ℤ) := two_zpow_le (by omega)

/-- **The long way is right.** -/
theorem valueOf_pack_ofScientific (m : ℕ) (k : ℤ) :
    valueOf (Float.Model.pack (UnpackedFloat.ofScientific .binary64 m k)).unpack =
      rounded false (m * 10 ^ k) := by
  unfold UnpackedFloat.ofScientific
  split_ifs with hm hbig hsmall hk
  · rw [hm, Nat.cast_zero, zero_mul, rounded_zero]
    exact valueOf_pack_zero _
  · rw [rounded_of_large _ (two_zpow_le_decimal hm hbig)]
    exact congrArg valueOf (unpack_pack_infinity _)
  · have hpos : (0 : ℚ) < m * 10 ^ k :=
      mul_pos (Nat.cast_pos.mpr (Nat.pos_of_ne_zero hm)) (ten_zpow_pos k)
    rw [rounded_of_small _ hpos (decimal_lt_two_zpow hsmall)]
    exact valueOf_pack_zero _
  · have hone : (1 : ℚ) ≤ m * 10 ^ k := by
      have hm' : (1 : ℚ) ≤ m := by
        exact_mod_cast Nat.pos_of_ne_zero hm
      exact one_le_mul_of_one_le_of_one_le hm' (one_le_zpow₀ (by norm_num) hk)
    have hshift : ((m <<< 53 : ℕ) : ℚ) * 2 ^ (-53 : ℤ) = m := by
      rw [Nat.shiftLeft_eq, zpow_neg]
      push_cast
      exact mul_inv_cancel_right₀ (by positivity) _
    have hpower : ((10 ^ k.toNat : ℕ) : ℚ) * 2 ^ (0 : ℤ) = 10 ^ k := by
      rw [zpow_zero, mul_one, Nat.cast_pow, Nat.cast_ofNat, ← zpow_natCast, Int.toNat_of_nonneg hk]
    have hgrid : (-53 : ℤ) + 0 ≤ gridExponent (m * 10 ^ k) := by
      have hlog : (0 : ℤ) ≤ Int.log 2 ((m : ℚ) * 10 ^ k) := by
        rw [← zpow_le_iff (by linarith), zpow_zero]
        exact hone
      unfold gridExponent
      omega
    rw [← hpower, ← hshift] at hgrid ⊢
    exact valueOf_pack_mul .positive .positive _ _ hgrid
  · have hleft : (m : ℚ) * 2 ^ (0 : ℤ) = m := by
      rw [zpow_zero, mul_one]
    have hright : ((10 ^ (-k).toNat : ℕ) : ℚ) * 2 ^ (0 : ℤ) = 10 ^ (-k) := by
      rw [zpow_zero, mul_one, Nat.cast_pow, Nat.cast_ofNat, ← zpow_natCast,
        Int.toNat_of_nonneg (by omega)]
    have hquotient :
        (m : ℚ) * 10 ^ k = m * 2 ^ (0 : ℤ) / ((10 ^ (-k).toNat : ℕ) * 2 ^ (0 : ℤ)) := by
      rw [hleft, hright, zpow_neg, div_inv_eq_mul]
    rw [hquotient]
    exact valueOf_pack_div .positive .positive _ _

/-! ## Both ways together -/

theorem toUInt64_toNat {m : ℕ} (hm : m < 2 ^ 53) : m.toUInt64.toNat = m := by
  show m % 2 ^ 64 = m
  omega

/-- A decimal with its exponent as `Float` takes it: a sign and a magnitude. -/
def signedExponent (negative : Bool) (k : ℕ) : ℤ :=
  if negative then Int.negOfNat k else Int.ofNat k

theorem ten_zpow_negOfNat (k : ℕ) : (10 : ℚ) ^ Int.negOfNat k = ((10 : ℚ) ^ k)⁻¹ := by
  rw [Int.negOfNat_eq]
  exact zpow_neg 10 k

/-- The short way. -/
theorem value_ofScientific_fast {m k : ℕ} (hm : m < 2 ^ 53) (hk : k < 23) (negative : Bool) :
    value (if negative then m.toUInt64.toFloat / powerOfTen k hk
      else m.toUInt64.toFloat * powerOfTen k hk) =
        rounded false (m * 10 ^ signedExponent negative k) := by
  obtain ⟨hf₁, hn₁, hr₁⟩ := toRat_toFloat (n := m.toUInt64) (by rwa [toUInt64_toNat hm])
  obtain ⟨hf₂, hn₂, hr₂⟩ := toRat_powerOfTen k hk
  rw [toUInt64_toNat hm] at hr₁
  have hpower : (0 : ℚ) < 10 ^ k := by positivity
  have hnonneg : (0 : ℚ) ≤ m := Nat.cast_nonneg m
  cases negative
  · have hexp : (m : ℚ) * 10 ^ k = m * 10 ^ signedExponent false k := rfl
    rw [if_neg Bool.false_ne_true, value_mul hf₁ hf₂, hn₁, hn₂, hr₁, hr₂, ← hexp]
    exact roundedSigned_signedRat false (mul_nonneg hnonneg hpower.le)
  · have hexp : (m : ℚ) / 10 ^ k = m * 10 ^ signedExponent true k := by
      rw [div_eq_mul_inv, ← ten_zpow_negOfNat]
      rfl
    have hne : toRat (powerOfTen k hk) ≠ 0 := by
      rw [hr₂]
      exact hpower.ne'
    rw [if_pos rfl, value_div hf₁ hf₂ hne, hn₁, hn₂, hr₁, hr₂, ← hexp]
    exact roundedSigned_signedRat false (div_nonneg hnonneg hpower.le)

/-- **A written number is read as the double nearest to it.** -/
theorem value_ofScientific (m : ℕ) (negative : Bool) (k : ℕ) :
    value (Float.ofScientific m negative k) =
      rounded false (m * 10 ^ signedExponent negative k) := by
  unfold Float.ofScientific
  by_cases hfast : m < 2 ^ 53 ∧ k ≤ 22
  · rw [dif_pos hfast]
    exact value_ofScientific_fast hfast.1 (by omega) negative
  · rw [dif_neg hfast, ← valueOf_pack_ofScientific]
    exact value_eq_valueOf _

theorem value_ofNat (n : ℕ) : value (Float.ofNat n) = rounded false n := by
  have h := value_ofScientific n false 0
  have hexp : (n : ℚ) * 10 ^ signedExponent false 0 = n := mul_one _
  rw [hexp] at h
  exact h

end Binary64

namespace Decimal

/-- The number that a decimal stands for. -/
def toRat (d : Decimal) : ℚ :=
  d.coefficient * 10 ^ d.exponent

/-- **A decimal is read by its value alone.** -/
theorem value_toFloat (d : Decimal) :
    Binary64.value d.toFloat = Binary64.rounded false d.toRat := by
  have hexp : Binary64.signedExponent (decide (d.exponent < 0)) d.exponent.natAbs = d.exponent := by
    unfold Binary64.signedExponent
    by_cases h : d.exponent < 0
    · rw [if_pos (decide_eq_true h), Int.negOfNat_eq]
      show -(d.exponent.natAbs : ℤ) = d.exponent
      omega
    · rw [if_neg (by simpa using h)]
      show (d.exponent.natAbs : ℤ) = d.exponent
      omega
  rw [toFloat, Binary64.value_ofScientific, hexp, toRat]

theorem toFloat_eq_of_toRat_eq {d d' : Decimal} (h : d.toRat = d'.toRat) :
    d.toFloat = d'.toFloat := by
  apply Binary64.value_injective
  rw [value_toFloat, value_toFloat, h]

end Decimal
end TransferCost
