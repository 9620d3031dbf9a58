import TransferCost.Proofs.Binary64.Order

/-!
# The total order of doubles

Sorting by `Binary64.totalLE` compares bit patterns and not numbers, so that every two doubles can
be compared: `-0.0` stands before `0.0`, and what is not a number has its place too.  Doubles with
the same key are equal.  A list sorted by it is therefore determined by its members, in whatever
order they were given.

Among positive numbers the order of the bit patterns is that of the numbers (`lt_of_orderKey_lt`):
the exponent stands above the mantissa, and a canonical number with the greater exponent is the
greater one.
-/

namespace TransferCost
namespace Binary64

open Float.Model
open Float.Model.UnpackedFloat (Sign)

theorem orderKey_injective {x y : Float} (h : orderKey x = orderKey y) : x = y := by
  apply toBits_injective
  apply UInt64.toNat_inj.mp
  have hx : x.toBits.toNat < 2 ^ 64 := x.toBits.toNat_lt
  have hy : y.toBits.toNat < 2 ^ 64 := y.toBits.toNat_lt
  unfold orderKey at h
  simp only [Nat.pow_eq] at h
  split at h <;> split at h <;> omega

theorem totalLE_iff {x y : Float} : totalLE x y = true ↔ orderKey x ≤ orderKey y := by
  simp [totalLE]

theorem totalLE_trans (x y z : Float) (hxy : totalLE x y = true) (hyz : totalLE y z = true) :
    totalLE x z = true := by
  rw [totalLE_iff] at *
  exact le_trans hxy hyz

theorem totalLE_total (x y : Float) : (totalLE x y || totalLE y x) = true := by
  rw [Bool.or_eq_true, totalLE_iff, totalLE_iff]
  exact le_total _ _

theorem totalLE_antisymm {x y : Float} (hxy : totalLE x y = true) (hyx : totalLE y x = true) :
    x = y := by
  rw [totalLE_iff] at *
  exact orderKey_injective (le_antisymm hxy hyx)

/-- **A sorted list does not depend on the order in which its members were given.** -/
theorem mergeSort_eq_of_perm {xs ys : List Float} (h : xs.Perm ys) :
    xs.mergeSort totalLE = ys.mergeSort totalLE := by
  refine List.Perm.eq_of_pairwise (fun x y _ _ => totalLE_antisymm)
    (List.pairwise_mergeSort totalLE_trans totalLE_total xs)
    (List.pairwise_mergeSort totalLE_trans totalLE_total ys) ?_
  exact (List.mergeSort_perm xs totalLE).trans (h.trans (List.mergeSort_perm ys totalLE).symm)

/-- A list without repetitions is sorted into a strictly ascending one. -/
theorem pairwise_lt_mergeSort {xs : List Float} (h : xs.Nodup) :
    (xs.mergeSort totalLE).Pairwise fun x y => orderKey x < orderKey y := by
  have hle := List.pairwise_mergeSort totalLE_trans totalLE_total xs
  have hne : (xs.mergeSort totalLE).Pairwise (· ≠ ·) :=
    (List.mergeSort_perm xs totalLE).nodup_iff.mpr h
  refine (hle.and hne).imp ?_
  rintro x y ⟨hxy, hxne⟩
  exact lt_of_le_of_ne (totalLE_iff.mp hxy) fun hh => hxne (orderKey_injective hh)

/-! ## Positive numbers -/

/-- The bits of a positive number: the exponent field and the mantissa, one above the other.  A full
mantissa carries its highest bit over into the field. -/
theorem toNat_toBits_of_value {x : Float} {m : ℕ} {e : ℤ} (h : value x = .finite false m e)
    (hm : 0 < m) : (x.toBits.toNat : ℤ) = (e + 1074) * 2 ^ 52 + m ∧ x.toBits.toNat < 2 ^ 63 := by
  obtain ⟨hlt, hmin, hnormal⟩ : Canonical m e :=
    (canonical_of_value h).elim (fun hzero => absurd hzero.1 hm.ne') fun hc => hc.2.1
  have hmax : e ≤ maxExponent :=
    (canonical_of_value h).elim (fun hzero => absurd hzero.1 hm.ne') fun hc => hc.2.2
  have hunpack : x.toModel.unpack = .finite .positive m e hm := by
    rw [← unpackedOf_valueOf x.toModel.unpack, ← value_eq_valueOf, h]
    exact dif_pos hm
  have hbits : x.toBits.toBitVec =
      UnpackedFloat.pack Format.binary64 (.finite .positive m e hm) := by
    rw [← hunpack]
    show x.toModel.toBits.toBitVec = (Float.Model.pack x.toModel.unpack).toBits.toBitVec
    rw [pack_unpack]
  have hnat : x.toBits.toNat = x.toBits.toBitVec.toNat := rfl
  change -1074 ≤ e at hmin
  change e ≤ 971 at hmax
  have hsign : (Sign.positive.toBitVec).toNat = 0 := rfl
  rw [hnat, hbits]
  by_cases hfull : 2 ^ 52 ≤ m
  · rw [pack_normal _ hm hfull hlt hmin hmax, toNat_packComponents, hsign, BitVec.toNat_ofNat,
      BitVec.toNat_ofNat]
    omega
  · obtain rfl : e = minExponent := hnormal.resolve_left hfull
    have hleast : minExponent = -1074 := rfl
    rw [pack_subnormal _ hm (by omega), toNat_packComponents, hsign, BitVec.toNat_ofNat,
      BitVec.toNat_ofNat]
    omega

theorem orderKey_of_value {x : Float} {m : ℕ} {e : ℤ} (h : value x = .finite false m e)
    (hm : 0 < m) : orderKey x = (e + 1074) * 2 ^ 52 + m := by
  obtain ⟨hbits, hlt⟩ := toNat_toBits_of_value h hm
  have hsmall : x.toBits.toNat < Nat.pow 2 63 := hlt
  unfold orderKey
  rw [if_pos hsmall, hbits]

/-- A positive number has a value without sign, and a mantissa. -/
theorem exists_value_of_pos {x : Float} (hx : x.isFinite = true) (hpos : 0 < toRat x) :
    ∃ m e, value x = .finite false m e ∧ 0 < m ∧ Canonical m e := by
  obtain ⟨negative, m, e, h⟩ := isFinite_iff.mp hx
  rw [toRat_of_value h] at hpos
  have hnonneg := magnitude_nonneg m e
  cases negative with
  | true => exact absurd hpos (neg_nonpos.mpr hnonneg).not_gt
  | false =>
    rcases canonical_of_value h with ⟨rfl, -⟩ | ⟨hm, hc, -⟩
    · simp at hpos
    · exact ⟨m, e, h, hm, hc⟩

/-- **Among positive numbers, the total order is that of the numbers.** -/
theorem lt_of_orderKey_lt {x y : Float} (hx : x.isFinite = true) (hy : y.isFinite = true)
    (hxpos : 0 < toRat x) (hypos : 0 < toRat y) (h : orderKey x < orderKey y) : x < y := by
  obtain ⟨m, e, hvx, hm, hcx⟩ := exists_value_of_pos hx hxpos
  obtain ⟨n, f, hvy, hn, hcy⟩ := exists_value_of_pos hy hypos
  rw [orderKey_of_value hvx hm, orderKey_of_value hvy hn] at h
  rw [lt_iff hx hy, toRat_of_value hvx, toRat_of_value hvy, signedRat_false, signedRat_false]
  rcases lt_trichotomy e f with hlt | rfl | hgt
  · exact magnitude_lt_of_exponent_lt hcx hcy hlt
  · have hmn : m < n := by omega
    exact mul_lt_mul_of_pos_right (Nat.cast_lt.mpr hmn) (two_zpow_pos e)
  · -- A number with the greater exponent has a full mantissa, so its key is the greater one.
    have hmin := hcy.minExponent_le
    have hfull : 2 ^ 52 ≤ m := hcx.normal_or.resolve_right (by omega)
    have hless := hcy.mantissa_lt
    omega

end Binary64
end TransferCost
