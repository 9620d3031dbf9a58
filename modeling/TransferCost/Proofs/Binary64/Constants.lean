import TransferCost.Proofs.Binary64.Finite

/-!
# The doubles that are written out

Zero, one half, one and one hundred are doubles exactly.  So comparisons with them are comparisons
of numbers, and the two zeros are the only doubles that count as zero.
-/

namespace TransferCost

open Binary64

/-! ## Values -/

theorem value_zero : value 0.0 = .finite false 0 0 := by
  decide +kernel

theorem value_negZero : value (-0.0) = .finite true 0 0 := by
  rw [value_neg, value_zero]
  rfl

theorem value_half : value 0.5 = .finite false (2 ^ 52) (-53) := by
  decide +kernel

theorem value_one : value 1.0 = .finite false (2 ^ 52) (-52) := by
  decide +kernel

theorem value_hundred : value 100.0 = .finite false (25 * 2 ^ 48) (-46) := by
  decide +kernel

theorem isFinite_zero : (0.0 : Float).isFinite = true :=
  isFinite_iff.mpr ⟨_, _, _, value_zero⟩

theorem isFinite_negZero : (-0.0 : Float).isFinite = true :=
  isFinite_iff.mpr ⟨_, _, _, value_negZero⟩

theorem isFinite_half : (0.5 : Float).isFinite = true :=
  isFinite_iff.mpr ⟨_, _, _, value_half⟩

theorem isFinite_one : (1.0 : Float).isFinite = true :=
  isFinite_iff.mpr ⟨_, _, _, value_one⟩

theorem isFinite_hundred : (100.0 : Float).isFinite = true :=
  isFinite_iff.mpr ⟨_, _, _, value_hundred⟩

@[simp] theorem toRat_zero : toRat 0.0 = 0 :=
  toRat_of_zero value_zero

@[simp] theorem toRat_negZero : toRat (-0.0) = 0 :=
  toRat_of_zero value_negZero

@[simp] theorem toRat_half : toRat 0.5 = 1 / 2 := by
  rw [toRat_of_value value_half, signedRat_false]
  norm_num

@[simp] theorem toRat_one : toRat 1.0 = 1 := by
  rw [toRat_of_value value_one, signedRat_false]
  norm_num

@[simp] theorem toRat_hundred : toRat 100.0 = 100 := by
  rw [toRat_of_value value_hundred, signedRat_false]
  norm_num

/-- Zero with a minus sign is neutral. -/
theorem negZero_add {x : Float} (hx : x.isFinite = true) : -0.0 + x = x := by
  apply value_injective
  rw [value_add isFinite_negZero hx, isNegative_of_value value_negZero, toRat_negZero, zero_add,
    Bool.true_and]
  exact roundedSigned_toRat hx

/-! ## Comparisons -/

section Comparisons

variable {x : Float}

theorem zero_lt_iff (hx : x.isFinite = true) : 0.0 < x ↔ 0 < toRat x := by
  rw [lt_iff isFinite_zero hx, toRat_zero]

theorem zero_le_iff (hx : x.isFinite = true) : 0.0 ≤ x ↔ 0 ≤ toRat x := by
  rw [le_iff isFinite_zero hx, toRat_zero]

theorem beq_zero_iff (hx : x.isFinite = true) : (x == 0.0) = true ↔ toRat x = 0 := by
  have hcompare := compare_finite hx isFinite_zero
  rw [toRat_zero] at hcompare
  show (Float.Model.UnpackedFloat.compare x.toModel.unpack (0.0 : Float).toModel.unpack ==
    some .eq) = true ↔ _
  rw [hcompare, beq_iff_eq, Option.some.injEq, compare_eq_iff_eq]

end Comparisons
end TransferCost
