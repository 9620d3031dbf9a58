import TransferCost.Proofs.Binary64.Comparison

/-!
# Where results are numbers

What was rounded is a number, even if it has overflowed.  A sum stays a number when further finite
doubles are added, because one that has overflowed stays where it is.  So the sum of any list of
finite doubles is a number.

What is not a number has no way back: differences from it and absolute values of it are not numbers
either.
-/

namespace TransferCost
namespace Binary64

open Float.Model

variable {x y z : Float}

/-- **What was rounded is a number.** -/
theorem isNaN_of_roundedSigned {s : Bool} {q : ℚ} (h : value z = roundedSigned s q) :
    z.isNaN = false := by
  rw [Bool.eq_false_iff, ne_eq, isNaN_iff, h]
  rcases roundedSigned_cases s q with ⟨-, n, m, e, heq, -⟩ | ⟨-, n, heq⟩
  · rw [heq]
    exact Value.noConfusion
  · rw [heq]
    exact Value.noConfusion

theorem isNaN_abs (x : Float) : x.abs.isNaN = x.isNaN := by
  rw [Bool.eq_iff_iff, isNaN_iff, isNaN_iff, value_abs]
  cases value x <;> simp [Value.abs]

/-! ## Sums -/

/-- An infinite double stays so, whatever finite one is added. -/
theorem value_infinite_add {negative : Bool} (hx : value x = .infinite negative)
    (hy : y.isFinite = true) : value (x + y) = .infinite negative := by
  rw [value_add_eq, hx, ← unpack_eq]
  rcases unpack_of_isFinite hy with ⟨s, hu⟩ | ⟨s, m, e, hm, hu⟩ <;> rw [hu] <;> cases negative <;>
    exact congrArg valueOf (unpack_pack_infinity _)

/-- **A number plus a finite one is a number.** -/
theorem isNaN_add (hx : x.isNaN = false) (hy : y.isFinite = true) : (x + y).isNaN = false := by
  rcases finite_or_infinite hx with hx | ⟨negative, hx⟩
  · exact isNaN_of_roundedSigned (value_add hx hy)
  · exact isNaN_of_infinite (value_infinite_add hx hy)

/-- **Finite doubles add up to a number.** -/
theorem isNaN_sum {xs : List Float} (h : ∀ x ∈ xs, x.isFinite = true) : (sum xs).isNaN = false := by
  have hfold : ∀ s : Float, s.isNaN = false → (xs.foldl (· + ·) s).isNaN = false := by
    induction xs with
    | nil => exact fun s hs => hs
    | cons x rest ih =>
      intro s hs
      exact ih (fun y hy => h y (List.mem_cons_of_mem x hy)) _
        (isNaN_add hs (h x List.mem_cons_self))
  exact hfold _ (isNaN_of_isFinite isFinite_negZero)

/-! ## Differences -/

theorem isNaN_finite_sub (hx : x.isFinite = true) (hy : y.isNaN = false) :
    (x - y).isNaN = false := by
  rcases finite_or_infinite hy with hy | ⟨negative, hy⟩
  · exact isNaN_of_roundedSigned (value_sub hx hy)
  · exact isNaN_of_infinite (value_sub_infinite hx hy)

theorem isNaN_sub_finite (hx : x.isNaN = false) (hy : y.isFinite = true) :
    (x - y).isNaN = false := by
  rw [float_sub_eq_add_neg]
  exact isNaN_add hx (isFinite_neg hy)

theorem isNaN_sub_of_isNaN (hx : x.isNaN = true) : (x - y).isNaN = true := by
  rw [isNaN_iff] at hx ⊢
  have hsub (u : UnpackedFloat) : UnpackedFloat.sub .binary64 .notANumber u = .notANumber := by
    cases u <;> simp [UnpackedFloat.sub]
  rw [value_sub_eq, hx, unpackedOf, hsub]
  rfl

/-- What is bounded by a finite double is finite. -/
theorem isFinite_of_float_abs_le (hz : z.isFinite = true) (h : x.abs ≤ z) : x.isFinite = true := by
  have hnumber := (not_isNaN_of_le h).1
  rcases finite_or_infinite (isNaN_abs x ▸ hnumber) with hx | ⟨negative, hx⟩
  · exact hx
  · have hinfinite : value x.abs = .infinite false := by
      rw [value_abs, hx]
      rfl
    have hlt := lt_of_infinite hz hinfinite
    exact absurd hlt ((not_lt_iff (isNaN_of_isFinite hz) hnumber).mpr h)

end Binary64
end TransferCost
