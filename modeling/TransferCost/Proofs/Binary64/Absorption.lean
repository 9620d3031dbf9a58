import TransferCost.Proofs.Binary64.Order

/-!
# Large doubles absorb small numbers

The doubles around a large one are far apart.  A number that is small in comparison with the
distance is lost when it is added: the sum is rounded to the double again.

Below the double the distance may be half of what it is above, namely where the double is a power of
two.  So the numbers that are lost in either direction are those below a quarter of a step:
`nearest_absorb`, and `near_toRat_add` for doubles of either sign.

Since rounding is monotone, this bounds sums as well.  What is added to a number of at most
`2 ^ 100` leads to a number of at most `2 ^ 100` again, as long as it is no greater than `2 ^ 32`:
`abs_near_add_le`.
-/

namespace TransferCost
namespace Binary64

/-! ## Close to the grid -/

theorem roundEven_eq_of_abs_lt {n : ℕ} {q : ℚ} (hq : 0 ≤ q) (h : |q - n| < 1 / 2) :
    roundEven q = n := by
  have hround := abs_roundEven_sub_le hq
  have hclose : |(roundEven q : ℚ) - n| < 1 :=
    calc |(roundEven q : ℚ) - n| ≤ |(roundEven q : ℚ) - q| + |q - n| := abs_sub_le _ _ _
      _ < 1 / 2 + 1 / 2 := add_lt_add_of_le_of_lt hround h
      _ = 1 := by norm_num
  have hint : |(roundEven q : ℤ) - n| < 1 := by
    exact_mod_cast hclose
  have heq := Int.abs_lt_one_iff.mp hint
  omega

/-- A number close to a point of its grid is rounded to it. -/
theorem nearest_eq_of_abs_lt {n : ℕ} {e : ℤ} {q : ℚ} (hq : 0 < q) (hgrid : gridExponent q = e)
    (h : |q - n * 2 ^ e| < 2 ^ e / 2) : nearest q = n * 2 ^ e := by
  have hstep := two_zpow_pos e
  have hdistance : |inSteps q - n| = |q - n * 2 ^ e| / 2 ^ e := by
    rw [inSteps, hgrid, ← abs_of_pos hstep, ← abs_div, abs_of_pos hstep, sub_div,
      mul_div_cancel_right₀ _ hstep.ne']
  have hclose : |inSteps q - n| < 1 / 2 := by
    rw [hdistance, div_lt_iff₀ hstep]
    linarith
  rw [nearest, hgrid, roundEven_eq_of_abs_lt (inSteps_nonneg hq.le) hclose]

/-! ## Absorption -/

section Mantissa

variable {m : ℕ} {e : ℤ} {d : ℚ}

theorem two_zpow_fiftytwo (e : ℤ) : (2 : ℚ) ^ (52 + e) = 2 ^ 52 * 2 ^ e :=
  (two_zpow_add 52 e).trans (congrArg (· * _) (zpow_natCast 2 52))

theorem two_zpow_fiftythree (e : ℤ) : (2 : ℚ) ^ (53 + e) = 2 ^ 53 * 2 ^ e :=
  (two_zpow_add 53 e).trans (congrArg (· * _) (zpow_natCast 2 53))

/-- On the same grid, even half of a step is too little. -/
theorem nearest_absorb_of_le (hm : m < 2 ^ 53) (he : minExponent ≤ e)
    (hlow : (2 : ℚ) ^ 52 * 2 ^ e ≤ m * 2 ^ e + d) (hd : |d| < 2 ^ e / 2) :
    nearest (m * 2 ^ e + d) = m * 2 ^ e := by
  have hstep := two_zpow_pos e
  have hnext : (m : ℚ) + 1 ≤ 2 ^ 53 := by
    exact_mod_cast hm
  have hpos : (0 : ℚ) < m * 2 ^ e + d := (mul_pos (by norm_num) hstep).trans_le hlow
  have hgrid : gridExponent (m * 2 ^ e + d) = e := by
    refine gridExponent_eq hpos he ?_ (.inl ?_)
    · have hd' := (abs_lt.mp hd).2
      have hroom := mul_le_mul_of_nonneg_right hnext hstep.le
      rw [add_mul, one_mul] at hroom
      rw [two_zpow_fiftythree]
      linarith
    · rwa [two_zpow_fiftytwo]
  refine nearest_eq_of_abs_lt hpos hgrid ?_
  rwa [add_sub_cancel_left]

/-- Below a power of two the grid is finer, and less is absorbed. -/
theorem nearest_absorb_of_lt (he : minExponent < e) (hd : -(2 ^ e / 4) < d) (hd' : d < 0) :
    nearest (2 ^ 52 * 2 ^ e + d) = 2 ^ 52 * 2 ^ e := by
  have hstep := two_zpow_pos (e - 1)
  have hhalf : (2 : ℚ) ^ e = 2 * 2 ^ (e - 1) := by
    rw [← zpow_one_add₀ two_ne_zero, add_sub_cancel]
  have hcast : ((2 ^ 53 : ℕ) : ℚ) = 2 ^ 53 := Nat.cast_pow 2 53
  have hcarry : (2 : ℚ) ^ 52 * 2 ^ e = 2 ^ 53 * 2 ^ (e - 1) := by
    rw [hhalf]
    ring
  rw [hhalf] at hd
  rw [hcarry]
  have hpos : (0 : ℚ) < 2 ^ 53 * 2 ^ (e - 1) + d := by
    linarith
  have hgrid : gridExponent ((2 : ℚ) ^ 53 * 2 ^ (e - 1) + d) = e - 1 := by
    refine gridExponent_eq hpos (by omega) ?_ (.inl ?_)
    · rw [two_zpow_fiftythree]
      linarith
    · rw [two_zpow_fiftytwo]
      linarith
  rw [← hcast] at hpos hgrid ⊢
  refine nearest_eq_of_abs_lt hpos hgrid ?_
  rw [add_sub_cancel_left, abs_of_neg hd']
  linarith

/-- **A mantissa with all of its bits absorbs less than a quarter of a step.** -/
theorem nearest_absorb (hfull : 2 ^ 52 ≤ m) (hm : m < 2 ^ 53) (he : minExponent < e)
    (hd : |d| < 2 ^ e / 4) : nearest (m * 2 ^ e + d) = m * 2 ^ e := by
  have hstep := two_zpow_pos e
  by_cases hlow : (2 : ℚ) ^ 52 * 2 ^ e ≤ m * 2 ^ e + d
  · exact nearest_absorb_of_le hm he.le hlow (by linarith)
  · have hd' := (abs_lt.mp hd).1
    rw [not_le] at hlow
    have hpower : m = 2 ^ 52 := by
      by_contra hne
      have hnext : (2 : ℚ) ^ 52 + 1 ≤ m := by
        exact_mod_cast (by omega : 2 ^ 52 + 1 ≤ m)
      have hroom := mul_le_mul_of_nonneg_right hnext hstep.le
      linarith
    rw [hpower]
    rw [hpower] at hlow
    push_cast at hlow ⊢
    exact nearest_absorb_of_lt he hd' (by linarith)

end Mantissa

/-- **A double of at least `2 ^ 62` absorbs numbers of at most one hundred.** -/
theorem near_toRat_add {x : Float} {d : ℚ} (hx : x.isFinite = true) (hlarge : 2 ^ 62 ≤ |toRat x|)
    (hd : |d| ≤ 100) : near (toRat x + d) = toRat x := by
  obtain ⟨n, m, e, h⟩ := isFinite_iff.mp hx
  rw [toRat_of_value h] at hlarge ⊢
  rw [abs_signedRat n (magnitude_nonneg m e)] at hlarge
  rcases canonical_of_value h with ⟨rfl, rfl⟩ | ⟨-, hc, -⟩
  · norm_num at hlarge
  have he : 9 < e := by
    refine lt_exponent_of_le hc.mantissa_lt ?_
    norm_num at hlarge ⊢
    exact hlarge
  have hmin : minExponent < e := (by decide : minExponent < 9).trans he
  have hfull := hc.normal_or.resolve_right hmin.ne'
  have hstep : (2 : ℚ) ^ 10 ≤ 2 ^ e := by
    exact_mod_cast two_zpow_le (by omega : (10 : ℤ) ≤ e)
  norm_num at hlarge hstep
  have hself : ∀ d' : ℚ, |d'| ≤ 100 → near (m * 2 ^ e + d') = m * 2 ^ e := by
    intro d' hd'
    have hsum : 0 ≤ (m : ℚ) * 2 ^ e + d' := by
      linarith [(abs_le.mp hd').1]
    rw [near_of_nonneg hsum]
    exact nearest_absorb hfull hc.mantissa_lt hmin (by linarith)
  cases n with
  | false => exact hself d hd
  | true =>
    have hneg := hself (-d) (by rwa [abs_neg])
    rw [signedRat_true, ← neg_inj, ← near_neg, neg_add, neg_neg]
    exact hneg

/-! ## Bounds that rounding keeps -/

/-- Numbers of moderate size do not lead out of the range up to `2 ^ 100`. -/
theorem abs_near_add_le {q d : ℚ} (hq : |q| ≤ 2 ^ 100) (hd : |d| ≤ 2 ^ 32) :
    |near (q + d)| ≤ 2 ^ 100 := by
  have hlimit : nearest (2 ^ 100 + 2 ^ 32) = 2 ^ 100 := by
    have h := nearest_absorb (m := 2 ^ 52) (e := 48) (d := 2 ^ 32) le_rfl (by norm_num) (by decide)
      (by norm_num)
    norm_num at h ⊢
    exact h
  rw [abs_near, ← hlimit]
  exact nearest_mono (abs_nonneg _) ((abs_add_le q d).trans (add_le_add hq hd))

end Binary64
end TransferCost
