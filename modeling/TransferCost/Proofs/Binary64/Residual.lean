import TransferCost.Proofs.Binary64.Order

/-!
# What is left of a sum

Three numbers are added up, and taken away from the total again one by one.  Exactly computed,
nothing is left.  In doubles a residual is left: the five rounding errors on the way, added up.

If none of the three is far below zero, none is far above the total either.  So each error is small
in comparison with the total, or with one where the total is less than that, and adding the residual
to the total does not change it much.
-/

namespace TransferCost
namespace Binary64

/-- The error of one rounding, for numbers up to `b`. -/
theorem abs_near_sub_le_of_abs_le {q b : ℚ} (h : |q| ≤ b) : |near q - q| ≤ (b + 1) / 10 ^ 15 := by
  have herror := abs_near_sub_le q
  have hrel : |q| / 2 ^ 53 ≤ b / 10 ^ 15 :=
    div_le_div₀ ((abs_nonneg q).trans h) h (by norm_num) (by norm_num)
  have hleast : (1 : ℚ) / 2 ^ 1075 ≤ 1 / 10 ^ 15 :=
    one_div_le_one_div_of_le (by norm_num)
      ((by norm_num : (10 : ℚ) ^ 15 ≤ 2 ^ 50).trans (pow_le_pow_right₀ (by norm_num) (by norm_num)))
  generalize (1 : ℚ) / 2 ^ 1075 = least at herror hleast
  rw [add_div]
  linarith

/-- A number that is rounded to `b` or less is not far above it. -/
theorem le_of_near_le {q b : ℚ} (hb : 1 ≤ b) (h : near q ≤ b) : q ≤ b + b / 10 ^ 3 := by
  by_contra hlt
  rw [not_le] at hlt
  have hmono := near_mono hlt.le
  have herror := abs_near_sub_le_of_abs_le (abs_of_nonneg (by linarith : 0 ≤ b + b / 10 ^ 3)).le
  rw [abs_le] at herror
  linarith

/-- A number that is not far below zero is not rounded to one that is. -/
theorem neg_le_near {q d : ℚ} (hd : 0 ≤ d) (hd' : d ≤ 1) (h : -d ≤ q) :
    -(d + 1 / 10 ^ 6) ≤ near q := by
  have hmono := near_mono h
  have hone : |-d| ≤ 1 := by
    rw [abs_neg, abs_of_nonneg hd]
    exact hd'
  have herror := abs_near_sub_le_of_abs_le hone
  rw [abs_le] at herror
  linarith

variable {a b c M : ℚ}

/-- No summand is far above the total. -/
theorem abs_summand_le (hM : 1 ≤ M) (ht : near (near (a + b) + c) ≤ M)
    (ha : -(1 / 10 ^ 5) ≤ a) (hb : -(1 / 10 ^ 5) ≤ b) (hc : -(1 / 10 ^ 5) ≤ c) :
    |a| ≤ 2 * M ∧ |b| ≤ 2 * M ∧ |c| ≤ 2 * M := by
  have hsum : near (a + b) + c ≤ M + M / 10 ^ 3 := le_of_near_le hM ht
  have hpair : a + b ≤ 3 / 2 * M + 3 / 2 * M / 10 ^ 3 :=
    le_of_near_le (by linarith) (by linarith)
  have hlower : -(2 / 10 ^ 5 + 1 / 10 ^ 6) ≤ near (a + b) :=
    neg_le_near (by norm_num) (by norm_num) (by linarith)
  refine ⟨abs_le.mpr ⟨?_, ?_⟩, abs_le.mpr ⟨?_, ?_⟩, abs_le.mpr ⟨?_, ?_⟩⟩ <;> linarith

/-- **The residual is small in comparison with the total.** -/
theorem abs_residual_le (hM : 1 ≤ M) (hpos : 0 ≤ near (near (a + b) + c))
    (ht : near (near (a + b) + c) ≤ M)
    (ha : -(1 / 10 ^ 5) ≤ a) (hb : -(1 / 10 ^ 5) ≤ b) (hc : -(1 / 10 ^ 5) ≤ c) :
    |near (near (near (near (near (a + b) + c) - a) - b) - c)| ≤ M / 10 ^ 12 := by
  obtain ⟨hA, hB, hC⟩ := abs_summand_le hM ht ha hb hc
  rw [abs_le] at hA hB hC
  -- The five roundings, each with a bound of the number that is rounded.
  have h₁ := abs_near_sub_le_of_abs_le (q := a + b) (b := 4 * M)
    (abs_le.mpr ⟨by linarith, by linarith⟩)
  rw [abs_le] at h₁
  generalize near (a + b) = s at *
  have h₂ := abs_near_sub_le_of_abs_le (q := s + c) (b := 7 * M)
    (abs_le.mpr ⟨by linarith, by linarith⟩)
  rw [abs_le] at h₂
  generalize near (s + c) = t at *
  have h₃ := abs_near_sub_le_of_abs_le (q := t - a) (b := 3 * M)
    (abs_le.mpr ⟨by linarith, by linarith⟩)
  rw [abs_le] at h₃
  generalize near (t - a) = d at *
  have h₄ := abs_near_sub_le_of_abs_le (q := d - b) (b := 6 * M)
    (abs_le.mpr ⟨by linarith, by linarith⟩)
  rw [abs_le] at h₄
  generalize near (d - b) = e at *
  have h₅ := abs_near_sub_le_of_abs_le (q := e - c) (b := 9 * M)
    (abs_le.mpr ⟨by linarith, by linarith⟩)
  rw [abs_le] at h₅
  generalize near (e - c) = r at *
  rw [abs_le]
  constructor <;> linarith

/-- **Adding a small residual changes the total by little.** -/
theorem abs_near_sub_sum_le {t r : ℚ} (hM : 1 ≤ M) (hpos : 0 ≤ t) (ht : t ≤ M)
    (hr : |r| ≤ M / 10 ^ 12) : |near (t - near (t + r))| ≤ M / 10 ^ 11 := by
  rw [abs_le] at hr
  have h₁ := abs_near_sub_le_of_abs_le (q := t + r) (b := 2 * M)
    (abs_le.mpr ⟨by linarith, by linarith⟩)
  rw [abs_le] at h₁
  generalize near (t + r) = s at *
  have h₂ := abs_near_sub_le_of_abs_le (q := t - s) (b := M)
    (abs_le.mpr ⟨by linarith, by linarith⟩)
  rw [abs_le] at h₂
  generalize near (t - s) = d at *
  rw [abs_le]
  constructor <;> linarith

end Binary64
end TransferCost
