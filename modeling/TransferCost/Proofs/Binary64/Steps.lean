import TransferCost.Proofs.Binary64.Signs

/-!
# Steps

The doubles between two powers of two are the multiples of a step, which is a power of two itself.
So an operation is exact where its result is a multiple of the step and not too large, and there is
no error to account for.  `IsMultiple e q` says that `q` is a multiple of `2 ^ e`.

## 1.  Exact operations

Multiples of a step are doubles up to `2 ^ 53` steps (`near_of_isMultiple`), and doubles from
`2 ^ 52` steps on are multiples of it (`isMultiple_toRat`).  A double minus another one that is at
least half as large is therefore a double: `near_sub_of_le_two_mul`.

## 2.  Errors

Up to `2 ^ 53` steps, the error is at most half of a step: `abs_near_sub_le_half`.  The same in
terms of the size is `near_between`.  In the middle between two multiples, the even one is taken:
`near_tie`.
-/

namespace TransferCost
namespace Binary64

/-! ## 1.  Exact operations -/

/-- The number is a multiple of `2 ^ e`. -/
def IsMultiple (e : ℤ) (q : ℚ) : Prop :=
  ∃ n : ℤ, q = n * 2 ^ e

section Multiples

variable {d e : ℤ} {p q : ℚ}

theorem IsMultiple.add (hp : IsMultiple e p) (hq : IsMultiple e q) : IsMultiple e (p + q) := by
  obtain ⟨m, rfl⟩ := hp
  obtain ⟨n, rfl⟩ := hq
  exact ⟨m + n, by push_cast; ring⟩

theorem IsMultiple.sub (hp : IsMultiple e p) (hq : IsMultiple e q) : IsMultiple e (p - q) := by
  obtain ⟨m, rfl⟩ := hp
  obtain ⟨n, rfl⟩ := hq
  exact ⟨m - n, by push_cast; ring⟩

/-- A multiple of a step is a multiple of all smaller ones. -/
theorem IsMultiple.of_le (h : IsMultiple e q) (hde : d ≤ e) : IsMultiple d q := by
  obtain ⟨n, rfl⟩ := h
  obtain ⟨k, rfl⟩ := Int.le.dest hde
  refine ⟨n * 2 ^ k, ?_⟩
  rw [two_zpow_add, zpow_natCast]
  push_cast
  ring

/-- Whole numbers are multiples of steps up to one. -/
theorem isMultiple_natCast (n : ℕ) (he : e ≤ 0) : IsMultiple e (n : ℚ) := by
  have hwhole : IsMultiple 0 (n : ℚ) := ⟨n, by simp⟩
  exact hwhole.of_le he

/-- A multiple that is less than one step above another one is not above it. -/
theorem IsMultiple.le_of_lt_add (hp : IsMultiple e p) (hq : IsMultiple e q) (h : p < q + 2 ^ e) :
    p ≤ q := by
  have hstep := two_zpow_pos e
  obtain ⟨m, rfl⟩ := hp
  obtain ⟨n, rfl⟩ := hq
  rw [← add_one_mul] at h
  have hlt : (m : ℚ) < n + 1 := lt_of_mul_lt_mul_right h hstep.le
  have hle : m ≤ n := Int.lt_add_one_iff.mp (by exact_mod_cast hlt)
  exact mul_le_mul_of_nonneg_right (by exact_mod_cast hle) hstep.le

/-- **Multiples of a step are doubles**, up to `2 ^ 53` steps. -/
theorem near_of_isMultiple (he : minExponent ≤ e) (h : IsMultiple e q)
    (hq : |q| ≤ 2 ^ (53 + e)) : near q = q := by
  obtain ⟨n, rfl⟩ := h
  have hstep := two_zpow_pos e
  have hsize : n.natAbs ≤ 2 ^ 53 := by
    rw [abs_mul, abs_of_pos hstep, two_zpow_add] at hq
    have hn : |(n : ℚ)| ≤ 2 ^ (53 : ℤ) := le_of_mul_le_mul_right hq hstep
    rw [← Int.cast_abs, ← Nat.cast_natAbs] at hn
    exact_mod_cast hn
  have hnat : near ((n.natAbs : ℚ) * 2 ^ e) = n.natAbs * 2 ^ e := by
    rw [near_of_nonneg (magnitude_nonneg _ e)]
    rcases hsize.lt_or_eq with hlt | heq
    · exact nearest_of_mantissa_lt hlt he
    · rw [heq, ← magnitude_carry]
      exact nearest_of_mantissa_lt (by norm_num) (by omega)
  rcases n.natAbs_eq with hn | hn <;> rw [hn]
  · exact hnat
  · rw [Int.cast_neg, neg_mul, near_neg]
    exact congrArg Neg.neg hnat

theorem near_two_zpow (he : minExponent ≤ e) : near (2 ^ e) = 2 ^ e := by
  refine near_of_isMultiple he ⟨1, by simp⟩ ?_
  rw [abs_of_pos (two_zpow_pos e)]
  exact two_zpow_le (by omega)

theorem near_natCast {n : ℕ} (hn : n ≤ 2 ^ 53) : near n = n := by
  refine near_of_isMultiple (e := 0) (by decide) (isMultiple_natCast n le_rfl) ?_
  rw [Nat.abs_cast]
  exact_mod_cast hn

variable {x y : Float}

/-- **Doubles are multiples of a step**, from `2 ^ 52` steps on. -/
theorem isMultiple_toRat (hx : x.isFinite = true) (h : 2 ^ (52 + e) ≤ toRat x) :
    IsMultiple e (toRat x) := by
  obtain ⟨m, d, hc, hm⟩ := exists_canonical hx ((two_zpow_pos _).trans_le h)
  rw [hm] at h ⊢
  have hsplit : 52 + e = 53 + (e - 1) := by ring
  rw [hsplit] at h
  have hed : e ≤ d := Int.sub_one_lt_iff.mp (lt_exponent_of_le hc.mantissa_lt h)
  exact IsMultiple.of_le ⟨m, by push_cast; rfl⟩ hed

/-- **The difference of two doubles is a double**, if the smaller one is at least half of the
greater one. -/
theorem near_sub_of_le_two_mul (hx : x.isFinite = true) (hy : y.isFinite = true)
    (hle : toRat y ≤ toRat x) (hle' : toRat x ≤ 2 * toRat y) :
    near (toRat x - toRat y) = toRat x - toRat y := by
  rcases (by linarith : 0 ≤ toRat y).eq_or_lt with hzero | hpos
  · rw [← hzero, sub_zero]
    exact near_toRat hx
  obtain ⟨m, e, hc, hm⟩ := exists_canonical hy hpos
  have hy' : IsMultiple e (toRat y) := ⟨m, by rw [hm]; push_cast; rfl⟩
  have hx' : IsMultiple e (toRat x) := by
    rcases hc.normal_or with hfull | rfl
    · refine isMultiple_toRat hx (le_trans ?_ hle)
      rw [hm, two_zpow_add]
      exact mul_le_mul_of_nonneg_right (by exact_mod_cast hfull) (two_zpow_pos e).le
    · exact exists_multiple hx
  have hlt : toRat y ≤ 2 ^ (53 + e) := by
    rw [hm, two_zpow_add]
    exact mul_le_mul_of_nonneg_right (by exact_mod_cast hc.mantissa_lt.le) (two_zpow_pos e).le
  refine near_of_isMultiple hc.minExponent_le (hx'.sub hy') ?_
  rw [abs_of_nonneg (sub_nonneg.mpr hle)]
  linarith

end Multiples

/-! ## 2.  Errors -/

section Errors

variable {e : ℤ} {q : ℚ}

/-- **Up to `2 ^ 53` steps, rounding is off by at most half of a step.** -/
theorem abs_near_sub_le_half (he : minExponent ≤ e) (hq : |q| ≤ 2 ^ (53 + e)) :
    |near q - q| ≤ 2 ^ e / 2 := by
  have hhalf : (0 : ℚ) ≤ 2 ^ e / 2 := (half_pos (two_zpow_pos e)).le
  have hmagnitude : ∀ r : ℚ, 0 ≤ r → r ≤ 2 ^ (53 + e) → |near r - r| ≤ 2 ^ e / 2 := by
    intro r hr hle
    rcases hr.eq_or_lt with rfl | hpos
    · rw [near_of_nonneg le_rfl, nearest_zero, sub_zero, abs_zero]
      exact hhalf
    rcases hle.lt_or_eq with hlt | heq
    · have hgrid : gridExponent r ≤ e := by
        have hlog := (lt_zpow_iff hpos).mp hlt
        unfold gridExponent
        omega
      rw [near_of_nonneg hr]
      exact (abs_nearest_sub_le hr).trans
        (div_le_div_of_nonneg_right (two_zpow_le hgrid) zero_le_two)
    · have hexact : near r = r := by
        refine near_of_isMultiple he ⟨2 ^ 53, ?_⟩ ((abs_of_nonneg hr).trans_le hle)
        rw [heq, two_zpow_add]
        norm_num
      rw [hexact, sub_self, abs_zero]
      exact hhalf
  rcases le_total 0 q with h | h
  · exact hmagnitude q h ((le_abs_self q).trans hq)
  · have hneg := hmagnitude (-q) (neg_nonneg.mpr h) ((neg_le_abs q).trans hq)
    rwa [near_neg, ← neg_sub', abs_neg] at hneg

/-- The same for a number between a power of two and its negative. -/
theorem near_between {k : ℕ} (hlow : -2 ^ k ≤ q) (hhigh : q ≤ 2 ^ k) :
    q - 2 ^ k / 2 ^ 54 ≤ near q ∧ near q ≤ q + 2 ^ k / 2 ^ 54 := by
  have hroom : (2 : ℚ) ^ (53 + ((k : ℤ) - 53)) = 2 ^ k := by
    rw [add_sub_cancel, zpow_natCast]
  have hstep : (2 : ℚ) ^ ((k : ℤ) - 53) / 2 = 2 ^ k / 2 ^ 54 := by
    rw [zpow_sub₀ two_ne_zero, zpow_natCast, div_div]
    norm_num
  have hexponent : minExponent ≤ (k : ℤ) - 53 := by
    change -1074 ≤ (k : ℤ) - 53
    omega
  have herror := abs_near_sub_le_half hexponent (hroom ▸ abs_le.mpr ⟨hlow, hhigh⟩)
  rw [hstep, abs_le] at herror
  constructor <;> linarith

/-- **In the middle between two doubles, the even one is taken.** -/
theorem near_tie {n : ℕ} (he : minExponent ≤ e) (heven : n % 2 = 0) (hfull : 2 ^ 52 ≤ n)
    (hn : n < 2 ^ 53) : near (n * 2 ^ e + 2 ^ e / 2) = n * 2 ^ e := by
  have hstep := two_zpow_pos e
  have hsplit : (n : ℚ) * 2 ^ e + 2 ^ e / 2 = (n + 1 / 2) * 2 ^ e := by ring
  have hpos : (0 : ℚ) < (n + 1 / 2) * 2 ^ e := by positivity
  have hgrid : gridExponent (((n : ℚ) + 1 / 2) * 2 ^ e) = e := by
    have hroom : (n : ℚ) + 1 ≤ 2 ^ (53 : ℤ) := by
      exact_mod_cast hn
    have hfull' : (2 : ℚ) ^ (52 : ℤ) ≤ n := by
      exact_mod_cast hfull
    refine gridExponent_eq hpos he ?_ (.inl ?_)
    · rw [two_zpow_add]
      exact mul_lt_mul_of_pos_right (by linarith) hstep
    · rw [two_zpow_add]
      exact mul_le_mul_of_nonneg_right (by linarith) hstep.le
  have hfloor : ⌊(n : ℚ) + 1 / 2⌋₊ = n := by
    rw [Nat.floor_eq_iff (by positivity)]
    constructor <;> linarith
  have hround : roundEven ((n : ℚ) + 1 / 2) = n := by
    unfold roundEven
    rw [hfloor]
    simp [heven]
  rw [hsplit, near_of_nonneg hpos.le, nearest, inSteps, hgrid,
    mul_div_cancel_right₀ _ hstep.ne', hround]

end Errors

end Binary64
end TransferCost
