import TransferCost.Proofs.Binary64.Packing

/-!
# Rounding rational numbers to doubles

Every operation on doubles gives the double nearest to the exact result.  This file says what that
is, on non-negative rational numbers and without any reference to bits: `nearest q` is the rounded
number, and `rounded negative q` is the value of a double that was rounded to it.

## The grid

The doubles around `q` form a grid, whose step is `2 ^ gridExponent q`: fifty-two binary places
below the leading one, but never below `2 ^ -1074`.  In steps of the grid, `q` is rounded to a whole
number by `roundEven`.

## What is used later

Rounding is monotone (`nearest_mono`), it leaves doubles alone (`nearest_of_canonical`,
`rounded_of_canonical`), and it is off by at most half a step (`abs_nearest_sub_le`).
-/

namespace TransferCost
namespace Binary64

/-! ## Whole numbers -/

/-- The nearest whole number, and the even one of two. -/
def roundEven (q : ℚ) : ℕ :=
  let whole := ⌊q⌋₊
  if q - whole < 1 / 2 then whole
  else if 1 / 2 < q - whole then whole + 1
  else whole + whole % 2

theorem floor_le_roundEven (q : ℚ) : ⌊q⌋₊ ≤ roundEven q := by
  unfold roundEven
  dsimp only
  split_ifs <;> omega

theorem roundEven_le_floor_add_one (q : ℚ) : roundEven q ≤ ⌊q⌋₊ + 1 := by
  unfold roundEven
  dsimp only
  split_ifs <;> omega

@[simp] theorem roundEven_natCast (n : ℕ) : roundEven n = n := by
  simp [roundEven]

theorem roundEven_mono {a b : ℚ} (h : a ≤ b) : roundEven a ≤ roundEven b := by
  rcases (Nat.floor_mono h).lt_or_eq with hlt | heq
  · have ha := roundEven_le_floor_add_one a
    have hb := floor_le_roundEven b
    omega
  · unfold roundEven
    dsimp only
    rw [heq]
    split_ifs <;> first | omega | (exfalso; linarith)

/-- A whole number below is still below after rounding. -/
theorem le_roundEven {n : ℕ} {q : ℚ} (h : (n : ℚ) ≤ q) : n ≤ roundEven q := by
  rw [← roundEven_natCast n]
  exact roundEven_mono h

theorem roundEven_le {n : ℕ} {q : ℚ} (h : q ≤ n) : roundEven q ≤ n := by
  rw [← roundEven_natCast n]
  exact roundEven_mono h

theorem abs_roundEven_sub_le {q : ℚ} (hq : 0 ≤ q) : |(roundEven q : ℚ) - q| ≤ 1 / 2 := by
  have hlo := Nat.floor_le hq
  have hhi := Nat.lt_floor_add_one q
  unfold roundEven
  dsimp only
  split_ifs with h₁ h₂
  · rw [abs_le]
    constructor <;> linarith
  · push_cast
    rw [abs_le]
    constructor <;> linarith
  · have hmod : ⌊q⌋₊ % 2 = 0 ∨ ⌊q⌋₊ % 2 = 1 := Nat.mod_two_eq_zero_or_one _
    rcases hmod with hmod | hmod
    · rw [hmod, abs_le]
      push_cast
      constructor <;> linarith
    · rw [hmod, abs_le]
      push_cast
      constructor <;> linarith

/-! ## The grid -/

theorem two_zpow_pos (e : ℤ) : (0 : ℚ) < 2 ^ e :=
  zpow_pos (by norm_num) e

theorem two_zpow_le {d e : ℤ} (h : d ≤ e) : (2 : ℚ) ^ d ≤ 2 ^ e :=
  zpow_le_zpow_right₀ (by norm_num) h

theorem two_zpow_lt_iff {d e : ℤ} : (2 : ℚ) ^ d < 2 ^ e ↔ d < e :=
  zpow_lt_zpow_iff_right₀ (by norm_num)

theorem two_zpow_add (d e : ℤ) : (2 : ℚ) ^ (d + e) = 2 ^ d * 2 ^ e :=
  zpow_add₀ (by norm_num) d e

theorem zpow_le_iff {q : ℚ} (hq : 0 < q) {e : ℤ} : (2 : ℚ) ^ e ≤ q ↔ e ≤ Int.log 2 q :=
  Int.zpow_le_iff_le_log Nat.one_lt_two hq

theorem lt_zpow_iff {q : ℚ} (hq : 0 < q) {e : ℤ} : q < (2 : ℚ) ^ e ↔ Int.log 2 q < e :=
  Int.lt_zpow_iff_log_lt Nat.one_lt_two hq

/-- The exponent of the doubles around a number. -/
def gridExponent (q : ℚ) : ℤ :=
  max (Int.log 2 q - 52) minExponent

theorem minExponent_le_gridExponent (q : ℚ) : minExponent ≤ gridExponent q :=
  le_max_right _ _

theorem gridExponent_mono {a b : ℚ} (ha : 0 < a) (h : a ≤ b) : gridExponent a ≤ gridExponent b :=
  max_le_max (sub_le_sub_right (Int.log_mono_right ha h) 52) le_rfl

theorem lt_two_zpow_gridExponent {q : ℚ} (hq : 0 < q) : q < 2 ^ (53 + gridExponent q) := by
  have h := le_max_left (Int.log 2 q - 52) minExponent
  rw [lt_zpow_iff hq]
  unfold gridExponent
  omega

theorem two_zpow_gridExponent_le {q : ℚ} (hq : 0 < q) (h : minExponent < gridExponent q) :
    2 ^ (52 + gridExponent q) ≤ q := by
  rw [zpow_le_iff hq]
  unfold gridExponent at *
  omega

/-- The grid is determined by the binary place of the leading bit. -/
theorem gridExponent_eq {q : ℚ} (hq : 0 < q) {e : ℤ} (he : minExponent ≤ e) (hlt : q < 2 ^ (53 + e))
    (hle : 2 ^ (52 + e) ≤ q ∨ e = minExponent) : gridExponent q = e := by
  rw [lt_zpow_iff hq] at hlt
  rw [zpow_le_iff hq] at hle
  unfold gridExponent
  omega

/-! ## Rounding -/

/-- A number in steps of its grid. -/
def inSteps (q : ℚ) : ℚ :=
  q / 2 ^ gridExponent q

/-- The nearest number with a 53-bit mantissa and an exponent that is not below the least one. -/
def nearest (q : ℚ) : ℚ :=
  roundEven (inSteps q) * 2 ^ gridExponent q

theorem inSteps_mul (q : ℚ) : inSteps q * 2 ^ gridExponent q = q :=
  div_mul_cancel₀ _ (two_zpow_pos _).ne'

theorem inSteps_nonneg {q : ℚ} (hq : 0 ≤ q) : 0 ≤ inSteps q :=
  div_nonneg hq (two_zpow_pos _).le

theorem inSteps_lt {q : ℚ} (hq : 0 < q) : inSteps q < (2 ^ 53 : ℕ) := by
  have h := lt_two_zpow_gridExponent hq
  rw [two_zpow_add] at h
  rw [inSteps, div_lt_iff₀ (two_zpow_pos _)]
  exact_mod_cast h

theorem le_inSteps {q : ℚ} (hq : 0 < q) (h : minExponent < gridExponent q) :
    ((2 ^ 52 : ℕ) : ℚ) ≤ inSteps q := by
  have hle := two_zpow_gridExponent_le hq h
  rw [two_zpow_add] at hle
  rw [inSteps, le_div_iff₀ (two_zpow_pos _)]
  exact_mod_cast hle

theorem roundEven_inSteps_le {q : ℚ} (hq : 0 < q) : roundEven (inSteps q) ≤ 2 ^ 53 :=
  roundEven_le (inSteps_lt hq).le

theorem le_roundEven_inSteps {q : ℚ} (hq : 0 < q) (h : minExponent < gridExponent q) :
    2 ^ 52 ≤ roundEven (inSteps q) :=
  le_roundEven (le_inSteps hq h)

/-- The rounded mantissa has all of its bits, or the grid is the finest one. -/
theorem le_roundEven_inSteps_or {q : ℚ} (hq : 0 < q) :
    2 ^ 52 ≤ roundEven (inSteps q) ∨ gridExponent q = minExponent := by
  rcases (minExponent_le_gridExponent q).lt_or_eq with hlt | heq
  · exact .inl (le_roundEven_inSteps hq hlt)
  · exact .inr heq.symm

theorem nearest_nonneg (q : ℚ) : 0 ≤ nearest q :=
  mul_nonneg (Nat.cast_nonneg _) (two_zpow_pos _).le

@[simp] theorem inSteps_zero : inSteps 0 = 0 :=
  zero_div _

@[simp] theorem nearest_zero : nearest 0 = 0 := by
  simp [nearest, roundEven]

/-- **Rounding is off by at most half a step of the grid.** -/
theorem abs_nearest_sub_le {q : ℚ} (hq : 0 ≤ q) : |nearest q - q| ≤ 2 ^ gridExponent q / 2 := by
  have hstep := two_zpow_pos (gridExponent q)
  have hround := abs_roundEven_sub_le (inSteps_nonneg hq)
  have hsplit : nearest q - q = (roundEven (inSteps q) - inSteps q) * 2 ^ gridExponent q := by
    rw [sub_mul, inSteps_mul, nearest]
  rw [hsplit, abs_mul, abs_of_pos hstep]
  calc |(roundEven (inSteps q) : ℚ) - inSteps q| * 2 ^ gridExponent q
      ≤ 1 / 2 * 2 ^ gridExponent q := mul_le_mul_of_nonneg_right hround hstep.le
    _ = 2 ^ gridExponent q / 2 := by ring

/-- The error is small in comparison with the number, or with the least double. -/
theorem abs_nearest_sub_le_rel {q : ℚ} (hq : 0 ≤ q) :
    |nearest q - q| ≤ q / 2 ^ 53 + 1 / 2 ^ 1075 := by
  rcases hq.eq_or_lt with rfl | hpos
  · rw [nearest_zero, sub_zero, abs_zero]
    positivity
  have hstep : (2 : ℚ) ^ gridExponent q ≤ q / 2 ^ 52 + 1 / 2 ^ 1074 := by
    rcases max_choice (Int.log 2 q - 52) minExponent with hmax | hmax
    · have hlog : (2 : ℚ) ^ Int.log 2 q ≤ q := (zpow_le_iff hpos).mpr le_rfl
      have hle : (2 : ℚ) ^ gridExponent q ≤ q / 2 ^ 52 := by
        rw [gridExponent, hmax, zpow_sub₀ two_ne_zero]
        exact div_le_div_of_nonneg_right hlog (by positivity)
      exact hle.trans (le_add_of_nonneg_right (by positivity))
    · have heq : (2 : ℚ) ^ gridExponent q = 1 / 2 ^ 1074 := by
        rw [gridExponent, hmax, one_div]
        exact zpow_neg 2 1074
      rw [heq]
      exact le_add_of_nonneg_left (by positivity)
  calc |nearest q - q| ≤ 2 ^ gridExponent q / 2 := abs_nearest_sub_le hq
    _ ≤ (q / 2 ^ 52 + 1 / 2 ^ 1074) / 2 := div_le_div_of_nonneg_right hstep (by norm_num)
    _ = q / 2 ^ 53 + 1 / 2 ^ 1075 := by
      rw [add_div, div_div, div_div, ← pow_succ, ← pow_succ]

/-- On a coarser grid, a number is not rounded below what the finer grid can reach. -/
theorem nearest_le_of_gridExponent_lt {a b : ℚ} (ha : 0 < a) (hb : 0 < b)
    (h : gridExponent a < gridExponent b) : nearest a ≤ nearest b := by
  have hmin : minExponent < gridExponent b := (minExponent_le_gridExponent a).trans_lt h
  have hle : ((roundEven (inSteps a) : ℕ) : ℚ) ≤ (2 ^ 53 : ℕ) :=
    Nat.cast_le.mpr (roundEven_inSteps_le ha)
  have hge : ((2 ^ 52 : ℕ) : ℚ) ≤ (roundEven (inSteps b) : ℕ) :=
    Nat.cast_le.mpr (le_roundEven_inSteps hb hmin)
  calc nearest a ≤ (2 ^ 53 : ℕ) * 2 ^ gridExponent a :=
        mul_le_mul_of_nonneg_right hle (two_zpow_pos _).le
    _ = (2 ^ 52 : ℕ) * 2 ^ (1 + gridExponent a) := by
        rw [two_zpow_add]
        push_cast
        ring
    _ ≤ (2 ^ 52 : ℕ) * 2 ^ gridExponent b :=
        mul_le_mul_of_nonneg_left (two_zpow_le (by omega)) (by positivity)
    _ ≤ nearest b := mul_le_mul_of_nonneg_right hge (two_zpow_pos _).le

/-- **Rounding is monotone.** -/
theorem nearest_mono {a b : ℚ} (ha : 0 ≤ a) (h : a ≤ b) : nearest a ≤ nearest b := by
  rcases ha.eq_or_lt with rfl | ha
  · rw [nearest_zero]
    exact nearest_nonneg b
  have hb : 0 < b := ha.trans_le h
  rcases (gridExponent_mono ha h).lt_or_eq with hlt | heq
  · exact nearest_le_of_gridExponent_lt ha hb hlt
  · have hsteps : inSteps a ≤ inSteps b := by
      unfold inSteps
      rw [heq]
      exact div_le_div_of_nonneg_right h (two_zpow_pos _).le
    unfold nearest
    rw [heq]
    exact mul_le_mul_of_nonneg_right (Nat.cast_le.mpr (roundEven_mono hsteps)) (two_zpow_pos _).le

/-! ## Doubles stay as they are -/

variable {m : ℕ} {e : ℤ}

theorem magnitude_pos (hm : 0 < m) (e : ℤ) : (0 : ℚ) < m * 2 ^ e :=
  mul_pos (Nat.cast_pos.mpr hm) (two_zpow_pos e)

theorem two_pow_log2_le {m : ℕ} (hm : m ≠ 0) : (2 : ℚ) ^ (m.log2 : ℤ) ≤ m := by
  exact_mod_cast Nat.log2_self_le hm

theorem lt_two_pow_log2 (m : ℕ) : (m : ℚ) < 2 ^ ((m.log2 : ℤ) + 1) := by
  exact_mod_cast Nat.lt_log2_self

theorem log_of_magnitude {m : ℕ} (hm : 0 < m) (e : ℤ) :
    Int.log 2 ((m : ℚ) * 2 ^ e) = m.log2 + e := by
  have hstep := two_zpow_pos e
  have hpos := magnitude_pos hm e
  have hlower : (2 : ℚ) ^ ((m.log2 : ℤ) + e) ≤ m * 2 ^ e := by
    rw [two_zpow_add]
    exact mul_le_mul_of_nonneg_right (two_pow_log2_le hm.ne') hstep.le
  have hupper : (m : ℚ) * 2 ^ e < 2 ^ ((m.log2 : ℤ) + 1 + e) := by
    rw [two_zpow_add]
    exact mul_lt_mul_of_pos_right (lt_two_pow_log2 m) hstep
  rw [zpow_le_iff hpos] at hlower
  rw [lt_zpow_iff hpos] at hupper
  omega

theorem gridExponent_of_canonical (hm : 0 < m) (h : Canonical m e) :
    gridExponent ((m : ℚ) * 2 ^ e) = e := by
  have hlt : (m : ℚ) < 2 ^ (53 : ℤ) := by
    exact_mod_cast h.mantissa_lt
  refine gridExponent_eq (magnitude_pos hm e) h.minExponent_le ?_ ?_
  · rw [two_zpow_add]
    exact mul_lt_mul_of_pos_right hlt (two_zpow_pos e)
  · rcases h.normal_or with hn | hn
    · have hle : (2 : ℚ) ^ (52 : ℤ) ≤ m := by
        exact_mod_cast hn
      left
      rw [two_zpow_add]
      exact mul_le_mul_of_nonneg_right hle (two_zpow_pos e).le
    · exact .inr hn

theorem inSteps_of_canonical (hm : 0 < m) (h : Canonical m e) : inSteps ((m : ℚ) * 2 ^ e) = m := by
  rw [inSteps, gridExponent_of_canonical hm h]
  exact mul_div_cancel_right₀ _ (two_zpow_pos e).ne'

theorem nearest_of_canonical (hm : 0 < m) (h : Canonical m e) :
    nearest ((m : ℚ) * 2 ^ e) = m * 2 ^ e := by
  rw [nearest, inSteps_of_canonical hm h, gridExponent_of_canonical hm h, roundEven_natCast]

/-- A number is left alone if its mantissa has 53 bits or fewer, also where it could have more. -/
theorem nearest_of_mantissa_lt (hm : m < 2 ^ 53) (he : minExponent ≤ e) :
    nearest ((m : ℚ) * 2 ^ e) = m * 2 ^ e := by
  rcases Nat.eq_zero_or_pos m with rfl | hpos
  · simp
  have hgrid : gridExponent ((m : ℚ) * 2 ^ e) ≤ e := by
    have hlog : m.log2 < 53 := (Nat.log2_lt hpos.ne').mpr hm
    rw [gridExponent, log_of_magnitude hpos]
    omega
  have hsplit : ((e - gridExponent ((m : ℚ) * 2 ^ e)).toNat : ℤ) + gridExponent ((m : ℚ) * 2 ^ e) =
      e := by omega
  have hsteps : inSteps ((m : ℚ) * 2 ^ e) =
      ((m * 2 ^ (e - gridExponent ((m : ℚ) * 2 ^ e)).toNat : ℕ) : ℚ) := by
    rw [inSteps, div_eq_iff (two_zpow_pos _).ne', Nat.cast_mul, Nat.cast_pow, Nat.cast_ofNat,
      ← zpow_natCast, mul_assoc, ← two_zpow_add, hsplit]
  rw [nearest, hsteps, roundEven_natCast, ← hsteps, inSteps_mul]

/-! ## Values of rounded numbers -/

/-- A finite value, which becomes infinite if its exponent is too large. -/
def bounded (negative : Bool) (m : ℕ) (e : ℤ) : Value :=
  if maxExponent < e then .infinite negative else .finite negative m e

/-- The value of a number of steps.  A full grid is the first number of the next one. -/
def ofSteps (negative : Bool) (n : ℕ) (g : ℤ) : Value :=
  if n = 0 then .finite negative 0 0
  else if n = 2 ^ 53 then bounded negative (2 ^ 52) (g + 1)
  else bounded negative n g

/-- **The value of a double that was rounded to a number**, with the sign that it was given. -/
def rounded (negative : Bool) (q : ℚ) : Value :=
  ofSteps negative (roundEven (inSteps q)) (gridExponent q)

@[simp] theorem rounded_zero (negative : Bool) : rounded negative 0 = .finite negative 0 0 := by
  simp [rounded, ofSteps, roundEven]

/-- **A double is rounded to itself.** -/
theorem rounded_of_canonical (negative : Bool) (hm : 0 < m) (h : Canonical m e)
    (he : e ≤ maxExponent) : rounded negative ((m : ℚ) * 2 ^ e) = .finite negative m e := by
  have hlt := h.mantissa_lt
  rw [rounded, inSteps_of_canonical hm h, gridExponent_of_canonical hm h, roundEven_natCast,
    ofSteps, if_neg hm.ne', if_neg hlt.ne, bounded, if_neg he.not_gt]

/-- The greatest exponent is reached at `2 ^ 1024`. -/
theorem bounded_cases (negative : Bool) (h : Canonical m e) :
    ((m : ℚ) * 2 ^ e < 2 ^ (1024 : ℤ) ∧ bounded negative m e = .finite negative m e) ∨
      (2 ^ (1024 : ℤ) ≤ (m : ℚ) * 2 ^ e ∧ bounded negative m e = .infinite negative) := by
  have hstep := two_zpow_pos e
  unfold bounded
  by_cases he : maxExponent < e
  · change 971 < e at he
    have hfull : 2 ^ 52 ≤ m := h.normal_or.resolve_right (by
      rintro rfl
      exact absurd he (by decide))
    have hle : (2 : ℚ) ^ (52 : ℤ) ≤ m := by
      exact_mod_cast hfull
    refine .inr ⟨?_, if_pos he⟩
    calc (2 : ℚ) ^ (1024 : ℤ) ≤ 2 ^ (52 + e) := two_zpow_le (by omega)
      _ = 2 ^ (52 : ℤ) * 2 ^ e := two_zpow_add 52 e
      _ ≤ m * 2 ^ e := mul_le_mul_of_nonneg_right hle hstep.le
  · change ¬ 971 < e at he
    have hlt : (m : ℚ) < 2 ^ (53 : ℤ) := by
      exact_mod_cast h.mantissa_lt
    refine .inl ⟨?_, if_neg he⟩
    calc (m : ℚ) * 2 ^ e < 2 ^ (53 : ℤ) * 2 ^ e := mul_lt_mul_of_pos_right hlt hstep
      _ = 2 ^ (53 + e) := (two_zpow_add 53 e).symm
      _ ≤ 2 ^ (1024 : ℤ) := two_zpow_le (by omega)

theorem canonical_steps {q : ℚ} (hq : 0 < q) (hne : roundEven (inSteps q) ≠ 2 ^ 53) :
    Canonical (roundEven (inSteps q)) (gridExponent q) where
  mantissa_lt := lt_of_le_of_ne (roundEven_inSteps_le hq) hne
  minExponent_le := minExponent_le_gridExponent q
  normal_or := le_roundEven_inSteps_or hq

theorem canonical_carry {g : ℤ} (hg : minExponent ≤ g) : Canonical (2 ^ 52) (g + 1) where
  mantissa_lt := by norm_num
  minExponent_le := by omega
  normal_or := .inl le_rfl

theorem magnitude_carry (g : ℤ) :
    ((2 ^ 52 : ℕ) : ℚ) * 2 ^ (g + 1) = ((2 ^ 53 : ℕ) : ℚ) * 2 ^ g := by
  rw [two_zpow_add]
  push_cast
  ring

/-- **A rounded number below `2 ^ 1024` has a finite value, which stands for it, and any other has
an infinite one.** -/
theorem rounded_cases (negative : Bool) {q : ℚ} (hq : 0 ≤ q) :
    (nearest q < 2 ^ (1024 : ℤ) ∧
        ∃ m e, rounded negative q = .finite negative m e ∧ (m : ℚ) * 2 ^ e = nearest q) ∨
      (2 ^ (1024 : ℤ) ≤ nearest q ∧ rounded negative q = .infinite negative) := by
  have hlimit := two_zpow_pos 1024
  rcases hq.eq_or_lt with rfl | hpos
  · refine .inl ⟨?_, 0, 0, rounded_zero negative, ?_⟩
    · rw [nearest_zero]
      exact hlimit
    · rw [nearest_zero, Nat.cast_zero, zero_mul]
  unfold rounded ofSteps nearest
  split_ifs with hzero hfull
  · rw [hzero, Nat.cast_zero, zero_mul]
    exact .inl ⟨hlimit, 0, 0, rfl, by rw [Nat.cast_zero, zero_mul]⟩
  · rw [hfull, ← magnitude_carry]
    rcases bounded_cases negative (canonical_carry (minExponent_le_gridExponent q)) with
      ⟨hlt, heq⟩ | ⟨hle, heq⟩
    · exact .inl ⟨hlt, _, _, heq, rfl⟩
    · exact .inr ⟨hle, heq⟩
  · rcases bounded_cases negative (canonical_steps hpos hfull) with ⟨hlt, heq⟩ | ⟨hle, heq⟩
    · exact .inl ⟨hlt, _, _, heq, rfl⟩
    · exact .inr ⟨hle, heq⟩

theorem roundEven_of_lt_half {q : ℚ} (hq : q < 1 / 2) : roundEven q = 0 := by
  have hfloor : ⌊q⌋₊ = 0 := Nat.floor_eq_zero.mpr (by linarith)
  rw [roundEven, hfloor]
  exact if_pos (by push_cast; linarith)

/-- What is much smaller than the least double is rounded to zero. -/
theorem rounded_of_small (negative : Bool) {q : ℚ} (hq : 0 < q) (h : q < 2 ^ (-1076 : ℤ)) :
    rounded negative q = .finite negative 0 0 := by
  have hgrid : gridExponent q = minExponent := by
    rw [lt_zpow_iff hq] at h
    unfold gridExponent
    show max _ (-1074) = -1074
    omega
  have hsteps : inSteps q < 1 / 2 := by
    rw [inSteps, hgrid, div_lt_iff₀ (two_zpow_pos _)]
    calc q < 2 ^ (-1076 : ℤ) := h
      _ ≤ 2 ^ (-1 + -1074 : ℤ) := two_zpow_le (by norm_num)
      _ = 1 / 2 * 2 ^ (-1074 : ℤ) := by
        rw [two_zpow_add]
        norm_num
  rw [rounded, roundEven_of_lt_half hsteps]
  rfl

/-- What is not below the limit is rounded to an infinity. -/
theorem rounded_of_large (negative : Bool) {q : ℚ} (h : 2 ^ (1024 : ℤ) ≤ q) :
    rounded negative q = .infinite negative := by
  have hlimit := two_zpow_pos 1024
  have hself : nearest (2 ^ (1024 : ℤ)) = 2 ^ (1024 : ℤ) := by
    have hone := nearest_of_mantissa_lt (m := 1) (e := 1024) (by norm_num) (by decide)
    rwa [Nat.cast_one, one_mul] at hone
  have hmono := nearest_mono hlimit.le h
  rw [hself] at hmono
  rcases rounded_cases negative (hlimit.le.trans h) with ⟨hlt, -⟩ | ⟨-, heq⟩
  · exact absurd hmono hlt.not_ge
  · exact heq

end Binary64
end TransferCost
