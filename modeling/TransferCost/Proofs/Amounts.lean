import TransferCost.Proofs.Binary64.Whole
import TransferCost.Proofs.Grid

/-!
# The amounts of a range are in order

The amounts of a range are computed from its first one by adding multiples of a step, and the last
one is put in place of what would have been computed.  So two things have to be shown: that the
multiples of the step ascend although they are rounded, and that none of them goes beyond the last
amount.

## 1.  Tiny errors

Operations are off by a part of the result, or by a part of the least double.  The errors of the
second kind add up to `tiny` at most.  They are lost where they are added to a number that is not
small (`near_le_of_le_add_tiny`), and elsewhere they are lost when amounts are rounded to whole
subunits.

## 2.  Spaced numbers

`spaced s t n i` is the `i`th of `n` steps from `s` to `t`, with every rounding on the way.  Before
the last step the distance that is left is a part of `2 ^ -32` of the whole one, or more.  The
errors of the first kind are three parts of `2 ^ -53`, so they do not bridge it: `near_steps_le`.

Beyond the last number there is only what is tiny.  Where both ends are subnormal, steps may be
rounded up so far that the number before the last one is above it.

## 3.  Amounts

`SizeRange.amounts_ordered` joins the parts.
-/

namespace TransferCost

namespace Binary64

/-! ## 1.  Tiny errors -/

/-- A bound of all errors that come from the least double. -/
def tiny : ℚ :=
  2 ^ 34 * (1 / 2 ^ 1075)

theorem tiny_nonneg : 0 ≤ tiny := by
  unfold tiny
  positivity

theorem tiny_le : tiny ≤ 1 / 2 ^ 66 := by
  have hleast : (1 : ℚ) / 2 ^ 1075 ≤ 1 / 2 ^ 100 :=
    one_div_le_one_div_of_le (by norm_num) (pow_le_pow_right₀ (by norm_num) (by norm_num))
  calc tiny ≤ 2 ^ 34 * (1 / 2 ^ 100) := mul_le_mul_of_nonneg_left hleast (by norm_num)
    _ = 1 / 2 ^ 66 := by norm_num

theorem near_quarter : near (1 / 4) = 1 / 4 := by
  have h := near_two_zpow (e := -2) (by decide)
  norm_num at h ⊢
  exact h

/-- **What is tiny is lost**, unless it is added to a number below one quarter. -/
theorem near_le_of_le_add_tiny {x : Float} {q : ℚ} (hx : x.isFinite = true)
    (hq : q ≤ toRat x + tiny) : near q ≤ max (toRat x) (1 / 4) := by
  have hpos := tiny_nonneg
  have htiny := tiny_le
  rcases le_or_gt (toRat x) (1 / 8) with hsmall | hlarge
  · have hmono := near_mono (by linarith : q ≤ 1 / 4)
    rw [near_quarter] at hmono
    exact hmono.trans (le_max_right _ _)
  · obtain ⟨m, e, hc, hm⟩ := exists_canonical hx (by linarith)
    rw [hm] at hlarge hq ⊢
    have he : -56 < e := by
      refine lt_exponent_of_le hc.mantissa_lt ?_
      norm_num at hlarge ⊢
      exact hlarge.le
    have hmin : minExponent < e := (by decide : minExponent < -56).trans he
    have hfull := hc.normal_or.resolve_right hmin.ne'
    have hstep : (2 : ℚ) ^ (-55 : ℤ) ≤ 2 ^ e := two_zpow_le (by omega)
    norm_num at hstep htiny
    have habsorb := nearest_absorb hfull hc.mantissa_lt hmin (d := tiny)
      (by rw [abs_of_nonneg hpos]; linarith)
    rw [← near_of_nonneg (by linarith)] at habsorb
    exact ((near_mono hq).trans_eq habsorb).trans (le_max_left _ _)

/-! ## 2.  Spaced numbers -/

/-- A rounded number is not far above the number. -/
theorem near_le {q : ℚ} (hq : 0 ≤ q) : near q ≤ q + q / 2 ^ 53 + 1 / 2 ^ 1075 := by
  have herror := (abs_le.mp (abs_near_sub_le q)).2
  rw [abs_of_nonneg hq] at herror
  rw [add_assoc]
  exact sub_le_iff_le_add'.mp herror

section Spaced

variable {s t : ℚ} {i j n : ℕ}

/-- Steps that are not all of them stay away from the end, or are tiny. -/
theorem mul_near_div_le {d : ℚ} (hd : 0 ≤ d) (hi : i < n) (hn : n ≤ 2 ^ 32) :
    i * near (d / n) ≤ d - d / 2 ^ 33 + 2 ^ 32 * (1 / 2 ^ 1075) := by
  have hpos : (0 : ℚ) < n := by
    exact_mod_cast (Nat.zero_le i).trans_lt hi
  have hi' : (i : ℚ) ≤ n - 1 := by
    rw [le_sub_iff_add_le]
    exact_mod_cast hi
  have hn' : (n : ℚ) ≤ 2 ^ 32 := by
    exact_mod_cast hn
  have hstep := near_le (div_nonneg hd hpos.le)
  have hall : (n : ℚ) * (d / n) = d := mul_div_cancel₀ d hpos.ne'
  have hleft : d / 2 ^ 32 ≤ d / n := div_le_div_of_nonneg_left hd hpos hn'
  have hnonneg := near_nonneg (div_nonneg hd hpos.le)
  have hleast : (0 : ℚ) ≤ 1 / 2 ^ 1075 := by positivity
  generalize (1 : ℚ) / 2 ^ 1075 = least at hstep hleast ⊢
  generalize near (d / n) = step at hstep hnonneg ⊢
  generalize d / n = w at hstep hall hleft
  calc (i : ℚ) * step ≤ (n - 1) * step := mul_le_mul_of_nonneg_right hi' hnonneg
    _ ≤ (n - 1) * (w + w / 2 ^ 53 + least) :=
        mul_le_mul_of_nonneg_left hstep ((Nat.cast_nonneg i).trans hi')
    _ = (d - w) * (1 + 1 / 2 ^ 53) + (n - 1) * least := by
        rw [← hall]
        ring
    _ ≤ (d - d / 2 ^ 32) * (1 + 1 / 2 ^ 53) + 2 ^ 32 * least :=
        add_le_add (mul_le_mul_of_nonneg_right (by linarith) (by norm_num))
          (mul_le_mul_of_nonneg_right (by linarith) hleast)
    _ ≤ d - d / 2 ^ 33 + 2 ^ 32 * least := by linarith

/-- **Steps that are not all of them do not lead beyond the end**, up to what is tiny. -/
theorem near_steps_le {q : ℚ} (hq : 0 ≤ q) (hi : i < n) (hn : n ≤ 2 ^ 32) :
    near (i * near (near q / n)) ≤ q + tiny := by
  have hdistance := near_le hq
  have hd := near_nonneg hq
  have hsteps := mul_near_div_le hd hi hn
  have hpos : (0 : ℚ) ≤ i * near (near q / n) :=
    mul_nonneg (Nat.cast_nonneg i) (near_nonneg (div_nonneg hd (Nat.cast_nonneg n)))
  have hproduct := near_le hpos
  have hleast : (0 : ℚ) ≤ 1 / 2 ^ 1075 := by positivity
  unfold tiny
  generalize (1 : ℚ) / 2 ^ 1075 = least at *
  generalize (i : ℚ) * near (near q / n) = p at *
  linarith

/-- The `i`th of `n` steps from `s` to `t`, as it is computed. -/
def spaced (s t : ℚ) (n i : ℕ) : ℚ :=
  near (s + near (i * near (near (t - s) / n)))

/-- **Spaced numbers ascend.** -/
theorem spaced_mono (hst : s ≤ t) (hij : i ≤ j) : spaced s t n i ≤ spaced s t n j := by
  have hstep : 0 ≤ near (near (t - s) / n) :=
    near_nonneg (div_nonneg (near_nonneg (sub_nonneg.mpr hst)) (Nat.cast_nonneg n))
  have hij' : (i : ℚ) ≤ j := by
    exact_mod_cast hij
  exact near_mono (add_le_add_right (near_mono (mul_le_mul_of_nonneg_right hij' hstep)) s)

/-- They begin where they should. -/
theorem spaced_zero (s t : ℚ) (n : ℕ) : spaced s t n 0 = near s := by
  rw [spaced, Nat.cast_zero, zero_mul, near_of_nonneg le_rfl, nearest_zero, add_zero]

end Spaced

/-! ### Doubles -/

section Doubles

variable {x z : Float} {sign : Bool} {q : ℚ}

/-- A result that is not far above a double is finite. -/
theorem isFinite_of_le_add_tiny (h : value z = roundedSigned sign q) (hq : 0 ≤ q)
    (hx : x.isFinite = true) (hle : q ≤ toRat x + tiny) : z.isFinite = true := by
  have hquarter : (1 / 4 : ℚ) < 2 ^ (1024 : ℤ) :=
    calc (1 / 4 : ℚ) < 2 ^ (0 : ℤ) := by norm_num
      _ ≤ 2 ^ (1024 : ℤ) := two_zpow_le (by norm_num)
  rw [isFinite_iff_near_lt h, abs_of_nonneg (near_nonneg hq)]
  exact (near_le_of_le_add_tiny hx hle).trans_lt
    (max_lt ((le_abs_self _).trans_lt (abs_toRat_lt hx)) hquarter)

end Doubles

end Binary64

open Binary64

/-! ## 3.  Amounts -/

/-- Finite doubles that bound a range of positive numbers. -/
structure IsRange (first last : Float) : Prop where
  first_isFinite : first.isFinite = true
  last_isFinite : last.isFinite = true
  first_pos : 0 < toRat first
  first_le_last : toRat first ≤ toRat last

/-- A number of the range, as it is computed. -/
def point (first last : Float) (n i : ℕ) : Float :=
  first + Float.ofNat i * ((last - first) / Float.ofNat n)

theorem evenlySpaced_add_two (first last : Float) (n : ℕ) :
    evenlySpaced first last (n + 2) =
      (List.range (n + 1)).map (point first last (n + 1)) ++ [last] :=
  rfl

/-- From two numbers on, the last one is the end of the range. -/
theorem getLast?_evenlySpaced (first last : Float) {n : ℕ} (hn : 2 ≤ n) :
    (evenlySpaced first last n).getLast? = some last := by
  rcases n with _ | _ | n
  · exact absurd hn (by omega)
  · exact absurd hn (by omega)
  · rw [evenlySpaced_add_two, List.getLast?_concat]

namespace IsRange

variable {first last : Float} {i j n : ℕ}

/-- The width of a range is finite, because the range does not reach below zero. -/
theorem isExactly_width (h : IsRange first last) :
    IsExactly (last - first) (near (toRat last - toRat first)) := by
  have hvalue := value_sub h.last_isFinite h.first_isFinite
  have hle : |toRat last - toRat first| ≤ |toRat last| := by
    have hpos := h.first_pos
    have hwidth := h.first_le_last
    rw [abs_of_nonneg (by linarith), abs_of_nonneg (by linarith)]
    linarith
  have hfinite := isFinite_of_abs_le hvalue h.last_isFinite hle
  exact ⟨hfinite, toRat_eq_near hvalue hfinite⟩

theorem isExactly_step (h : IsRange first last) (hn : 0 < n) (hn' : n ≤ 2 ^ 53) :
    IsExactly ((last - first) / Float.ofNat n) (near (near (toRat last - toRat first) / n)) := by
  obtain ⟨hwidth, hwidth'⟩ := h.isExactly_width
  obtain ⟨hcount, hcount'⟩ := isExactly_ofNat hn'
  have hfinite := (div_ofNat hwidth hn).1
  have hne : toRat (Float.ofNat n) ≠ 0 := by
    rw [hcount']
    exact Nat.cast_ne_zero.mpr hn.ne'
  refine ⟨hfinite, ?_⟩
  rw [toRat_eq_near (value_div hwidth hcount hne) hfinite, hwidth', hcount']

/-- A multiple of the step is finite, because it is not far above the width. -/
theorem isExactly_multiple (h : IsRange first last) (hi : i < n) (hn : n ≤ 2 ^ 32) :
    IsExactly (Float.ofNat i * ((last - first) / Float.ofNat n))
      (near (i * near (near (toRat last - toRat first) / n))) := by
  have hwidth := near_nonneg (sub_nonneg.mpr h.first_le_last)
  have hsmall : (2 : ℕ) ^ 32 ≤ 2 ^ 53 := by norm_num
  obtain ⟨hstep, hstep'⟩ := h.isExactly_step (by omega : 0 < n) (hn.trans hsmall)
  obtain ⟨hcount, hcount'⟩ := isExactly_ofNat (hi.le.trans (hn.trans hsmall))
  have hvalue := value_mul hcount hstep
  rw [hcount', hstep'] at hvalue
  have hnonneg : 0 ≤ i * near (near (toRat last - toRat first) / n) :=
    mul_nonneg (Nat.cast_nonneg i) (near_nonneg (div_nonneg hwidth (Nat.cast_nonneg n)))
  have htiny : 2 ^ 32 * (1 / 2 ^ 1075) ≤ tiny :=
    mul_le_mul_of_nonneg_right (by norm_num) (by positivity)
  have hle : i * near (near (toRat last - toRat first) / n) ≤ toRat (last - first) + tiny := by
    rw [h.isExactly_width.2]
    exact (mul_near_div_le hwidth hi hn).trans
      (add_le_add (sub_le_self _ (div_nonneg hwidth (by norm_num))) htiny)
  have hfinite := isFinite_of_le_add_tiny hvalue hnonneg h.isExactly_width.1 hle
  exact ⟨hfinite, toRat_eq_near hvalue hfinite⟩

/-- **A number of the range is computed without an overflow**, and is the spaced number. -/
theorem isExactly_point (h : IsRange first last) (hi : i < n) (hn : n ≤ 2 ^ 32) :
    IsExactly (point first last n i) (spaced (toRat first) (toRat last) n i) := by
  obtain ⟨hmultiple, hmultiple'⟩ := h.isExactly_multiple hi hn
  have hwidth := near_nonneg (sub_nonneg.mpr h.first_le_last)
  have hsteps := near_steps_le (sub_nonneg.mpr h.first_le_last) hi hn
  have hvalue := value_add h.first_isFinite hmultiple
  rw [hmultiple'] at hvalue
  have hnonneg : 0 ≤ near (i * near (near (toRat last - toRat first) / n)) :=
    near_nonneg (mul_nonneg (Nat.cast_nonneg i)
      (near_nonneg (div_nonneg hwidth (Nat.cast_nonneg n))))
  have hfinite := isFinite_of_le_add_tiny hvalue (add_nonneg h.first_pos.le hnonneg)
    h.last_isFinite (by linarith)
  exact ⟨hfinite, toRat_eq_near hvalue hfinite⟩

/-- **No computed number is above the last one**, unless both are small. -/
theorem toRat_point_le (h : IsRange first last) (hi : i < n) (hn : n ≤ 2 ^ 32) :
    toRat (point first last n i) ≤ max (toRat last) (1 / 4) := by
  rw [(h.isExactly_point hi hn).2]
  refine near_le_of_le_add_tiny h.last_isFinite ?_
  have hle := near_steps_le (sub_nonneg.mpr h.first_le_last) hi hn
  linarith

/-- Of the least doubles, the fourth of five steps from the first to the fourth leads to the
fifth. -/
example : (2e-323 : Float) < point 5e-324 2e-323 5 4 := by decide +kernel

/-- The computed numbers ascend. -/
theorem toRat_point_mono (h : IsRange first last) (hij : i ≤ j) (hj : j < n) (hn : n ≤ 2 ^ 32) :
    toRat (point first last n i) ≤ toRat (point first last n j) := by
  rw [(h.isExactly_point (hij.trans_lt hj) hn).2, (h.isExactly_point hj hn).2]
  exact spaced_mono h.first_le_last hij

theorem toRat_point_zero (h : IsRange first last) (hn : 0 < n) (hn' : n ≤ 2 ^ 32) :
    toRat (point first last n 0) = toRat first := by
  rw [(h.isExactly_point hn hn').2, spaced_zero, near_toRat h.first_isFinite]

/-- The range begins with its first number. -/
theorem exists_head (h : IsRange first last) (hpos : 1 ≤ n) (hn : n ≤ 2 ^ 32) :
    ∃ x, (evenlySpaced first last n).head? = some x ∧ IsExactly x (toRat first) := by
  rcases n with _ | _ | n
  · exact absurd hpos (by omega)
  · exact ⟨first, rfl, isExactly_toRat h.first_isFinite⟩
  · have hn' : n + 1 ≤ 2 ^ 32 := by omega
    refine ⟨point first last (n + 1) 0, ?_, (h.isExactly_point n.succ_pos hn').1,
      h.toRat_point_zero n.succ_pos hn'⟩
    rw [evenlySpaced_add_two, List.range_succ_eq_map]
    rfl

/-- All numbers of the range are finite. -/
theorem isFinite_of_mem (h : IsRange first last) (hn : n ≤ 2 ^ 32) {x : Float}
    (hx : x ∈ evenlySpaced first last n) : x.isFinite = true := by
  rcases n with _ | _ | n
  · exact absurd hx List.not_mem_nil
  · rw [evenlySpaced, List.mem_singleton] at hx
    exact hx ▸ h.first_isFinite
  · rw [evenlySpaced_add_two, List.mem_append, List.mem_map, List.mem_singleton] at hx
    rcases hx with ⟨i, hi, rfl⟩ | rfl
    · exact (h.isExactly_point (List.mem_range.mp hi) (by omega)).1
    · exact h.last_isFinite

/-- **Rounded to whole numbers, the range is in order.** -/
theorem pairwise_roundWhole (h : IsRange first last) (hn : n ≤ 2 ^ 32) :
    (evenlySpaced first last n).Pairwise fun x y => roundWhole x ≤ roundWhole y := by
  rcases n with _ | _ | n
  · exact List.Pairwise.nil
  · exact List.pairwise_singleton _ _
  have hn' : n + 1 ≤ 2 ^ 32 := by omega
  rw [evenlySpaced_add_two, List.pairwise_append, List.pairwise_map]
  refine ⟨List.pairwise_lt_range.imp_of_mem ?_, List.pairwise_singleton _ _, ?_⟩
  · intro i j hi hj hij
    rw [List.mem_range] at hi hj
    exact roundWhole_le (h.isExactly_point hi hn').1 (h.isExactly_point hj hn').1
      (roundAway_mono (h.toRat_point_mono hij.le hj hn'))
  · intro x hx y hy
    obtain ⟨i, hi, rfl⟩ := List.mem_map.mp hx
    rw [List.mem_range] at hi
    rw [List.mem_singleton.mp hy]
    refine roundWhole_le (h.isExactly_point hi hn').1 h.last_isFinite ?_
    have hmono := roundAway_mono (h.toRat_point_le hi hn')
    rcases max_choice (toRat last) (1 / 4) with hmax | hmax
    · rwa [hmax] at hmono
    · -- A number up to one quarter is rounded to zero.
      have hquarter : roundAway (1 / 4) = 0 := by decide +kernel
      rw [hmax, hquarter] at hmono
      exact hmono.trans (roundAway_nonneg (h.first_pos.le.trans h.first_le_last))

end IsRange

theorem SizeRange.isRange {r : SizeRange} (hpos : 0.0 < r.smallest) (hle : r.smallest ≤ r.largest)
    (hlast : r.largest.isFinite = true) : IsRange r.smallest r.largest := by
  have hfirst := isFinite_of_le_of_le isFinite_zero hlast (le_of_float_lt hpos) hle
  exact ⟨hfirst, hlast, (zero_lt_iff hfirst).mp hpos, (le_iff hfirst hlast).mp hle⟩

/-- **The amounts of a range are in order, and hit its ends.**  There is one amount for each step.
All are whole numbers, and none is below the one before it.  The first and the last one are the ends
of the range, rounded half away from zero. -/
theorem SizeRange.amounts_ordered {r : SizeRange} (hpos : 0.0 < r.smallest)
    (hle : r.smallest ≤ r.largest) (hlast : r.largest.isFinite = true) (hsteps : r.steps ≤ 2 ^ 32) :
    r.amounts.length = r.steps ∧
      (∀ a ∈ r.amounts, ∃ n : ℤ, IsExactly a n) ∧
      (1 ≤ r.steps →
        ∃ a, r.amounts.head? = some a ∧ IsExactly a (roundAway (toRat r.smallest))) ∧
      (2 ≤ r.steps →
        ∃ a, r.amounts.getLast? = some a ∧ IsExactly a (roundAway (toRat r.largest))) ∧
      r.amounts.Pairwise (· ≤ ·) := by
  have h := isRange hpos hle hlast
  refine ⟨r.length_amounts, ?_, ?_, ?_, ?_⟩
  · intro a ha
    obtain ⟨x, hx, rfl⟩ := List.mem_map.mp ha
    exact ⟨_, isExactly_roundWhole (h.isFinite_of_mem hsteps hx)⟩
  · intro hone
    obtain ⟨x, hhead, hx, hx'⟩ := h.exists_head hone hsteps
    have hround := isExactly_roundWhole hx
    rw [hx'] at hround
    refine ⟨roundWhole x, ?_, hround⟩
    rw [amounts, List.head?_map, hhead, Option.map_some]
  · intro htwo
    refine ⟨roundWhole r.largest, ?_, isExactly_roundWhole hlast⟩
    rw [amounts, List.getLast?_map, getLast?_evenlySpaced _ _ htwo, Option.map_some]
  · rw [amounts, List.pairwise_map]
    exact h.pairwise_roundWhole hsteps

/-- Four steps from one half to three halves. -/
def SizeRange.narrow : SizeRange :=
  { SizeRange.standard with smallest := 0.5, largest := 1.5, steps := 4 }

/-- Both halves are rounded up, and the amounts are 1, 1, 1 and 2. -/
theorem SizeRange.amounts_ordered_narrow :
    (0.0 < narrow.smallest ∧ narrow.smallest ≤ narrow.largest ∧
        narrow.largest.isFinite = true ∧ narrow.steps ≤ 2 ^ 32) ∧
      narrow.amounts.length = 4 ∧
      (∀ a ∈ narrow.amounts, ∃ n : ℤ, IsExactly a n) ∧
      (∃ a, narrow.amounts.head? = some a ∧ IsExactly a 1) ∧
      (∃ a, narrow.amounts.getLast? = some a ∧ IsExactly a 2) ∧
      narrow.amounts.Pairwise (· ≤ ·) := by
  have hpos : 0.0 < narrow.smallest := by decide +kernel
  have hle : narrow.smallest ≤ narrow.largest := by decide +kernel
  have hlast : narrow.largest.isFinite = true := by decide +kernel
  have hsteps : narrow.steps ≤ 2 ^ 32 := by decide
  have hone : (roundAway (toRat narrow.smallest) : ℚ) = 1 := by decide +kernel
  have htwo : (roundAway (toRat narrow.largest) : ℚ) = 2 := by decide +kernel
  obtain ⟨hlength, hwhole, hfirst, hend, hordered⟩ := amounts_ordered hpos hle hlast hsteps
  rw [hone] at hfirst
  rw [htwo] at hend
  exact ⟨⟨hpos, hle, hlast, hsteps⟩, hlength, hwhole, hfirst (by decide), hend (by decide),
    hordered⟩

end TransferCost
