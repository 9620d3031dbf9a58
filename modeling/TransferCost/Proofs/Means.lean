import TransferCost.Proofs.Binary64.Absorption
import TransferCost.Proofs.Binary64.Steps
import TransferCost.Proofs.Sample

/-!
# Sums and means that stay finite

A mean is finite if and only if the sum is, as long as there is something to add up.  So all depends
on whether a sum overflows on the way, and there are two reasons why it may not.

* The numbers are of moderate size.  Then the sum is absorbing before it becomes large, however many
  numbers there are: `AtMost.sum`.
* The numbers are among those of another sum that does not overflow, and none is negative.  Then no
  part of the smaller sum is greater than the same part of the other one: `sum_of_sublist`.

`AtMost b x` says of a double that it is finite and of no greater size than `b`.  Its rules go along
with the operations.

A mean of equal doubles need not be one of them, because the sum is rounded on the way.  But it is
not above a power of two that they are not above, however many there are: `toRat_mean_replicate_le`.
-/

namespace TransferCost
namespace Binary64

/-! ## Sizes -/

/-- The double is a number of at most this size. -/
def AtMost (b : ℚ) (x : Float) : Prop :=
  x.isFinite = true ∧ |toRat x| ≤ b

/-- A power of two is a double, and bounds what is rounded below it. -/
theorem abs_near_le_two_pow {q : ℚ} {k : ℕ} (h : |q| ≤ 2 ^ k) : |near q| ≤ 2 ^ k := by
  have hself : nearest (2 ^ k) = 2 ^ k := by
    have hone := nearest_of_mantissa_lt (m := 1) (e := k) (by norm_num)
      ((by decide : minExponent ≤ 0).trans (Int.natCast_nonneg k))
    rwa [Nat.cast_one, one_mul, zpow_natCast] at hone
  rw [abs_near, ← hself]
  exact nearest_mono (abs_nonneg q) h

theorem isFinite_of_near_le {z : Float} {s : Bool} {q : ℚ} {k : ℕ} (h : value z = roundedSigned s q)
    (hk : k < 1024) (hle : |near q| ≤ 2 ^ k) : z.isFinite = true := by
  rw [isFinite_iff_near_lt h]
  calc |near q| ≤ 2 ^ k := hle
    _ = 2 ^ (k : ℤ) := (zpow_natCast 2 k).symm
    _ < 2 ^ (1024 : ℤ) := two_zpow_lt_iff.mpr (by exact_mod_cast hk)

/-- A result of an operation is of no greater size than a power of two that bounds the exact one. -/
theorem atMost_of_value {z : Float} {s : Bool} {q : ℚ} {k : ℕ} (h : value z = roundedSigned s q)
    (hk : k < 1024) (hq : |q| ≤ 2 ^ k) : AtMost (2 ^ k) z := by
  have hle := abs_near_le_two_pow hq
  have hfinite := isFinite_of_near_le h hk hle
  refine ⟨hfinite, ?_⟩
  rwa [toRat_eq_near h hfinite]

/-- A result is exact where it is a whole number up to `2 ^ 53`. -/
theorem exact_of_value {z : Float} {s : Bool} {n : ℕ} (h : value z = roundedSigned s n)
    (hn : n ≤ 2 ^ 53) : z.isFinite = true ∧ toRat z = n := by
  have hbound : |(n : ℚ)| ≤ 2 ^ 53 := by
    rw [Nat.abs_cast]
    exact_mod_cast hn
  have hfinite := (atMost_of_value h (by norm_num) hbound).1
  rw [toRat_eq_near h hfinite]
  exact ⟨hfinite, near_natCast hn⟩

/-- Whole numbers up to `2 ^ 53` are doubles. -/
theorem ofNat_spec {n : ℕ} (hn : n ≤ 2 ^ 53) :
    (Float.ofNat n).isFinite = true ∧ toRat (Float.ofNat n) = n :=
  exact_of_value (value_ofNat_signed n) hn

theorem AtMost.mono {x : Float} {b c : ℚ} (hx : AtMost b x) (hbc : b ≤ c) : AtMost c x :=
  ⟨hx.1, hx.2.trans hbc⟩

theorem AtMost.add_same {x y : Float} {k : ℕ} (hk : k + 1 < 1024) (hx : AtMost (2 ^ k) x)
    (hy : AtMost (2 ^ k) y) : AtMost (2 ^ (k + 1)) (x + y) := by
  refine atMost_of_value (value_add hx.1 hy.1) hk ?_
  calc |toRat x + toRat y| ≤ |toRat x| + |toRat y| := abs_add_le _ _
    _ ≤ 2 ^ k + 2 ^ k := add_le_add hx.2 hy.2
    _ = 2 ^ (k + 1) := by rw [pow_succ, mul_two]

theorem AtMost.sub {x y : Float} {k : ℕ} (hk : k + 1 < 1024) (hx : AtMost (2 ^ k) x)
    (hy : AtMost (2 ^ k) y) : AtMost (2 ^ (k + 1)) (x - y) := by
  refine atMost_of_value (value_sub hx.1 hy.1) hk ?_
  calc |toRat x - toRat y| ≤ |toRat x| + |toRat y| := abs_sub _ _
    _ ≤ 2 ^ k + 2 ^ k := add_le_add hx.2 hy.2
    _ = 2 ^ (k + 1) := by rw [pow_succ, mul_two]

/-- Adding a number of moderate size does not lead out of the range up to `2 ^ 100`. -/
theorem AtMost.add {x y : Float} (hx : AtMost (2 ^ 100) x) (hy : AtMost (2 ^ 32) y) :
    AtMost (2 ^ 100) (x + y) := by
  have hvalue := value_add hx.1 hy.1
  have hle := abs_near_add_le hx.2 hy.2
  have hfinite := isFinite_of_near_le hvalue (by norm_num) hle
  refine ⟨hfinite, ?_⟩
  rwa [toRat_eq_near hvalue hfinite]

/-! ## Sums -/

theorem AtMost.foldl_add {xs : List Float} (h : ∀ x ∈ xs, AtMost (2 ^ 32) x) :
    ∀ {s : Float}, AtMost (2 ^ 100) s → AtMost (2 ^ 100) (xs.foldl (· + ·) s) := by
  induction xs with
  | nil => exact id
  | cons x rest ih =>
    rw [List.forall_mem_cons] at h
    intro s hs
    exact ih h.2 (hs.add h.1)

/-- **A sum of numbers of moderate size does not overflow**, however many there are. -/
theorem AtMost.sum {xs : List Float} (h : ∀ x ∈ xs, AtMost (2 ^ 32) x) :
    AtMost (2 ^ 100) (sum xs) := by
  refine AtMost.foldl_add h ⟨isFinite_negZero, ?_⟩
  rw [toRat_negZero, abs_zero]
  positivity

/-- What a finite sum started from is finite. -/
theorem isFinite_of_foldl_add {xs : List Float} :
    ∀ {s : Float}, (xs.foldl (· + ·) s).isFinite = true → s.isFinite = true := by
  induction xs with
  | nil => exact id
  | cons x rest ih =>
    intro s h
    exact (isFinite_of_add (ih h)).1

section Nonneg

variable {s t y : Float}

/-- Adding the same number to a smaller one gives no greater result. -/
theorem add_of_le (hs : s.isFinite = true) (hpos : 0 ≤ toRat s) (hst : toRat s ≤ toRat t)
    (hy : 0 ≤ toRat y) (h : (t + y).isFinite = true) :
    (s + y).isFinite = true ∧ 0 ≤ toRat (s + y) ∧ toRat (s + y) ≤ toRat (t + y) := by
  obtain ⟨ht, hy'⟩ := isFinite_of_add h
  have hvalue := value_add hs hy'
  have hsum : 0 ≤ toRat s + toRat y := add_nonneg hpos hy
  have hmono := near_mono (add_le_add_left hst (toRat y))
  rw [← toRat_eq_near (value_add ht hy') h] at hmono
  have hfinite : (s + y).isFinite = true := by
    rw [isFinite_iff_near_lt hvalue, abs_of_nonneg (near_nonneg hsum)]
    exact hmono.trans_lt ((le_abs_self _).trans_lt (abs_toRat_lt h))
  rw [toRat_eq_near hvalue hfinite]
  exact ⟨hfinite, near_nonneg hsum, hmono⟩

theorem le_add_of_nonneg (hy : 0 ≤ toRat y) (h : (t + y).isFinite = true) :
    toRat t ≤ toRat (t + y) := by
  obtain ⟨ht, hy'⟩ := isFinite_of_add h
  rw [toRat_eq_near (value_add ht hy') h]
  exact toRat_le_near ht (le_add_of_nonneg_right hy)

/-- The two sums go on side by side.  Where the smaller one leaves out a number, only the other one
grows. -/
theorem foldl_add_of_sublist {xs ys : List Float} (hsub : xs.Sublist ys) :
    (∀ y ∈ ys, 0 ≤ toRat y) → ∀ {s t : Float}, s.isFinite = true → 0 ≤ toRat s →
      toRat s ≤ toRat t → (ys.foldl (· + ·) t).isFinite = true →
        (xs.foldl (· + ·) s).isFinite = true ∧ 0 ≤ toRat (xs.foldl (· + ·) s) := by
  induction hsub with
  | slnil => exact fun _ _ _ hs hpos _ _ => ⟨hs, hpos⟩
  | cons y _ ih =>
    intro hys s t hs hpos hst h
    rw [List.forall_mem_cons] at hys
    exact ih hys.2 hs hpos (hst.trans (le_add_of_nonneg hys.1 (isFinite_of_foldl_add h))) h
  | cons_cons y _ ih =>
    intro hys s t hs hpos hst h
    rw [List.forall_mem_cons] at hys
    obtain ⟨hs', hpos', hst'⟩ := add_of_le hs hpos hst hys.1 (isFinite_of_foldl_add h)
    exact ih hys.2 hs' hpos' hst' h

/-- **Some of the numbers of a sum do not overflow either**, if none is negative. -/
theorem sum_of_sublist {xs ys : List Float} (hsub : xs.Sublist ys) (hys : ∀ y ∈ ys, 0 ≤ toRat y)
    (h : (sum ys).isFinite = true) : (sum xs).isFinite = true ∧ 0 ≤ toRat (sum xs) :=
  foldl_add_of_sublist hsub hys isFinite_negZero toRat_negZero.ge le_rfl h

end Nonneg

/-! ## Means -/

variable {xs : List Float}

/-- **A mean is finite if and only if the sum is.** -/
theorem isFinite_mean_iff (hne : xs ≠ []) :
    (mean xs).isFinite = true ↔ (sum xs).isFinite = true := by
  constructor
  · exact isFinite_of_div
  · intro h
    exact (div_ofNat h (List.length_pos_iff.mpr hne)).1

theorem AtMost.mean (hne : xs ≠ []) (h : ∀ x ∈ xs, AtMost (2 ^ 32) x) :
    AtMost (2 ^ 100) (mean xs) := by
  have hsum := AtMost.sum h
  obtain ⟨hfinite, hle, -⟩ := div_ofNat hsum.1 (List.length_pos_iff.mpr hne)
  exact ⟨hfinite, hle.trans hsum.2⟩

theorem mean_nonneg (hne : xs ≠ []) (hxs : ∀ x ∈ xs, 0 ≤ toRat x) (h : (mean xs).isFinite = true) :
    0 ≤ toRat (mean xs) := by
  have hsum := isFinite_of_div h
  have hpos := (sum_of_sublist (List.Sublist.refl xs) hxs hsum).2
  exact (div_ofNat hsum (List.length_pos_iff.mpr hne)).2.2 hpos

/-! ## Equal numbers -/

section Copies

variable {x : Float} {j : ℤ}

theorem AtMost.forall_mem_replicate {b : ℚ} (hx : AtMost b x) (n : ℕ) :
    ∀ y ∈ List.replicate n x, AtMost b y := by
  intro y hy
  rwa [List.eq_of_mem_replicate hy]

theorem sum_replicate_succ (n : ℕ) (x : Float) :
    sum (List.replicate (n + 1) x) = sum (List.replicate n x) + x := by
  rw [sum, List.replicate_succ', List.foldl_append]
  rfl

theorem two_zpow_eq_half (j : ℤ) : (2 : ℚ) ^ j = 2 ^ (j + 1) / 2 := by
  rw [zpow_add_one₀ two_ne_zero, mul_div_cancel_right₀ _ two_ne_zero]

/-- One more step leads to the next multiple, or nowhere: the `2 ^ 53`th multiple is even on the
next grid. -/
theorem near_add_step_le (hj : minExponent ≤ j) (n : ℕ) :
    near ((min n (2 ^ 53) : ℕ) * 2 ^ j + 2 ^ j) ≤ (min (n + 1) (2 ^ 53) : ℕ) * 2 ^ j := by
  rcases lt_or_ge n (2 ^ 53) with hn | hn
  · have hnext : near (((n + 1 : ℕ) : ℚ) * 2 ^ j) = (n + 1 : ℕ) * 2 ^ j := by
      refine near_of_isMultiple hj ⟨n + 1, by push_cast; rfl⟩ ?_
      rw [abs_of_nonneg (magnitude_nonneg _ j), two_zpow_add]
      exact mul_le_mul_of_nonneg_right (by exact_mod_cast hn) (two_zpow_pos j).le
    rw [min_eq_left hn.le, min_eq_left (Nat.succ_le_of_lt hn), ← hnext]
    push_cast
    rw [add_one_mul]
  · have htie := near_tie (n := 2 ^ 52) (e := j + 1) (by omega) (by norm_num) le_rfl (by norm_num)
    rw [magnitude_carry, ← two_zpow_eq_half] at htie
    rw [min_eq_right hn, min_eq_right (hn.trans n.le_succ), htie]

/-- **A sum of equal numbers** that are not above a power of two. -/
theorem toRat_sum_replicate_le (hx : AtMost (2 ^ 32) x) (hj : minExponent ≤ j)
    (hle : toRat x ≤ 2 ^ j) (n : ℕ) :
    toRat (sum (List.replicate n x)) ≤ (min n (2 ^ 53) : ℕ) * 2 ^ j := by
  have hfinite (n : ℕ) : AtMost (2 ^ 100) (sum (List.replicate n x)) :=
    AtMost.sum (hx.forall_mem_replicate n)
  induction n with
  | zero =>
    rw [List.replicate_zero, sum_nil, toRat_negZero]
    exact magnitude_nonneg _ j
  | succ n ih =>
    have hnext := (hfinite (n + 1)).1
    rw [sum_replicate_succ] at hnext ⊢
    rw [toRat_eq_near (value_add (hfinite n).1 hx.1) hnext]
    exact (near_mono (add_le_add ih hle)).trans (near_add_step_le hj n)

/-- **The mean of equal numbers is not above a power of two that they are not above.** -/
theorem toRat_mean_replicate_le (hx : AtMost (2 ^ 32) x) (hj : minExponent ≤ j)
    (hle : toRat x ≤ 2 ^ j) {n : ℕ} (hn : 0 < n) : toRat (mean (List.replicate n x)) ≤ 2 ^ j := by
  have hsum := AtMost.sum (hx.forall_mem_replicate n)
  have hmean := (div_ofNat hsum.1 hn).1
  rw [mean, List.length_replicate]
  rcases rounded_cases false (Nat.cast_nonneg n) with ⟨-, m, e, heq, -⟩ | ⟨-, heq⟩
  · have hcount := isFinite_iff.mpr ⟨_, _, _, (value_ofNat n).trans heq⟩
    obtain ⟨hleast, hleast'⟩ := ofNat_spec (min_le_right n (2 ^ 53))
    have hge : ((min n (2 ^ 53) : ℕ) : ℚ) ≤ toRat (Float.ofNat n) := by
      rw [← hleast', toRat_ofNat hleast, toRat_ofNat hcount]
      exact nearest_mono (Nat.cast_nonneg _) (by exact_mod_cast min_le_left n (2 ^ 53))
    have hpos : 0 < toRat (Float.ofNat n) := by
      rw [toRat_ofNat hcount]
      exact zero_lt_one.trans_le (one_le_nearest hn)
    have hquotient : toRat (sum (List.replicate n x)) / toRat (Float.ofNat n) ≤ 2 ^ j := by
      rw [div_le_iff₀ hpos, mul_comm]
      exact (toRat_sum_replicate_le hx hj hle n).trans
        (mul_le_mul_of_nonneg_right hge (two_zpow_pos j).le)
    rw [toRat_eq_near (value_div hsum.1 hcount hpos.ne') hmean]
    exact (near_mono hquotient).trans_eq (near_two_zpow hj)
  · rw [(div_infinite hsum.1 ((value_ofNat n).trans heq)).2]
    exact (two_zpow_pos j).le

end Copies

end Binary64
end TransferCost
