import TransferCost.Figure
import TransferCost.Proofs.Binary64.Whole
import TransferCost.Proofs.Decimal

/-!
# Amounts as grouped integers

A figure for an amount is the text of a whole number, with commas between groups of three digits.

## 1.  Groups

`IsGrouped` describes such digits as they are read, from the left: one to three digits, and then any
number of commas with three digits behind each.  `grouped` decides at each digit whether a comma
follows it, and looks at the number of digits that are left.  `exists_groups` is the bridge.

## 2.  Whole doubles

A double that is a whole number is written with all of its digits, and no rounding takes place then:
the number was rounded before, away from zero.

## 3.  Amounts

`Figure.subunits_canonical` joins the parts.  The sign is that of the rounded number, and not that
of the double, so what is rounded to zero has none.
-/

namespace TransferCost

open Binary64

namespace Decimal

/-! ## 1.  Groups -/

/-- One to three digits, and behind them any number of commas with three digits each.  A zero leads
only if it is all there is. -/
def IsGrouped (cs : List Char) : Prop :=
  ∃ (head : List Char) (groups : List (List Char)),
    cs = head ++ groups.flatMap (',' :: ·) ∧
      1 ≤ head.length ∧ head.length ≤ 3 ∧ (∀ g ∈ groups, g.length = 3) ∧
      (∀ c ∈ head ++ groups.flatten, c.isDigit = true) ∧ (head.head? = some '0' → cs = ['0'])

/-- The digits fall into groups of three behind the first few of them. -/
theorem exists_groups {ds : List Char} (hne : ds ≠ []) :
    ∃ (head : List Char) (groups : List (List Char)),
      ds = head ++ groups.flatten ∧ grouped ds = head ++ groups.flatMap (',' :: ·) ∧
        head.length = (ds.length - 1) % 3 + 1 ∧ ∀ g ∈ groups, g.length = 3 := by
  induction ds with
  | nil => exact absurd rfl hne
  | cons c rest ih =>
    rcases eq_or_ne rest [] with rfl | hrest
    · exact ⟨[c], [], rfl, rfl, rfl, by simp⟩
    obtain ⟨head, groups, hdigits, hgrouped, hlength, hgroups⟩ := ih hrest
    have hpos := List.length_pos_iff.mpr hrest
    unfold grouped
    rw [List.length_cons]
    by_cases hfull : rest.length % 3 = 0
    · -- What comes next is a group of its own.
      refine ⟨[c], head :: groups, ?_, ?_, ?_, ?_⟩
      · rw [hdigits, List.flatten_cons, List.singleton_append]
      · rw [if_pos ⟨hrest, hfull⟩, hgrouped, List.flatMap_cons]
        rfl
      · rw [List.length_singleton]
        omega
      · rw [List.forall_mem_cons]
        exact ⟨by omega, hgroups⟩
    · -- There is room left in front of the first digits.
      refine ⟨c :: head, groups, ?_, ?_, ?_, hgroups⟩
      · rw [hdigits, List.cons_append]
      · rw [if_neg fun h => hfull h.2, hgrouped, List.cons_append]
      · rw [List.length_cons, hlength]
        omega

theorem comma_not_mem_digits (n : ℕ) : ',' ∉ digits n :=
  fun h => absurd (isDigit_of_mem_digits h) (by decide)

/-- **The digits of a whole number are grouped.** -/
theorem isGrouped_digits (n : ℕ) : IsGrouped (grouped (digits n)) := by
  obtain ⟨head, groups, hdigits, hgrouped, hlength, hgroups⟩ := exists_groups (digits_ne_nil n)
  have hhead : head ≠ [] := List.ne_nil_of_length_pos (by omega)
  refine ⟨head, groups, hgrouped, by omega, by omega, hgroups, ?_, ?_⟩
  · rw [← hdigits]
    exact fun c => isDigit_of_mem_digits
  · intro hzero
    rw [← List.head?_append_of_ne_nil head hhead, ← hdigits] at hzero
    rcases Nat.eq_zero_or_pos n with rfl | hn
    · rw [digits_zero]
      rfl
    · exact absurd hzero (head?_digits_ne hn)

/-! ## 2.  Whole doubles -/

theorem roundDiv_mul_self (k : ℕ) {b : ℕ} (hb : 0 < b) : roundDiv (k * b) b = k := by
  unfold roundDiv
  rw [Nat.mul_mod_left, Nat.mul_div_cancel k hb]
  exact if_pos hb

/-- A whole number needs no rounding, even if its power of two is below one. -/
theorem steps_of_whole {m k : ℕ} {q : ℤ} (h : (m : ℚ) * 2 ^ q = k) : steps 0 m q = k := by
  have hpow : (2 : ℚ) ^ q * 2 ^ (-q).toNat = 2 ^ q.toNat := by
    rw [← zpow_natCast, ← zpow_natCast, ← two_zpow_add]
    congr 1
    omega
  have hscaled : m * 2 ^ q.toNat = k * 2 ^ (-q).toNat := by
    have hcast : (m : ℚ) * 2 ^ q.toNat = k * 2 ^ (-q).toNat := by
      rw [← h, ← hpow, mul_assoc]
    exact_mod_cast hcast
  unfold steps
  rw [Nat.pow_eq, Nat.pow_eq, Nat.pow_eq, pow_zero, mul_one, hscaled]
  exact roundDiv_mul_self k (Nat.two_pow_pos _)

theorem fixedMagnitude_zero (n : ℕ) : fixedMagnitude 0 n = digits n := by
  have hone : Nat.pow 10 0 = 1 := rfl
  unfold fixedMagnitude
  dsimp only
  rw [hone, Nat.div_one, if_pos rfl, List.append_nil]

/-- **A whole double without a sign is written with its digits.** -/
theorem fixedChars_abs {x : Float} {n : ℤ} (h : IsExactly x n) :
    fixedChars .minusOnly 0 x.abs = digits n.natAbs := by
  obtain ⟨negative, m, e, hv⟩ := isFinite_iff.mp h.1
  have habs : value x.abs = .finite false m e := by
    rw [value_abs, hv]
    rfl
  have hsize : (m : ℚ) * 2 ^ e = n.natAbs := by
    have hrat := toRat_abs x
    rw [toRat_of_value habs, signedRat_false, h.2] at hrat
    rw [hrat, Nat.cast_natAbs, Int.cast_abs]
  unfold fixedChars
  rw [habs]
  dsimp only
  rw [steps_of_whole hsize, fixedMagnitude_zero]
  rfl

/-! ## 3.  Amounts -/

/-- An integer in groups of digits, with its sign if it is negative. -/
def integerChars (n : ℤ) : List Char :=
  (if n < 0 then ['-'] else []) ++ grouped (digits n.natAbs)

/-- **Without the commas, a grouped integer is the usual text of the integer.** -/
theorem ofList_filter_integerChars (n : ℤ) :
    String.ofList ((integerChars n).filter (· ≠ ',')) = n.repr := by
  have hdigits := filter_grouped (comma_not_mem_digits n.natAbs)
  rw [integerChars, List.filter_append, hdigits, Int.repr_eq_if]
  rcases lt_or_ge n 0 with hn | hn
  · have habs : n.natAbs = (-n).toNat := by omega
    rw [if_pos hn, if_neg hn.not_ge, Nat.repr_eq_ofList_toDigits, String.ofList_append, habs]
    rfl
  · have habs : n.natAbs = n.toNat := by omega
    rw [if_neg hn.not_gt, if_pos hn, Nat.repr_eq_ofList_toDigits, habs]
    rfl

theorem integerChars_injective : Function.Injective integerChars := by
  intro n k h
  rw [← Int.repr_inj, ← ofList_filter_integerChars, h, ofList_filter_integerChars]

theorem minus_not_mem_grouped (n : ℕ) : '-' ∉ grouped (digits n) := by
  have hdigits : '-' ∉ digits n := fun h => absurd (isDigit_of_mem_digits h) (by decide)
  rw [← filter_grouped (comma_not_mem_digits n), List.mem_filter] at hdigits
  exact fun h => hdigits ⟨h, by decide⟩

end Decimal

namespace Figure

open Decimal

variable {v : Float}

/-- An amount is written as the integer that it is rounded to. -/
theorem subunitChars_eq (hv : v.isFinite = true) :
    subunitChars v = integerChars (roundAway (toRat v)) := by
  have hwhole := isExactly_roundWhole hv
  have hsign : roundWhole v < 0.0 ↔ roundAway (toRat v) < 0 := by
    rw [lt_iff hwhole.1 isFinite_zero, toRat_zero, hwhole.2, Int.cast_lt_zero]
  unfold subunitChars integerChars
  dsimp only
  rw [fixedChars_abs hwhole]
  simp only [hsign]

/-- **Amounts are canonical grouped integers.**
* The text is a minus sign, if the rounded number is negative, and grouped digits.
* Without the commas it is read as the double, rounded half away from zero.
* It has a minus sign if and only if the rounded number is negative, so there is no `-0`.
* Two doubles have the same text if and only if they are rounded to the same number. -/
theorem subunits_canonical (hv : v.isFinite = true) :
    (∃ body, IsGrouped body ∧
        (subunits v).toList = (if roundAway (toRat v) < 0 then ['-'] else []) ++ body) ∧
      (String.ofList ((subunits v).toList.filter (· ≠ ','))).toInt? =
        some (roundAway (toRat v)) ∧
      ('-' ∈ (subunits v).toList ↔ roundAway (toRat v) < 0) ∧
      ∀ w : Float, w.isFinite = true →
        (subunits v = subunits w ↔ roundAway (toRat v) = roundAway (toRat w)) := by
  have hchars (w : Float) (hw : w.isFinite = true) :
      subunits w = String.ofList (integerChars (roundAway (toRat w))) := by
    rw [subunits, subunitChars_eq hw]
  rw [hchars v hv, String.toList_ofList]
  refine ⟨⟨_, isGrouped_digits _, rfl⟩, ?_, ?_, ?_⟩
  · rw [ofList_filter_integerChars, Int.toInt?_repr]
  · rw [integerChars, List.mem_append, or_iff_left (minus_not_mem_grouped _)]
    split_ifs with hn
    · exact iff_of_true List.mem_cons_self hn
    · exact iff_of_false List.not_mem_nil hn
  · intro w hw
    rw [hchars w hw]
    refine ⟨fun h => ?_, fun h => by rw [h]⟩
    exact integerChars_injective (String.ofList_injective h)

/-- Halves go away from zero, and what is rounded to zero has no sign. -/
theorem subunits_canonical_halves :
    ((-1234566.5 : Float).isFinite = true ∧ (-1234567.0 : Float).isFinite = true ∧
        (-0.4 : Float).isFinite = true) ∧
      (∃ body, IsGrouped body ∧ (subunits (-1234566.5)).toList = '-' :: body) ∧
      (String.ofList ((subunits (-1234566.5)).toList.filter (· ≠ ','))).toInt? =
        some (-1234567) ∧
      subunits (-1234566.5) = subunits (-1234567.0) ∧
      '-' ∉ (subunits (-0.4)).toList := by
  have hhalf : (-1234566.5 : Float).isFinite = true := by decide +kernel
  have hwhole : (-1234567.0 : Float).isFinite = true := by decide +kernel
  have hsmall : (-0.4 : Float).isFinite = true := by decide +kernel
  have hround : roundAway (toRat (-1234566.5)) = -1234567 := by decide +kernel
  have hround' : roundAway (toRat (-1234567.0)) = -1234567 := by decide +kernel
  have hzero : ¬ roundAway (toRat (-0.4)) < 0 := by decide +kernel
  obtain ⟨hshape, hread, -, hsame⟩ := subunits_canonical hhalf
  obtain ⟨-, -, hminus, -⟩ := subunits_canonical hsmall
  rw [hround] at hshape hread
  exact ⟨⟨hhalf, hwhole, hsmall⟩, hshape, hread,
    (hsame _ hwhole).mpr (hround.trans hround'.symm), fun h => hzero (hminus.mp h)⟩

example : subunits (-1234566.5) = "-1,234,567" := by decide +kernel

end Figure
end TransferCost
