import TransferCost.Decimal.Layout
import TransferCost.Proofs.Binary64.Scientific

/-!
# What a written decimal says

Two facts about decimals are needed to read back what was written.  The digits of a whole number
spell it, and begin with a zero only if it is zero.  And the shortest decimal of a double is read as
that double.

The second one needs an argument only for the answer of last resort.  A hit of the search was tried
before it was taken.  The last resort is the double itself, written out, and a double is rounded to
itself.
-/

namespace TransferCost
namespace Decimal

open Binary64

/-! ## Digits -/

theorem digits_ne_nil (n : ℕ) : digits n ≠ [] :=
  Nat.toDigits_ne_nil

theorem isDigit_of_mem_digits {n : ℕ} {c : Char} (hc : c ∈ digits n) : c.isDigit = true :=
  Nat.isDigit_of_mem_toDigits (by norm_num) (by norm_num) hc

theorem isDigit_of_mem_zeros {n : ℕ} {c : Char} (hc : c ∈ zeros n) : c.isDigit = true := by
  rw [List.eq_of_mem_replicate hc]
  rfl

/-- The digits of a whole number spell it. -/
theorem ofDigitChars_digits (n : ℕ) : Nat.ofDigitChars 10 (digits n) 0 = n :=
  Nat.ofDigitChars_ten_toDigits

/-- Digits that are followed by zeros spell a multiple of a power of ten. -/
theorem ofDigitChars_zeros (n start : ℕ) :
    Nat.ofDigitChars 10 (zeros n) start = 10 ^ n * start :=
  Nat.ofDigitChars_replicate_zero

theorem digits_eq_append {n : ℕ} (hn : 10 ≤ n) :
    digits n = digits (n / 10) ++ [Nat.digitChar (n % 10)] :=
  Nat.toDigits_of_base_le (by norm_num) hn

theorem digitChar_ne_zero : ∀ n < 10, 0 < n → Nat.digitChar n ≠ '0' := by
  decide

/-- Only zero is written with a leading zero. -/
theorem head?_digits_ne {n : ℕ} (hn : 0 < n) : (digits n).head? ≠ some '0' := by
  induction n using Nat.strongRecOn with
  | ind n ih =>
    by_cases h : n < 10
    · have hone : digits n = [Nat.digitChar n] := Nat.toDigits_of_lt_base h
      rw [hone, List.head?_cons, ne_eq, Option.some.injEq]
      exact digitChar_ne_zero n h hn
    · rw [digits_eq_append (by omega), List.head?_append_of_ne_nil _ (digits_ne_nil _)]
      exact ih (n / 10) (by omega) (by omega)

theorem digits_zero : digits 0 = ['0'] :=
  Nat.toDigits_zero 10

/-! ## The shortest decimal -/

/-- The answer of last resort is the double, written out. -/
theorem toRat_lastResort (m : ℕ) (q : ℤ) :
    toRat ⟨m * Nat.pow 2 q.toNat * Nat.pow 5 (-q).toNat, finest q⟩ = m * 2 ^ q := by
  unfold toRat finest
  rw [Nat.pow_eq, Nat.pow_eq]
  push_cast
  rcases le_total 0 q with hq | hq
  · have hfive : (-q).toNat = 0 := by omega
    rw [min_eq_right hq, hfive, ← zpow_natCast, Int.toNat_of_nonneg hq, pow_zero, mul_one,
      zpow_zero, mul_one]
  · have htwo : q.toNat = 0 := by omega
    have hten : (10 : ℚ) ^ q = 2 ^ q * 5 ^ q := by
      rw [← mul_zpow]
      norm_num
    rw [min_eq_left hq, htwo, pow_zero, mul_one, ← zpow_natCast, Int.toNat_of_nonneg (by omega),
      hten, zpow_neg]
    have hfive : (5 : ℚ) ^ q ≠ 0 := zpow_ne_zero q (by norm_num)
    field_simp

variable {x : Float} {m : ℕ} {q : ℤ}

theorem toFloat_search (tie : Tie) (hm : 0 < m) (hx : value x = .finite false m q) (n : ℕ) :
    (search tie x m q n).toFloat = x := by
  induction n with
  | zero =>
    rcases canonical_of_value hx with ⟨hzero, -⟩ | ⟨-, hc, he⟩
    · exact absurd hzero hm.ne'
    · apply value_injective
      rw [search, value_toFloat, toRat_lastResort, rounded_of_canonical false hm hc he, hx]
  | succ n ih =>
    unfold search
    cases hhit : hit? tie x m q (finest q + (n + 1 : ℕ)) with
    | some d => exact toFloat_of_hit? hhit
    | none => exact ih

/-- **The shortest decimal of a double is read as that double.** -/
theorem toFloat_shortest (tie : Tie) (hm : 0 < m) (hx : value x = .finite false m q) :
    (shortest tie x m q).toFloat = x :=
  toFloat_search tie hm hx _

theorem coefficient_shortest_ne_zero (tie : Tie) (hm : 0 < m) (hx : value x = .finite false m q) :
    (shortest tie x m q).coefficient ≠ 0 := by
  intro hzero
  have hvalue := value_toFloat (shortest tie x m q)
  rw [toFloat_shortest tie hm hx, hx, toRat, hzero, Nat.cast_zero, zero_mul, rounded_zero] at hvalue
  exact absurd (Value.finite.inj hvalue).2.1 hm.ne'

/-! ## The decimal in front of which a sign is put -/

theorem value_signed {negative : Bool} (hx : value x = .finite negative m q) :
    value (signed negative x) = .finite false m q := by
  cases negative
  · exact hx
  · show value (-x) = _
    rw [value_neg, hx]
    rfl

/-- The decimal that a double `x` is written as, without its sign. -/
def unsigned (tie : Tie) (x : Float) (negative : Bool) (m : ℕ) (q : ℤ) : Decimal :=
  if m = 0 then ⟨0, 0⟩ else shortest tie (signed negative x) m q

/-- The decimal is read as the double without its sign. -/
theorem toFloat_unsigned (tie : Tie) {negative : Bool} (hx : value x = .finite negative m q) :
    (unsigned tie x negative m q).toFloat = signed negative x := by
  have hsigned := value_signed hx
  unfold unsigned
  split_ifs with hm
  · have hq : q = 0 := by
      rcases canonical_of_value hx with ⟨-, hq⟩ | ⟨hpos, -⟩
      · exact hq
      · exact absurd hm hpos.ne'
    apply value_injective
    rw [value_toFloat, toRat, Nat.cast_zero, zero_mul, rounded_zero, hsigned, hm, hq]
  · exact toFloat_shortest tie (Nat.pos_of_ne_zero hm) hsigned

/-- The decimal has no digits besides a zero in front of which others could stand. -/
theorem unsigned_normal (tie : Tie) {negative : Bool} (hx : value x = .finite negative m q) :
    (unsigned tie x negative m q).coefficient ≠ 0 ∨ unsigned tie x negative m q = ⟨0, 0⟩ := by
  unfold unsigned
  split_ifs with hm
  · exact .inr rfl
  · exact .inl (coefficient_shortest_ne_zero tie (Nat.pos_of_ne_zero hm) (value_signed hx))

end Decimal
end TransferCost
