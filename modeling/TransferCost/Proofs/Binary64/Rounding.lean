import TransferCost.Proofs.Binary64.Nearest

/-!
# The rounding of the logical model

The logical model of `Float` rounds by shifting.  It keeps a mantissa and two more bits, shifts all
of them to the right until the exponent is right, and lets the two bits decide.  This file shows
that this is `rounded`.

## What the two bits know

A mantissa with its two bits *locates* a number: the mantissa is its whole part, and the bits say
where the rest stands against zero and one half.  This is all that rounding asks for, and a shift
keeps it (`Located.shiftRightOne`): the lost bit becomes the first of the two, and the second
collects everything behind it.

## Where shifting begins

Bits can only be shifted out.  So the exponent at the start must not be above that of the grid, and
`value_pack_roundWithAccuracy` has this as its hypothesis.  `round` arranges it for sums; products
and quotients have it from their operands.
-/

namespace TransferCost
namespace Binary64

open Float.Model
open Float.Model.UnpackedFloat (Sign Accuracy ExtendedMantissa roundWithAccuracy
  shiftToExponent shiftToTargetExponent decreaseExponent accuracyOfFraction)

/-! ## Located numbers -/

/-- Where a number between zero and one stands, by two bits. -/
def Residue : Bool → Bool → ℚ → Prop
  | false, false, r => r = 0
  | false, true, r => 0 < r ∧ r < 1 / 2
  | true, false, r => r = 1 / 2
  | true, true, r => 1 / 2 < r ∧ r < 1

theorem Residue.nonneg {round sticky : Bool} {r : ℚ} (h : Residue round sticky r) : 0 ≤ r := by
  cases round <;> cases sticky <;> simp only [Residue] at h <;> linarith

theorem Residue.lt_one {round sticky : Bool} {r : ℚ} (h : Residue round sticky r) : r < 1 := by
  cases round <;> cases sticky <;> simp only [Residue] at h <;> linarith

/-- Half of a residue: the first bit is lost, and the second one remembers both. -/
theorem Residue.half {round sticky : Bool} {r : ℚ} (h : Residue round sticky r) :
    Residue false (round || sticky) (r / 2) := by
  cases round <;> cases sticky <;> simp only [Residue, Bool.or_true, Bool.or_false] at * <;>
    first | linarith | (constructor <;> linarith)

theorem Residue.half_add {sticky : Bool} {r : ℚ} (h : Residue false sticky r) :
    Residue true sticky (1 / 2 + r) := by
  cases sticky <;> simp only [Residue] at * <;> first | linarith | (constructor <;> linarith)

/-- The mantissa is the whole part of the number, and the bits locate the rest. -/
def Located (em : ExtendedMantissa) (q : ℚ) : Prop :=
  Residue em.roundBit em.stickyBit (q - em.mantissa)

namespace Located

variable {em : ExtendedMantissa} {q : ℚ}

theorem mantissa_le (h : Located em q) : (em.mantissa : ℚ) ≤ q := by
  have := Residue.nonneg h
  linarith

theorem lt_mantissa_add_one (h : Located em q) : q < em.mantissa + 1 := by
  have := Residue.lt_one h
  linarith

theorem floor_eq (h : Located em q) : ⌊q⌋₊ = em.mantissa := by
  have hle := h.mantissa_le
  have hnonneg : (0 : ℚ) ≤ q := (Nat.cast_nonneg _).trans hle
  rw [Nat.floor_eq_iff hnonneg]
  exact ⟨hle, h.lt_mantissa_add_one⟩

/-- **A shift by one bit halves the number.** -/
theorem shiftRightOne (h : Located em q) : Located em.shiftRightOne (q / 2) := by
  have hdiv : (em.mantissa : ℚ) = 2 * (em.mantissa / 2 : ℕ) + (em.mantissa % 2 : ℕ) := by
    exact_mod_cast (Nat.div_add_mod em.mantissa 2).symm
  have hhalf := Residue.half h
  rcases Nat.mod_two_eq_zero_or_one em.mantissa with hmod | hmod
  · have hrest : q / 2 - (em.mantissa / 2 : ℕ) = (q - em.mantissa) / 2 := by
      rw [hmod] at hdiv
      push_cast at hdiv ⊢
      linarith
    simp only [Located, ExtendedMantissa.shiftRightOne, hmod, hrest]
    exact hhalf
  · have hrest : q / 2 - (em.mantissa / 2 : ℕ) = 1 / 2 + (q - em.mantissa) / 2 := by
      rw [hmod] at hdiv
      push_cast at hdiv ⊢
      linarith
    simp only [Located, ExtendedMantissa.shiftRightOne, hmod, hrest]
    exact hhalf.half_add

theorem shiftRight (h : Located em q) (n : ℕ) : Located (em >>> n) (q / 2 ^ n) := by
  show Located (n.repeat ExtendedMantissa.shiftRightOne em) _
  induction n with
  | zero =>
    rw [pow_zero, div_one]
    exact h
  | succ n ih =>
    rw [pow_succ, ← div_div]
    exact ih.shiftRightOne

/-- **The two bits decide as `roundEven` does.** -/
theorem roundedMantissa_eq (h : Located em q) : em.roundedMantissa = roundEven q := by
  unfold roundEven
  rw [h.floor_eq]
  obtain ⟨m, round, sticky⟩ := em
  simp only [Located] at h
  dsimp only
  cases round <;> cases sticky <;> simp only [Residue] at h
  · rw [h, if_pos (by norm_num)]
    rfl
  · rw [if_pos h.2]
    rfl
  · rw [h, if_neg (lt_irrefl _), if_neg (lt_irrefl _)]
    rfl
  · rw [if_neg (by linarith), if_pos h.1]
    rfl

end Located

theorem located_exact (m : ℕ) : Located (.ofMantissaAndAccuracy m .exact) m := by
  simp [Located, ExtendedMantissa.ofMantissaAndAccuracy, Residue]

/-- The quotient of whole numbers is located by its remainder. -/
theorem located_fraction (a : ℕ) {b : ℕ} (hb : 0 < b) :
    Located (.ofMantissaAndAccuracy (a / b) (accuracyOfFraction (a % b) b)) (a / b) := by
  have hbq : (0 : ℚ) < b := Nat.cast_pos.mpr hb
  have hlt : ((a % b : ℕ) : ℚ) < b := Nat.cast_lt.mpr (Nat.mod_lt a hb)
  have hrest : (a : ℚ) / b - (a / b : ℕ) = (a % b : ℕ) / b := by
    rw [eq_div_iff hbq.ne', sub_mul, div_mul_cancel₀ _ hbq.ne', sub_eq_iff_eq_add]
    exact_mod_cast (Nat.mod_add_div' a b).symm
  unfold accuracyOfFraction
  split_ifs with hzero
  · simp only [Located, ExtendedMantissa.ofMantissaAndAccuracy, hrest, hzero]
    simp [Residue]
  have hpos : (0 : ℚ) < (a % b : ℕ) := Nat.cast_pos.mpr (Nat.pos_of_ne_zero hzero)
  cases hcmp : compare (2 * (a % b)) b with
  | lt =>
    have h : (2 : ℚ) * (a % b : ℕ) < b := by
      exact_mod_cast Nat.compare_eq_lt.mp hcmp
    simp only [Located, ExtendedMantissa.ofMantissaAndAccuracy, hrest, Residue]
    refine ⟨div_pos hpos hbq, ?_⟩
    rw [div_lt_div_iff₀ hbq (by norm_num)]
    linarith
  | eq =>
    have h : (2 : ℚ) * (a % b : ℕ) = b := by
      exact_mod_cast Nat.compare_eq_eq.mp hcmp
    simp only [Located, ExtendedMantissa.ofMantissaAndAccuracy, hrest, Residue]
    rw [div_eq_div_iff hbq.ne' (by norm_num)]
    linarith
  | gt =>
    have h : (b : ℚ) < 2 * (a % b : ℕ) := by
      exact_mod_cast Nat.compare_eq_gt.mp hcmp
    simp only [Located, ExtendedMantissa.ofMantissaAndAccuracy, hrest, Residue]
    refine ⟨?_, (div_lt_one hbq).mpr hlt⟩
    rw [div_lt_div_iff₀ (by norm_num) hbq]
    linarith

/-! ## The exponent -/

theorem targetExponent_eq (t : ℤ) : Format.binary64.targetExponent t = max (t - 53) minExponent :=
  rfl

/-- **The exponent at which shifting ends is that of the grid**, also where nothing is left of the
mantissa. -/
theorem targetExponent_totalExponent {m : ℕ} {e : ℤ} {q : ℚ} (hq : 0 < q)
    (hle : (m : ℚ) ≤ q / 2 ^ e) (hlt : q / 2 ^ e < m + 1) (he : e ≤ gridExponent q) :
    Format.binary64.targetExponent (totalExponent m e) = gridExponent q := by
  have hstep := two_zpow_pos e
  rw [le_div_iff₀ hstep] at hle
  rw [div_lt_iff₀ hstep] at hlt
  rw [targetExponent_eq]
  unfold totalExponent
  by_cases hm : m = 0
  · subst hm
    have hlog : q < 2 ^ e := by
      push_cast at hlt
      linarith
    rw [lt_zpow_iff hq] at hlog
    unfold gridExponent at *
    rw [Nat.log2_zero]
    omega
  · have hlower : (2 : ℚ) ^ ((m.log2 : ℤ) + e) ≤ q := by
      rw [two_zpow_add]
      exact (mul_le_mul_of_nonneg_right (two_pow_log2_le hm) hstep.le).trans hle
    have hone : (m : ℚ) + 1 ≤ 2 ^ ((m.log2 : ℤ) + 1) := by
      exact_mod_cast Nat.succ_le_of_lt (Nat.lt_log2_self (n := m))
    have hupper : q < 2 ^ ((m.log2 : ℤ) + 1 + e) := by
      rw [two_zpow_add]
      exact hlt.trans_le (mul_le_mul_of_nonneg_right hone hstep.le)
    rw [zpow_le_iff hq] at hlower
    rw [lt_zpow_iff hq] at hupper
    unfold gridExponent
    omega

theorem shiftRight_zero (em : ExtendedMantissa) : em >>> (0 : ℕ) = em :=
  rfl

/-- A shift to a greater exponent keeps the number where it is. -/
theorem located_shiftToExponent {m : ℕ} {e t : ℤ} {acc : Accuracy} {q : ℚ}
    (h : Located (.ofMantissaAndAccuracy m acc) (q / 2 ^ e)) (het : e ≤ t) :
    Located (shiftToExponent m e acc t).1 (q / 2 ^ t) ∧ (shiftToExponent m e acc t).2 = t := by
  have ht : e + ((t - e).toNat : ℤ) = t := by omega
  refine ⟨?_, ht⟩
  have hpow : q / 2 ^ t = q / 2 ^ e / 2 ^ (t - e).toNat := by
    rw [div_div, ← zpow_natCast, ← two_zpow_add, ht]
  rw [hpow]
  exact h.shiftRight _

/-- The second shift: a full mantissa loses its last bit, which is zero, and any other mantissa
stays. -/
theorem shiftToTargetExponent_carry {n : ℕ} {g : ℤ} (hn : n ≤ 2 ^ 53) (hg : minExponent ≤ g)
    (hnormal : 2 ^ 52 ≤ n ∨ g = minExponent) :
    shiftToTargetExponent .binary64 n g .exact =
      if n = 2 ^ 53 then (⟨2 ^ 52, false, false⟩, g + 1) else (⟨n, false, false⟩, g) := by
  unfold shiftToTargetExponent
  rw [targetExponent_eq]
  unfold totalExponent
  split_ifs with hfull
  · subst hfull
    change -1074 ≤ g at hg
    have ht : max (((2 ^ 53 : ℕ).log2 : ℤ) + 1 + g - 53) minExponent = g + 1 := by
      rw [Nat.log2_two_pow]
      show max _ (-1074) = _
      omega
    rw [ht]
    unfold shiftToExponent
    have hone : (g + 1 - g).toNat = 1 := by omega
    dsimp only
    rw [hone]
    rfl
  · have ht : max ((n.log2 : ℤ) + 1 + g - 53) minExponent = g := by
      have hupper : n.log2 < 53 := by
        by_cases hz : n = 0
        · rw [hz, Nat.log2_zero]
          omega
        · exact (Nat.log2_lt hz).mpr (by omega)
      rcases hnormal with hlow | rfl
      · have hlower : 52 ≤ n.log2 := (Nat.le_log2 (by omega)).mpr hlow
        omega
      · omega
    rw [ht]
    unfold shiftToExponent
    have hzero : (g - g).toNat = 0 := by omega
    dsimp only
    rw [hzero, shiftRight_zero]
    simp [ExtendedMantissa.ofMantissaAndAccuracy]

/-! ## Rounded results -/

/-- The unpacked number of some steps of a grid. -/
def unpackedSteps (s : Sign) (n : ℕ) (g : ℤ) : UnpackedFloat :=
  if h : n = 0 then .zero s
  else if n = 2 ^ 53 then .finite s (2 ^ 52) (g + 1) (by decide)
  else .finite s n g (Nat.pos_of_ne_zero h)

/-- The result after both shifts. -/
theorem roundWithAccuracy_of_shifts {s : Sign} {m n : ℕ} {e g : ℤ} {acc : Accuracy}
    {em : ExtendedMantissa} (hfirst : shiftToTargetExponent .binary64 m e acc = (em, g))
    (hround : em.roundedMantissa = n)
    (hcarry : shiftToTargetExponent .binary64 n g .exact =
      if n = 2 ^ 53 then (⟨2 ^ 52, false, false⟩, g + 1) else (⟨n, false, false⟩, g)) :
    roundWithAccuracy .binary64 s m e acc = unpackedSteps s n g := by
  unfold roundWithAccuracy unpackedSteps
  rw [hfirst]
  dsimp only
  rw [hround, hcarry]
  by_cases hzero : n = 0
  · subst hzero
    rfl
  · by_cases hfull : n = 2 ^ 53
    · subst hfull
      rfl
    · simp only [if_neg hfull, dif_neg hzero]

/-- **The logical model rounds to the grid.** -/
theorem roundWithAccuracy_eq {s : Sign} {m : ℕ} {e : ℤ} {acc : Accuracy} {q : ℚ} (hq : 0 < q)
    (h : Located (.ofMantissaAndAccuracy m acc) (q / 2 ^ e)) (he : e ≤ gridExponent q) :
    roundWithAccuracy .binary64 s m e acc =
      unpackedSteps s (roundEven (inSteps q)) (gridExponent q) := by
  have hm : (ExtendedMantissa.ofMantissaAndAccuracy m acc).mantissa = m := by
    cases acc with
    | exact => rfl
    | inexact o => cases o <;> rfl
  have hle := h.mantissa_le
  have hlt := h.lt_mantissa_add_one
  rw [hm] at hle hlt
  obtain ⟨hloc, hexp⟩ := located_shiftToExponent h he
  refine roundWithAccuracy_of_shifts ?_ hloc.roundedMantissa_eq
    (shiftToTargetExponent_carry (roundEven_inSteps_le hq) (minExponent_le_gridExponent q)
      (le_roundEven_inSteps_or hq))
  unfold shiftToTargetExponent
  rw [targetExponent_totalExponent hq hle hlt he]
  exact Prod.ext rfl hexp

theorem valueOf_pack_finite (s : Sign) {m : ℕ} {e : ℤ} (hm : 0 < m) (h : Canonical m e) :
    valueOf (Float.Model.pack (.finite s m e hm)).unpack = bounded (isNegativeSign s) m e := by
  rw [unpack_pack_finite s hm h, bounded]
  split_ifs <;> rfl

/-- **What the logical model rounds to `q` has the value `rounded q`.** -/
theorem valueOf_pack_roundWithAccuracy {s : Sign} {m : ℕ} {e : ℤ} {acc : Accuracy} {q : ℚ}
    (hq : 0 < q) (h : Located (.ofMantissaAndAccuracy m acc) (q / 2 ^ e))
    (he : e ≤ gridExponent q) :
    valueOf (Float.Model.pack (roundWithAccuracy .binary64 s m e acc)).unpack =
      rounded (isNegativeSign s) q := by
  rw [roundWithAccuracy_eq hq h he, rounded]
  unfold unpackedSteps ofSteps
  split_ifs with hzero hfull
  · rw [unpack_pack_zero]
    rfl
  · exact valueOf_pack_finite s _ (canonical_carry (minExponent_le_gridExponent q))
  · exact valueOf_pack_finite s _ (canonical_steps hq hfull)

/-! ## Rounding from any exponent -/

/-- A decreased exponent changes the mantissa and not the number. -/
theorem decreaseExponent_spec (m : ℕ) (e t : ℤ) :
    ((decreaseExponent m e t).1 : ℚ) * 2 ^ (decreaseExponent m e t).2 = m * 2 ^ e ∧
      (decreaseExponent m e t).2 = min e t := by
  have hexp : e - ((e - t).toNat : ℤ) = min e t := by omega
  refine ⟨?_, hexp⟩
  have hsplit : ((e - t).toNat : ℤ) + (e - ((e - t).toNat : ℤ)) = e := by omega
  show ((m <<< (e - t).toNat : ℕ) : ℚ) * 2 ^ (e - ((e - t).toNat : ℤ)) = m * 2 ^ e
  rw [Nat.shiftLeft_eq, Nat.cast_mul, Nat.cast_pow, Nat.cast_ofNat, ← zpow_natCast, mul_assoc,
    ← two_zpow_add, hsplit]

theorem located_of_eq {m : ℕ} {e : ℤ} {q : ℚ} (h : (m : ℚ) * 2 ^ e = q) :
    Located (.ofMantissaAndAccuracy m .exact) (q / 2 ^ e) := by
  rw [← h, mul_div_cancel_right₀ _ (two_zpow_pos e).ne']
  exact located_exact m

/-- **Any mantissa and exponent are rounded to the number that they stand for.** -/
theorem valueOf_pack_round (s : Sign) {m : ℕ} (hm : 0 < m) (e : ℤ) :
    valueOf (Float.Model.pack (UnpackedFloat.round .binary64 s m e)).unpack =
      rounded (isNegativeSign s) ((m : ℚ) * 2 ^ e) := by
  have htarget : Format.binary64.targetExponent (totalExponent m e) =
      gridExponent ((m : ℚ) * 2 ^ e) := by
    rw [gridExponent, log_of_magnitude hm, targetExponent_eq]
    unfold totalExponent
    omega
  obtain ⟨hvalue, hexp⟩ := decreaseExponent_spec m e (gridExponent ((m : ℚ) * 2 ^ e))
  unfold UnpackedFloat.round
  rw [htarget]
  exact valueOf_pack_roundWithAccuracy (magnitude_pos hm e) (located_of_eq hvalue)
    (hexp.trans_le (min_le_right _ _))

end Binary64
end TransferCost
