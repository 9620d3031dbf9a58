import Mathlib
import TransferCost.Binary64

/-!
# Bits and meanings of doubles

A `Float` is sixty-four bits, and `Binary64.value` says what they mean.  This file shows that
nothing is lost on the way: a meaning in *canonical* form is packed into bits that mean it again,
and the bits of a double are those of its meaning.  So two doubles with the same value are equal,
which is how every later equation between doubles is proved.

## Canonical numbers

A finite number is canonical if its mantissa has at most 53 bits and its exponent is at least
`-1074`, and if one of the two is at its limit: the mantissa has all of its 53 bits, or the exponent
is `-1074`.  Every number has one canonical form, and it is the only one that packing understands.
-/

namespace TransferCost
namespace Binary64

open Float.Model
open Float.Model.UnpackedFloat (Sign packComponents unpackMantissa unpackExponent unpackSign)

/-- The least exponent of a double. -/
abbrev minExponent : Int := -1074

/-- The greatest exponent of a double. -/
abbrev maxExponent : Int := 971

/-- The mantissa and exponent of a double, where the exponent may be too large. -/
structure Canonical (m : Nat) (e : Int) : Prop where
  mantissa_lt : m < 2 ^ 53
  minExponent_le : minExponent ≤ e
  normal_or : 2 ^ 52 ≤ m ∨ e = minExponent

/-! ## Components -/

theorem toNat_one_append (b : BitVec 52) : (1#1 ++ b).toNat = 2 ^ 52 + b.toNat := by
  rw [BitVec.toNat_append, ← Nat.shiftLeft_add_eq_or_of_lt b.isLt]
  simp [Nat.shiftLeft_eq]

theorem toNat_packComponents (s : Sign) (e : BitVec 11) (m : BitVec 52) :
    (packComponents Format.binary64 s e m).toNat =
      s.toBitVec.toNat * 2 ^ 63 + e.toNat * 2 ^ 52 + m.toNat := by
  have hmid : (s.toBitVec ++ e).toNat = s.toBitVec.toNat * 2 ^ 11 + e.toNat := by
    rw [BitVec.toNat_append, ← Nat.shiftLeft_add_eq_or_of_lt e.isLt, Nat.shiftLeft_eq]
  show (s.toBitVec ++ e ++ m).toNat = _
  rw [BitVec.toNat_append, ← Nat.shiftLeft_add_eq_or_of_lt m.isLt, Nat.shiftLeft_eq, hmid]
  ring

variable (b : BitVec Format.binary64.numBits)

theorem toNat_unpackMantissa : (unpackMantissa b).toNat = b.toNat % 2 ^ 52 := by
  simp [unpackMantissa, BitVec.extractLsb_toNat]

theorem toNat_unpackExponent : (unpackExponent b).toNat = b.toNat / 2 ^ 52 % 2 ^ 11 := by
  simp [unpackExponent, BitVec.extractLsb_toNat, Nat.shiftRight_eq_div_pow]

theorem toNat_unpackSign : (unpackSign b).toNat = b.toNat / 2 ^ 63 % 2 := by
  show (BitVec.extractLsb 63 63 b).toNat = _
  simp [BitVec.extractLsb_toNat, Nat.shiftRight_eq_div_pow]

@[simp] theorem unpackSign_packComponents (s : Sign) (e : BitVec 11) (m : BitVec 52) :
    unpackSign (packComponents Format.binary64 s e m) = s.toBitVec := by
  apply BitVec.eq_of_toNat_eq
  have hs := s.toBitVec.isLt
  have he := e.isLt
  have hm := m.isLt
  rw [toNat_unpackSign, toNat_packComponents]
  omega

@[simp] theorem ofBitVec_toBitVec (s : Sign) : Sign.ofBitVec s.toBitVec = s := by
  cases s <;> rfl

theorem toBitVec_ofBitVec (b : BitVec 1) : (Sign.ofBitVec b).toBitVec = b := by
  revert b
  decide

/-- The bits are those of their three components. -/
theorem packComponents_unpack :
    packComponents Format.binary64 (Sign.ofBitVec (unpackSign b)) (unpackExponent b)
      (unpackMantissa b) = b := by
  apply BitVec.eq_of_toNat_eq
  have hb : b.toNat < 2 ^ 64 := b.isLt
  rw [toNat_packComponents, toBitVec_ofBitVec, toNat_unpackSign, toNat_unpackExponent,
    toNat_unpackMantissa]
  omega

/-! ## Unpacking what was packed -/

theorem log2_add_one_eq {m : Nat} (hlo : 2 ^ 52 ≤ m) (hhi : m < 2 ^ 53) : m.log2 + 1 = 53 := by
  have hm : m ≠ 0 := by omega
  have h₁ : 52 ≤ m.log2 := (Nat.le_log2 hm).mpr hlo
  have h₂ : m.log2 < 53 := (Nat.log2_lt hm).mpr hhi
  omega

theorem log2_add_one_ne {m : Nat} (hm : 0 < m) (hhi : m < 2 ^ 52) : m.log2 + 1 ≠ 53 := by
  have h : m.log2 < 52 := (Nat.log2_lt hm.ne').mpr hhi
  omega

theorem finite_congr {s s' : Sign} {m m' : Nat} {e e' : Int} {hm : 0 < m} {hm' : 0 < m'}
    (h₁ : s = s') (h₂ : m = m') (h₃ : e = e') :
    UnpackedFloat.finite s m e hm = .finite s' m' e' hm' := by
  subst h₁ h₂ h₃
  rfl

theorem unpack_packedInfinity (s : Sign) :
    UnpackedFloat.unpack Format.binary64 (UnpackedFloat.packedInfinity Format.binary64 s) =
      .infinity s := by
  cases s <;> rfl

/-- What the bits of a normal number mean. -/
theorem unpack_normal (s : Sign) (k : Nat) (f : BitVec 52) (hpos : 0 < k) (hlt : k < 2047) :
    UnpackedFloat.unpack Format.binary64 (packComponents Format.binary64 s (BitVec.ofNat 11 k) f) =
      .finite s (2 ^ 52 + f.toNat) (k - 1075) (by omega) := by
  have hk : (BitVec.ofNat 11 k).toNat = k := by
    rw [BitVec.toNat_ofNat]
    exact Nat.mod_eq_of_lt (by omega)
  have hones : BitVec.ofNat 11 k ≠ -1#11 := by
    intro h
    have h' := congrArg BitVec.toNat h
    rw [hk] at h'
    simp at h'
    omega
  have hzero : BitVec.ofNat 11 k ≠ 0#11 := by
    intro h
    have h' := congrArg BitVec.toNat h
    rw [hk] at h'
    simp at h'
    omega
  have hexp : unpackExponent (packComponents Format.binary64 s (BitVec.ofNat 11 k) f) =
      BitVec.ofNat 11 k := UnpackedFloat.unpackExponent_packComponents
  have hexponent : ((BitVec.ofNat 11 k).toNat : Int) - ((2 ^ (11 - 1) - 1 : Nat) + (52 : Nat)) =
      k - 1075 := by
    rw [hk]
    omega
  unfold UnpackedFloat.unpack
  rw [hexp, if_neg hones, if_neg hzero]
  refine finite_congr ?_ ?_ hexponent
  · rw [unpackSign_packComponents, ofBitVec_toBitVec]
  · rw [UnpackedFloat.unpackMantissa_packComponents]
    exact toNat_one_append f

/-- What the bits of a subnormal number mean. -/
theorem unpack_subnormal (s : Sign) (f : BitVec 52) (hf : 0 < f.toNat) :
    UnpackedFloat.unpack Format.binary64 (packComponents Format.binary64 s 0#11 f) =
      .finite s f.toNat minExponent hf := by
  have hzero : f ≠ 0#52 := by
    rintro rfl
    exact absurd hf (by simp)
  have hexp : unpackExponent (packComponents Format.binary64 s 0#11 f) = 0#11 :=
    UnpackedFloat.unpackExponent_packComponents
  have hmantissa : unpackMantissa (packComponents Format.binary64 s 0#11 f) = f :=
    UnpackedFloat.unpackMantissa_packComponents
  have hzero' : unpackMantissa (packComponents Format.binary64 s 0#11 f) ≠ 0#52 := by
    rwa [hmantissa]
  have hones : (0#11 : BitVec 11) ≠ -1#11 := by decide
  unfold UnpackedFloat.unpack
  rw [hexp, if_neg hones, if_pos rfl, dif_neg hzero']
  refine finite_congr ?_ ?_ rfl
  · rw [unpackSign_packComponents, ofBitVec_toBitVec]
  · rw [hmantissa]

/-- The bits of a normal number. -/
theorem pack_normal (s : Sign) {m : Nat} {e : Int} (hm : 0 < m) (hlo : 2 ^ 52 ≤ m)
    (hhi : m < 2 ^ 53) (hmin : minExponent ≤ e) (hmax : e ≤ maxExponent) :
    UnpackedFloat.pack Format.binary64 (.finite s m e hm) =
      packComponents Format.binary64 s (BitVec.ofNat 11 (e + 1075).toNat) (BitVec.ofNat 52 m) := by
  change -1074 ≤ e at hmin
  change e ≤ 971 at hmax
  have hexponent : e + 1023 + 52 = e + 1075 := by omega
  unfold UnpackedFloat.pack
  have hbits : Format.binary64.mantissaBits = 53 := rfl
  dsimp only [Format.exponentBias]
  rw [hbits]
  norm_num
  rw [if_neg (by omega), if_pos (log2_add_one_eq hlo hhi), hexponent]

/-- The bits of a subnormal number. -/
theorem pack_subnormal (s : Sign) {m : Nat} (hm : 0 < m) (hhi : m < 2 ^ 52) :
    UnpackedFloat.pack Format.binary64 (.finite s m minExponent hm) =
      packComponents Format.binary64 s 0#11 (BitVec.ofNat 52 m) := by
  unfold UnpackedFloat.pack
  have hbits : Format.binary64.mantissaBits = 53 := rfl
  dsimp only [Format.exponentBias]
  rw [hbits]
  norm_num
  intro h
  exact absurd h (log2_add_one_ne hm hhi)

/-- A number beyond the greatest exponent is packed as an infinity. -/
theorem pack_large (s : Sign) {m : Nat} {e : Int} (hm : 0 < m) (he : maxExponent < e) :
    UnpackedFloat.pack Format.binary64 (.finite s m e hm) =
      UnpackedFloat.packedInfinity Format.binary64 s := by
  change 971 < e at he
  unfold UnpackedFloat.pack
  dsimp only [Format.exponentBias]
  norm_num
  omega

/-- **A canonical number is unpacked as it was packed, and as an infinity if it is too large.** -/
theorem unpack_pack_finite (s : Sign) {m : Nat} {e : Int} (hm : 0 < m) (h : Canonical m e) :
    (Float.Model.pack (.finite s m e hm)).unpack =
      if maxExponent < e then .infinity s else .finite s m e hm := by
  obtain ⟨hlt, hmin, hnormal⟩ := h
  show UnpackedFloat.unpack Format.binary64 (UnpackedFloat.pack Format.binary64 _) = _
  by_cases he : maxExponent < e
  · rw [if_pos he, pack_large s hm he]
    exact unpack_packedInfinity s
  rw [if_neg he]
  rw [not_lt] at he
  by_cases hn : 2 ^ 52 ≤ m
  · change -1074 ≤ e at hmin
    change e ≤ 971 at he
    have hfraction : 2 ^ 52 + (BitVec.ofNat 52 m).toNat = m := by
      rw [BitVec.toNat_ofNat]
      omega
    rw [pack_normal s hm hn hlt hmin he, unpack_normal s _ _ (by omega) (by omega)]
    exact finite_congr rfl hfraction (by omega)
  · have hfraction : (BitVec.ofNat 52 m).toNat = m := by
      rw [BitVec.toNat_ofNat]
      omega
    obtain rfl : e = minExponent := hnormal.resolve_left hn
    rw [pack_subnormal s hm (by omega), unpack_subnormal s _ (by omega)]
    exact finite_congr rfl hfraction rfl

theorem unpack_pack_zero (s : Sign) : (Float.Model.pack (.zero s)).unpack = .zero s := by
  cases s <;> rfl

theorem unpack_pack_infinity (s : Sign) :
    (Float.Model.pack (.infinity s)).unpack = .infinity s := by
  cases s <;> rfl

/-! ## Packing what was unpacked -/

/-- What is unpacked from bits. -/
inductive Unpacked : UnpackedFloat → Prop where
  | notANumber : Unpacked .notANumber
  | infinity (s : Sign) : Unpacked (.infinity s)
  | zero (s : Sign) : Unpacked (.zero s)
  | finite (s : Sign) {m : Nat} {e : Int} (hm : 0 < m) (h : Canonical m e) (he : e ≤ maxExponent) :
    Unpacked (.finite s m e hm)

/-- What may be unpacked is unpacked as it was packed. -/
theorem Unpacked.unpack_pack {u : UnpackedFloat} (h : Unpacked u) :
    (Float.Model.pack u).unpack = u := by
  cases h with
  | notANumber => rfl
  | infinity s => exact unpack_pack_infinity s
  | zero s => exact unpack_pack_zero s
  | finite s hm h he => rw [unpack_pack_finite s hm h, if_neg he.not_gt]

theorem ne_of_toNat_ne {w : Nat} {b c : BitVec w} (h : b ≠ c) : b.toNat ≠ c.toNat :=
  fun hh => h (BitVec.eq_of_toNat_eq hh)

theorem toNat_neg_one : (-1#11 : BitVec 11).toNat = 2047 := by
  decide

/-- The exponent field of a finite number. -/
theorem toNat_unpackExponent_lt (h : unpackExponent b ≠ -1#11) :
    (unpackExponent b).toNat < 2047 := by
  have hne := ne_of_toNat_ne h
  have hlt : (unpackExponent b).toNat < 2 ^ 11 := (unpackExponent b).isLt
  rw [toNat_neg_one] at hne
  omega

/-! ### The kinds of bits -/

theorem unpackBits_ones (h : unpackExponent b = -1#11) :
    UnpackedFloat.unpack Format.binary64 b =
      if unpackMantissa b = 0#52 then .infinity (Sign.ofBitVec (unpackSign b))
      else .notANumber := by
  unfold UnpackedFloat.unpack
  exact if_pos h

theorem unpackBits_zero (h : unpackExponent b = 0#11) (h' : unpackMantissa b = 0#52) :
    UnpackedFloat.unpack Format.binary64 b = .zero (Sign.ofBitVec (unpackSign b)) := by
  have hones : unpackExponent b ≠ -1#11 := by
    rw [h]
    decide
  unfold UnpackedFloat.unpack
  rw [if_neg hones, if_pos h, dif_pos h']

theorem unpackBits_subnormal (h : unpackExponent b = 0#11) (hpos : 0 < (unpackMantissa b).toNat) :
    UnpackedFloat.unpack Format.binary64 b =
      .finite (Sign.ofBitVec (unpackSign b)) (unpackMantissa b).toNat minExponent hpos := by
  have hb := packComponents_unpack b
  rw [h] at hb
  rw [← unpack_subnormal, hb]

theorem unpackBits_normal (h : unpackExponent b ≠ -1#11) (hpos : 0 < (unpackExponent b).toNat) :
    UnpackedFloat.unpack Format.binary64 b =
      .finite (Sign.ofBitVec (unpackSign b)) (2 ^ 52 + (unpackMantissa b).toNat)
        ((unpackExponent b).toNat - 1075) (by omega) := by
  have hb := packComponents_unpack b
  have hnormal := unpack_normal (Sign.ofBitVec (unpackSign b)) (unpackExponent b).toNat
    (unpackMantissa b) hpos (toNat_unpackExponent_lt b h)
  rw [BitVec.ofNat_toNat, BitVec.setWidth_eq, hb] at hnormal
  exact hnormal

theorem unpacked_unpackBits : Unpacked (UnpackedFloat.unpack Format.binary64 b) := by
  have hfrac : (unpackMantissa b).toNat < 2 ^ 52 := (unpackMantissa b).isLt
  by_cases h₁ : unpackExponent b = -1#11
  · rw [unpackBits_ones b h₁]
    by_cases h₂ : unpackMantissa b = 0#52
    · rw [if_pos h₂]
      exact .infinity _
    · rw [if_neg h₂]
      exact .notANumber
  by_cases h₃ : unpackExponent b = 0#11
  · by_cases h₄ : unpackMantissa b = 0#52
    · rw [unpackBits_zero b h₃ h₄]
      exact .zero _
    · have hpos : 0 < (unpackMantissa b).toNat := Nat.pos_of_ne_zero (ne_of_toNat_ne h₄)
      rw [unpackBits_subnormal b h₃ hpos]
      refine .finite _ _ ⟨by omega, le_rfl, .inr rfl⟩ ?_
      show -1074 ≤ 971
      omega
  · have hlt := toNat_unpackExponent_lt b h₁
    have hpos : 0 < (unpackExponent b).toNat := Nat.pos_of_ne_zero (ne_of_toNat_ne h₃)
    rw [unpackBits_normal b h₁ hpos]
    refine .finite _ _ ⟨by omega, ?_, .inl (by omega)⟩ ?_
    · show -1074 ≤ _
      omega
    · show _ ≤ 971
      omega

/-- **Only canonical numbers are unpacked.** -/
theorem unpacked_unpack (x : Float.Model) : Unpacked x.unpack :=
  unpacked_unpackBits x.toBits.toBitVec

/-- The bits of a number that is not `NaN` are packed again as they were. -/
theorem pack_unpackBits (h : unpackExponent b = -1#11 → unpackMantissa b = 0#52) :
    UnpackedFloat.pack Format.binary64 (UnpackedFloat.unpack Format.binary64 b) = b := by
  have hfrac : (unpackMantissa b).toNat < 2 ^ 52 := (unpackMantissa b).isLt
  have hb := packComponents_unpack b
  by_cases h₁ : unpackExponent b = -1#11
  · have h₂ := h h₁
    rw [unpackBits_ones b h₁, if_pos h₂]
    rw [h₁, h₂] at hb
    exact hb
  by_cases h₃ : unpackExponent b = 0#11
  · by_cases h₄ : unpackMantissa b = 0#52
    · rw [unpackBits_zero b h₃ h₄]
      rw [h₃, h₄] at hb
      exact hb
    · have hpos : 0 < (unpackMantissa b).toNat := Nat.pos_of_ne_zero (ne_of_toNat_ne h₄)
      rw [unpackBits_subnormal b h₃ hpos, pack_subnormal _ hpos hfrac, BitVec.ofNat_toNat,
        BitVec.setWidth_eq]
      rw [h₃] at hb
      exact hb
  · have hlt := toNat_unpackExponent_lt b h₁
    have hpos : 0 < (unpackExponent b).toNat := Nat.pos_of_ne_zero (ne_of_toNat_ne h₃)
    have hexponent :
        BitVec.ofNat 11 (((unpackExponent b).toNat : Int) - 1075 + 1075).toNat =
          unpackExponent b := by
      apply BitVec.eq_of_toNat_eq
      rw [BitVec.toNat_ofNat]
      omega
    have hmantissa : BitVec.ofNat 52 (2 ^ 52 + (unpackMantissa b).toNat) = unpackMantissa b := by
      apply BitVec.eq_of_toNat_eq
      rw [BitVec.toNat_ofNat]
      omega
    rw [unpackBits_normal b h₁ hpos, pack_normal, hexponent, hmantissa, hb]
    · omega
    · omega
    · show -1074 ≤ _
      omega
    · show _ ≤ 971
      omega

theorem pack_unpack_of_valid (h : Format.binary64.Valid b) :
    UnpackedFloat.pack Format.binary64 (UnpackedFloat.unpack Format.binary64 b) = b := by
  by_cases hnan : unpackExponent b = -1#11 ∧ unpackMantissa b ≠ 0#52
  · rw [h.eq_packedNaN hnan.1 hnan.2]
    rfl
  · apply pack_unpackBits
    intro h₁
    by_contra h₂
    exact hnan ⟨h₁, h₂⟩

/-- **The bits of a double are those of its meaning.** -/
theorem pack_unpack (x : Float.Model) : Float.Model.pack x.unpack = x := by
  obtain ⟨bits, valid⟩ := x
  rw [Float.Model.mk.injEq]
  apply UInt64.eq_of_toBitVec_eq
  exact pack_unpack_of_valid bits.toBitVec valid

theorem ofBits_toBits (x : Float) : Float.ofBits x.toBits = x := by
  obtain ⟨x⟩ := x
  show Float.ofModel (Float.Model.pack x.unpack) = _
  rw [pack_unpack]

theorem toBits_injective {x y : Float} (h : x.toBits = y.toBits) : x = y := by
  rw [← ofBits_toBits x, h, ofBits_toBits]

/-! ## Values -/

/-- The sign of a negative number, or of one that is not. -/
def signOf (negative : Bool) : Sign :=
  if negative then .negative else .positive

@[simp] theorem signOf_isNegativeSign (s : Sign) : signOf (isNegativeSign s) = s := by
  cases s <;> rfl

@[simp] theorem isNegativeSign_signOf (negative : Bool) :
    isNegativeSign (signOf negative) = negative := by
  cases negative <;> rfl

/-- What an unpacked number stands for. -/
def valueOf : UnpackedFloat → Value
  | .notANumber => .notANumber
  | .infinity s => .infinite (isNegativeSign s)
  | .zero s => .finite (isNegativeSign s) 0 0
  | .finite s m e _ => .finite (isNegativeSign s) m e

theorem value_eq_valueOf (x : Float) : value x = valueOf x.toModel.unpack := by
  unfold value
  cases x.toModel.unpack <;> rfl

/-- The unpacked number that stands for a value. -/
def unpackedOf : Value → UnpackedFloat
  | .notANumber => .notANumber
  | .infinite negative => .infinity (signOf negative)
  | .finite negative m e => if hm : 0 < m then .finite (signOf negative) m e hm else
      .zero (signOf negative)

theorem unpackedOf_valueOf (u : UnpackedFloat) : unpackedOf (valueOf u) = u := by
  cases u with
  | notANumber => rfl
  | infinity s => exact congrArg UnpackedFloat.infinity (signOf_isNegativeSign s)
  | zero s => exact congrArg UnpackedFloat.zero (signOf_isNegativeSign s)
  | finite s m e hm =>
    have hfinite : unpackedOf (valueOf (.finite s m e hm)) =
        .finite (signOf (isNegativeSign s)) m e hm := dif_pos hm
    exact hfinite.trans (finite_congr (signOf_isNegativeSign s) rfl rfl)

/-- **Doubles with the same value are equal.** -/
theorem value_injective {x y : Float} (h : value x = value y) : x = y := by
  rw [value_eq_valueOf, value_eq_valueOf] at h
  have hu := congrArg unpackedOf h
  rw [unpackedOf_valueOf, unpackedOf_valueOf] at hu
  obtain ⟨x⟩ := x
  obtain ⟨y⟩ := y
  have hm := congrArg Float.Model.pack hu
  rw [pack_unpack, pack_unpack] at hm
  exact congrArg Float.ofModel hm

/-- The finite values of doubles are zero or canonical. -/
theorem canonical_of_value {x : Float} {negative : Bool} {m : Nat} {e : Int}
    (h : value x = .finite negative m e) :
    m = 0 ∧ e = 0 ∨ 0 < m ∧ Canonical m e ∧ e ≤ maxExponent := by
  rw [value_eq_valueOf] at h
  have hx := unpacked_unpack x.toModel
  generalize x.toModel.unpack = u at h hx
  cases hx with
  | notANumber => exact absurd h (by simp [valueOf])
  | infinity s => exact absurd h (by simp [valueOf])
  | zero s =>
    obtain ⟨-, rfl, rfl⟩ := Value.finite.inj h
    exact .inl ⟨rfl, rfl⟩
  | finite s hm hc he =>
    obtain ⟨-, rfl, rfl⟩ := Value.finite.inj h
    exact .inr ⟨hm, hc, he⟩

end Binary64
end TransferCost
