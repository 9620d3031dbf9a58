import TransferCost.Means
import TransferCost.Proofs.Binary64.Whole

/-!
# The means of one sample

The means of one sample are its own quantities.  Nothing has to be assumed of these: they may be
zeros of either sign, subnormal, or infinite.

## 1.  Neutral operands

The sum starts at `-0.0`, and one number is divided by one.  Both leave every double as it is, the
sign of a zero included; a sum that started at `0.0` would lose it.

## 2.  Kind by kind

The mean shares are set one kind after the other in a breakdown of zeros.  `Breakdown.gather` is
this walk.  Each share ends up at its own kind, in whatever order the kinds are visited, as long as
all of them are (`PerKind.get_foldl_set`).

## 3.  All means

`Means.ofSamples_singleton` joins the parts.  The mean numbers of accounts are exact, because every
count of 32 bits is a double.
-/

namespace TransferCost

open Binary64

/-! ## 1.  Neutral operands -/

namespace Binary64

/-- **Zero with a minus sign is neutral for every double.** -/
theorem negZero_add_eq (x : Float) : -0.0 + x = x := by
  cases hx : value x with
  | finite n m e => exact negZero_add (isFinite_iff.mpr ⟨n, m, e, hx⟩)
  | infinite n =>
    apply value_injective
    rw [value_add_eq, value_negZero, hx]
    cases n <;> exact congrArg valueOf (unpack_pack_infinity _)
  | notANumber =>
    apply value_injective
    rw [value_add_eq, value_negZero, hx]
    rfl

/-- **One divides every double without a change.** -/
theorem div_one_eq (x : Float) : x / 1.0 = x := by
  apply value_injective
  cases hx : value x with
  | finite n m e =>
    have hfinite := isFinite_iff.mpr ⟨n, m, e, hx⟩
    rw [value_div hfinite isFinite_one (by rw [toRat_one]; exact one_ne_zero), toRat_one, div_one,
      isNegative_of_value value_one, Bool.xor_false, roundedSigned_toRat hfinite, hx]
  | infinite n =>
    rw [value_div_eq, value_one, hx]
    cases n <;> exact congrArg valueOf (unpack_pack_infinity _)
  | notANumber =>
    rw [value_div_eq, value_one, hx]
    rfl

theorem ofNat_one : Float.ofNat 1 = 1.0 := by
  decide +kernel

/-- **The mean of one number is that number.** -/
theorem mean_singleton (x : Float) : mean [x] = x := by
  have hsum : sum [x] = -0.0 + x := rfl
  rw [mean, hsum, negZero_add_eq, List.length_singleton, ofNat_one, div_one_eq]

end Binary64

theorem meanOf_singleton (s : Sample) (quantity : Sample → Float) :
    meanOf [s] quantity = quantity s :=
  mean_singleton (quantity s)

/-! ## 2.  Kind by kind -/

/-- After a walk over some kinds, each of them has its own value, and the others are unchanged. -/
theorem PerKind.get_foldl_set {α : Type} (ks : List CostKind) (f : CostKind → α) (b : PerKind α)
    (k : CostKind) :
    (ks.foldl (fun b k => b.set k (f k)) b).get k = if k ∈ ks then f k else b.get k := by
  induction ks generalizing b with
  | nil => rw [List.foldl_nil, if_neg List.not_mem_nil]
  | cons k' rest ih =>
    rw [List.foldl_cons, ih, get_set]
    by_cases hrest : k ∈ rest
    · rw [if_pos hrest, if_pos (List.mem_cons_of_mem k' hrest)]
    · by_cases hk : k = k'
      · rw [if_neg hrest, if_pos hk, if_pos (hk ▸ List.mem_cons_self), hk]
      · rw [if_neg hrest, if_neg hk, if_neg (by simp [hk, hrest])]

/-- The mean shares of some samples, set one kind after the other. -/
def Breakdown.gather (samples : List Sample) : Breakdown :=
  CostKind.all.foldl (fun b k => b.set k (meanOf samples (·.breakdown.get k))) (.fill 0.0)

/-- **The walk leaves behind the breakdown of the means.** -/
theorem Breakdown.gather_eq (samples : List Sample) :
    gather samples = (Means.ofSamples samples).breakdown := by
  apply PerKind.ext_get
  intro k
  rw [gather, PerKind.get_foldl_set, if_pos k.mem_all, Means.ofSamples, PerKind.get_ofFn]

theorem Means.breakdown_singleton (s : Sample) : (ofSamples [s]).breakdown = s.breakdown := by
  apply PerKind.ext_get
  intro k
  rw [ofSamples, PerKind.get_ofFn, meanOf_singleton]

/-! ## 3.  All means -/

theorem isExactly_ofNat_toNat (n : UInt32) : IsExactly (Float.ofNat n.toNat) n.toNat :=
  isExactly_ofNat (n.toNat_lt.le.trans (by norm_num))

/-- **The means of one sample are its own quantities**, bit for bit, also where the shares are set
one kind after the other.  The mean numbers of accounts are the counts. -/
theorem Means.ofSamples_singleton (s : Sample) :
    (ofSamples [s]).count = 1 ∧
      (ofSamples [s]).efficiency = s.efficiency ∧
      (ofSamples [s]).totalCost = s.totalCost ∧
      (ofSamples [s]).timeMs = s.timeMs ∧
      (ofSamples [s]).breakdown = s.breakdown ∧
      Breakdown.gather [s] = s.breakdown ∧
      IsExactly (ofSamples [s]).accountsCreated s.accountsCreated.toNat ∧
      IsExactly (ofSamples [s]).accountsRemaining s.accountsRemaining.toNat := by
  have hcreated := meanOf_singleton s fun s => Float.ofNat s.accountsCreated.toNat
  have hremaining := meanOf_singleton s fun s => Float.ofNat s.accountsRemaining.toNat
  refine ⟨rfl, meanOf_singleton s _, meanOf_singleton s _, meanOf_singleton s _,
    breakdown_singleton s, ?_, ?_, ?_⟩
  · rw [Breakdown.gather_eq, breakdown_singleton]
  · rw [ofSamples, hcreated]
    exact isExactly_ofNat_toNat s.accountsCreated
  · rw [ofSamples, hremaining]
    exact isExactly_ofNat_toNat s.accountsRemaining

end TransferCost
