import TransferCost.Proofs.FiniteAnalysis
import TransferCost.Proofs.Simulation

/-!
# The residual of the default cost model

A simulation takes the overhead of a transfer to be what is left of the total when the other three
shares are taken away.  Nothing would be left by exact arithmetic.  This file bounds what is left in
doubles, for unoptimized transfers in the default cost model.

## 1.  The residual

Two roundings are made on the way to the total, and three on the way back.  The latter are exact
where each share is at most half of the one before it.  The residual is the error of the total
then: `IsResidual.toRat_overhead`.

## 2.  The shares

The base fee, the rent and the numbers of compute units are whole numbers.  So three roundings make
the fee, of which the first one takes place in a product with one tenth, and one makes the costs of
computing.

## 3.  How large the residual becomes

The error of the total grows with the total.  Below `2 ^ 33` there are two errors of at most
`2 ^ -21`.  From there on the first of them is never above zero, and the second one is at most
`2 ^ -20` up to `2 ^ 34`.  So the residual is at most `2 ^ -20` that far: `toRat_overhead_le`.
At 34351575 recipients it is not, for the first time.
-/

namespace TransferCost

open Binary64

/-! ## 1.  The residual -/

/-- **The residual is the error of the total**, if the total is at least the sum of the first two
shares, and if each share is at most half of the one before it, up to the error. -/
theorem IsResidual.toRat_overhead {t : Float} {b : Breakdown} (h : IsResidual t b)
    (ht : t.isFinite = true) (ho : b.overhead.isFinite = true)
    (hlow : toRat b.txFee + toRat b.rent ≤ toRat t)
    (hhigh : toRat t ≤ toRat b.txFee + 2 * toRat b.rent)
    (hfee : 2 * toRat b.rent ≤ toRat b.txFee) :
    toRat b.overhead = near (toRat t - (toRat b.txFee + toRat b.rent + toRat b.compute)) := by
  have ho' := ho
  rw [h.overhead] at ho'
  obtain ⟨hrest, -⟩ := isFinite_of_sub ho'
  obtain ⟨hrest', hrent⟩ := isFinite_of_sub hrest
  obtain ⟨-, hfee'⟩ := isFinite_of_sub hrest'
  have hfirst := near_sub_of_le_two_mul ht hfee' (by linarith) (by linarith)
  have hexact : toRat (t - b.txFee) = toRat t - toRat b.txFee := by
    rw [toRat_eq_near (value_sub ht hfee') hrest', hfirst]
  have hsecond := near_sub_of_le_two_mul hrest' hrent (by linarith) (by linarith)
  rw [hexact] at hsecond
  rw [(h.toRat_chain ht ho).2, hfirst, hsecond, sub_sub, sub_sub, add_assoc]

/-! ## 2.  The shares -/

section Shares

variable (r : UInt32)

/-- The shares of an unoptimized transfer in the default cost model. -/
def standardShares : Breakdown :=
  CostModel.standard.sharesOf .unoptimized r

/-- The total cost of an unoptimized transfer in the default cost model. -/
def standardTotal : Float :=
  CostModel.standard.totalOf .unoptimized r

/-- The growth of its fee with the recipients, in base fees. -/
def standardGrowth : Float :=
  0.1 * Float.ofNat r.toNat

theorem isResidual_standardShares : IsResidual (standardTotal r) (standardShares r) :=
  CostModel.standard.isResidual_sharesOf .unoptimized r

theorem recipients_spec :
    AtMost (2 ^ 32) (Float.ofNat r.toNat) ∧ toRat (Float.ofNat r.toNat) = r.toNat :=
  ⟨atMost_count r, (ofNat_spec (r.toNat_lt.le.trans (by norm_num))).2⟩

theorem growth_spec : AtMost (2 ^ 32) (standardGrowth r) ∧
    toRat (standardGrowth r) = near ((1 + 1 / 2 ^ 54) / 10 * r.toNat) := by
  obtain ⟨hcount, hcount'⟩ := recipients_spec r
  -- One tenth is rounded up.
  have htenth : value 0.1 = .finite false 7205759403792794 (-56) := by decide +kernel
  obtain ⟨hfactor, hfactor'⟩ : IsExactly 0.1 ((1 + 1 / 2 ^ 54) / 10) :=
    isExactly_of_value htenth (by norm_num)
  have hvalue := value_mul hfactor hcount.1
  rw [hcount', hfactor'] at hvalue
  have hatMost : AtMost (2 ^ 32) (standardGrowth r) := by
    refine atMost_of_value hvalue (by norm_num) ?_
    have hsize := hcount.2
    rw [hcount', Nat.abs_cast] at hsize
    rw [abs_mul, Nat.abs_cast, abs_of_pos (by norm_num)]
    linarith
  exact ⟨hatMost, toRat_eq_near hvalue hatMost.1⟩

theorem fee_spec : AtMost (2 ^ 46) (standardShares r).txFee ∧
    toRat (standardShares r).txFee = near (5000 * near (1 + toRat (standardGrowth r))) := by
  have hgrowth := (growth_spec r).1
  have hfactor : AtMost (2 ^ 33) (1.0 + standardGrowth r) := by
    refine AtMost.add_same (by norm_num) ⟨isFinite_one, ?_⟩ hgrowth
    rw [toRat_one]
    norm_num
  have hfactor' : toRat (1.0 + standardGrowth r) = near (1 + toRat (standardGrowth r)) := by
    rw [toRat_eq_near (value_add isFinite_one hgrowth.1) hfactor.1, toRat_one]
  obtain ⟨hbase, hbase'⟩ : IsExactly 5000.0 (5000 : ℕ) := isExactly_ofScientific rfl (by norm_num)
  have hvalue := value_mul hbase hfactor.1
  rw [hbase', hfactor', Nat.cast_ofNat] at hvalue
  have hatMost : AtMost (2 ^ 46) (standardShares r).txFee := by
    refine atMost_of_value hvalue (by norm_num) ?_
    have hsize := hfactor.2
    rw [hfactor'] at hsize
    rw [abs_mul, abs_of_pos (by norm_num)]
    linarith
  exact ⟨hatMost, toRat_eq_near hvalue hatMost.1⟩

theorem rent_spec : AtMost (2 ^ 46) (standardShares r).rent ∧
    toRat (standardShares r).rent = 3563520 := by
  have hvalue :
      value (890880.0 * 1.0 * Float.ofNat 4) = .finite false (3563520 * 2 ^ 31) (-31) := by
    decide +kernel
  obtain ⟨hfinite, hrent⟩ : IsExactly (standardShares r).rent 3563520 :=
    isExactly_of_value hvalue (by norm_num)
  refine ⟨⟨hfinite, ?_⟩, hrent⟩
  rw [hrent]
  norm_num

/-- The number of compute units is a whole number, so only the quotient is rounded. -/
theorem compute_spec : AtMost (2 ^ 46) (standardShares r).compute ∧
    toRat (standardShares r).compute = near ((220000 + 15000 * r.toNat) / 1000000) := by
  obtain ⟨hcount, hcount'⟩ := recipients_spec r
  have hlt := r.toNat_lt
  obtain ⟨heach, heach'⟩ : IsExactly 15000.0 (15000 : ℕ) :=
    isExactly_ofScientific rfl (by norm_num)
  obtain ⟨hbase, hbase'⟩ : IsExactly 220000.0 (220000 : ℕ) :=
    isExactly_ofScientific rfl (by norm_num)
  obtain ⟨hmillion, hmillion'⟩ : IsExactly 1000000.0 (1000000 : ℕ) :=
    isExactly_ofScientific rfl (by norm_num)
  have hproduct := value_mul heach hcount.1
  rw [hcount', heach'] at hproduct
  obtain ⟨hgrowth, hgrowth'⟩ := exact_of_value (n := 15000 * r.toNat)
    (by exact_mod_cast hproduct) (by omega)
  have hsum := value_add hbase hgrowth
  rw [hbase', hgrowth'] at hsum
  obtain ⟨hunits, hunits'⟩ := exact_of_value (n := 220000 + 15000 * r.toNat)
    (by exact_mod_cast hsum) (by omega)
  have hne : toRat 1000000.0 ≠ 0 := by
    rw [hmillion']
    norm_num
  have hvalue := value_div hunits hmillion hne
  rw [hunits', hmillion'] at hvalue
  push_cast at hvalue
  have hatMost : AtMost (2 ^ 46) (standardShares r).compute := by
    refine atMost_of_value hvalue (by norm_num) ?_
    have hlt' : (r.toNat : ℚ) < 2 ^ 32 := by
      exact_mod_cast hlt
    rw [abs_of_nonneg (by positivity), div_le_iff₀ (by norm_num)]
    linarith
  exact ⟨hatMost, toRat_eq_near hvalue hatMost.1⟩

theorem total_spec : AtMost (2 ^ 48) (standardTotal r) ∧
    toRat (standardTotal r) = near (near (toRat (standardShares r).txFee +
      toRat (standardShares r).rent) + toRat (standardShares r).compute) := by
  have hpair := (fee_spec r).1.add_same (by norm_num) (rent_spec r).1
  have htotal := hpair.add_same (by norm_num) ((compute_spec r).1.mono (by norm_num))
  refine ⟨htotal, ?_⟩
  rw [← toRat_eq_near (value_add (fee_spec r).1.1 (rent_spec r).1.1) hpair.1]
  exact toRat_eq_near (value_add hpair.1 (compute_spec r).1.1) htotal.1

theorem isFinite_overhead : (standardShares r).overhead.isFinite = true := by
  have hfirst := (total_spec r).1.sub (by norm_num) ((fee_spec r).1.mono (by norm_num))
  have hsecond := hfirst.sub (by norm_num) ((rent_spec r).1.mono (by norm_num))
  exact (hsecond.sub (by norm_num) ((compute_spec r).1.mono (by norm_num))).1

end Shares

/-! ## 3.  How large the residual becomes -/

section Bounds

variable {r : UInt32}

/-- What is left of the total, computed exactly. -/
def standardError (r : UInt32) : ℚ :=
  toRat (standardTotal r) - (toRat (standardShares r).txFee + toRat (standardShares r).rent +
    toRat (standardShares r).compute)

/-- The fee is close to a whole number. -/
theorem fee_close (hr : (r.toNat : ℚ) < 34351575) :
    |toRat (standardShares r).txFee - (5000 + 500 * r.toNat)| ≤ 1 / 10 ^ 3 := by
  have hn : (0 : ℚ) ≤ r.toNat := Nat.cast_nonneg _
  have h₁ := near_between (k := 22) (q := (1 + 1 / 2 ^ 54) / 10 * r.toNat) (by linarith)
    (by linarith)
  rw [← (growth_spec r).2] at h₁
  have h₂ := near_between (k := 22) (q := 1 + toRat (standardGrowth r)) (by linarith) (by linarith)
  have h₃ := near_between (k := 35) (q := 5000 * near (1 + toRat (standardGrowth r)))
    (by linarith) (by linarith)
  rw [← (fee_spec r).2] at h₃
  rw [abs_le]
  constructor <;> linarith

theorem compute_close (hr : (r.toNat : ℚ) < 34351575) :
    |toRat (standardShares r).compute - (220000 + 15000 * r.toNat) / 1000000| ≤ 1 / 10 ^ 3 := by
  have hn : (0 : ℚ) ≤ r.toNat := Nat.cast_nonneg _
  have herror := near_between (k := 20) (q := (220000 + 15000 * r.toNat) / 1000000)
    (by linarith) (by linarith)
  rw [← (compute_spec r).2] at herror
  rw [abs_le]
  constructor <;> linarith

/-- The total is below `2 ^ 35`, so that is how large its errors are. -/
theorem abs_standardError_le (hr : (r.toNat : ℚ) < 34351575) :
    |standardError r| ≤ 1 / 2 ^ 18 := by
  have hn : (0 : ℚ) ≤ r.toNat := Nat.cast_nonneg _
  have hfee := abs_le.mp (fee_close hr)
  have hcompute := abs_le.mp (compute_close hr)
  rw [standardError, (total_spec r).2, (rent_spec r).2]
  generalize toRat (standardShares r).txFee = a at *
  generalize toRat (standardShares r).compute = c at *
  have h₁ := near_between (k := 35) (q := a + 3563520) (by linarith) (by linarith)
  have h₂ := near_between (k := 35) (q := near (a + 3563520) + c) (by linarith) (by linarith)
  rw [abs_le]
  constructor <;> linarith

/-- **Few recipients.**  All numbers on the way there and back are below `2 ^ 24`, so the residual
is at most five errors of `2 ^ -30`. -/
theorem abs_overhead_le_of_few (hr : (r.toNat : ℚ) < 20000) :
    |toRat (standardShares r).overhead| ≤ 1 / 2 ^ 20 := by
  have hn : (0 : ℚ) ≤ r.toNat := Nat.cast_nonneg _
  have hfee := abs_le.mp (fee_close (hr.trans (by norm_num)))
  have hcompute := abs_le.mp (compute_close (hr.trans (by norm_num)))
  obtain ⟨htotal, hoverhead⟩ :=
    (isResidual_standardShares r).toRat_chain (total_spec r).1.1 (isFinite_overhead r)
  rw [hoverhead, htotal, (rent_spec r).2]
  generalize toRat (standardShares r).txFee = a at *
  generalize toRat (standardShares r).compute = c at *
  have h₁ := near_between (k := 24) (q := a + 3563520) (by linarith) (by linarith)
  generalize near (a + 3563520) = p at *
  have h₂ := near_between (k := 24) (q := p + c) (by linarith) (by linarith)
  generalize near (p + c) = t at *
  have h₃ := near_between (k := 24) (q := t - a) (by linarith) (by linarith)
  generalize near (t - a) = u at *
  have h₄ := near_between (k := 24) (q := u - 3563520) (by linarith) (by linarith)
  generalize near (u - 3563520) = v at *
  have h₅ := near_between (k := 24) (q := v - c) (by linarith) (by linarith)
  rw [abs_le]
  constructor <;> linarith

/-- **Many recipients.**  The way back from the total is exact. -/
theorem toRat_overhead_of_many (hr : (r.toNat : ℚ) < 34351575) (hmany : 20000 ≤ (r.toNat : ℚ)) :
    toRat (standardShares r).overhead = near (standardError r) := by
  have hfee := abs_le.mp (fee_close hr)
  have hcompute := abs_le.mp (compute_close hr)
  have hrent := (rent_spec r).2
  have herror := abs_le.mp (abs_standardError_le hr)
  unfold standardError at *
  apply (isResidual_standardShares r).toRat_overhead (total_spec r).1.1 (isFinite_overhead r) <;>
    linarith

/-- Just below `2 ^ 33`, the fee is a whole number or the next double above it.  One tenth is
rounded up, and that outweighs what rounding its product may take away. -/
theorem fee_of_lt (hlarge : 17172000 ≤ (r.toNat : ℚ)) (hr : (r.toNat : ℚ) < 34351575)
    (hlt : toRat (standardShares r).txFee < 2 ^ 33) :
    5000 + 500 * (r.toNat : ℚ) ≤ toRat (standardShares r).txFee ∧
      toRat (standardShares r).txFee ≤ 5000 + 500 * r.toNat + 1 / 2 ^ 20 := by
  have hfee := abs_le.mp (fee_close hr)
  have hupper : (r.toNat : ℚ) ≤ 17179859 := by
    have hcast : (r.toNat : ℚ) < (17179860 : ℕ) := by
      push_cast
      linarith
    exact_mod_cast Nat.le_of_lt_succ (Nat.cast_lt.mp hcast)
  have h₁ := near_between (k := 21) (q := (1 + 1 / 2 ^ 54) / 10 * r.toNat) (by linarith)
    (by linarith)
  rw [← (growth_spec r).2] at h₁
  have hsteps : IsMultiple (-32) (1 + toRat (standardGrowth r)) := by
    have hone := isMultiple_natCast (e := -32) 1 (by norm_num)
    rw [Nat.cast_one] at hone
    refine hone.add (isMultiple_toRat (growth_spec r).1.1 ?_)
    norm_num
    linarith
  have hfactor : near (1 + toRat (standardGrowth r)) = 1 + toRat (standardGrowth r) := by
    refine near_of_isMultiple (by decide) hsteps (abs_le.mpr ?_)
    norm_num
    constructor <;> linarith
  have h₂ := near_between (k := 33) (q := 5000 * near (1 + toRat (standardGrowth r)))
    (by linarith) (by linarith)
  rw [← (fee_spec r).2] at h₂
  -- Both the fee and the whole number are multiples of `2 ^ -20`.
  have hwhole : IsMultiple (-20) (5000 + 500 * (r.toNat : ℚ)) := by
    exact_mod_cast isMultiple_natCast (e := -20) (5000 + 500 * r.toNat) (by norm_num)
  have hdouble : IsMultiple (-20) (toRat (standardShares r).txFee) := by
    refine isMultiple_toRat (fee_spec r).1.1 ?_
    norm_num
    linarith
  have hstep : IsMultiple (-20) (1 / 2 ^ 20) := ⟨1, by norm_num⟩
  constructor
  · refine hwhole.le_of_lt_add hdouble ?_
    norm_num
    linarith
  · refine hdouble.le_of_lt_add (hwhole.add hstep) ?_
    norm_num
    linarith

/-- Where the sum of fee and rent passes `2 ^ 33`, a fee that is not a whole number is in the middle
between two doubles of the sum, of which the even one is the lower one. -/
theorem near_pair_le_of_passing (hlarge : 17172000 ≤ (r.toNat : ℚ))
    (hr : (r.toNat : ℚ) < 34351575) (hbelow : toRat (standardShares r).txFee < 2 ^ 33)
    (habove : 2 ^ 33 < toRat (standardShares r).txFee + 3563520) :
    near (toRat (standardShares r).txFee + 3563520) ≤ toRat (standardShares r).txFee + 3563520 := by
  obtain ⟨hlow, hhigh⟩ := fee_of_lt hlarge hr hbelow
  have hlow' : 5000 + 500 * r.toNat < 2 ^ 33 := by
    exact_mod_cast hlow.trans_lt hbelow
  have hhigh' : 2 ^ 33 ≤ 5000 + 500 * r.toNat + 3563520 := by
    have hlt : (2 ^ 33 : ℚ) < 5000 + 500 * r.toNat + 3563520 + 1 := by linarith
    exact Nat.le_of_lt_succ (by exact_mod_cast hlt)
  have hroom : 5000 + 500 * r.toNat + 3563520 < 2 ^ 34 := by omega
  have htie := near_tie (n := (5000 + 500 * r.toNat + 3563520) * 2 ^ 19) (e := -19) (by decide)
    (by omega) (Nat.mul_le_mul_right (2 ^ 19) hhigh')
    (Nat.mul_lt_mul_of_pos_right hroom (by norm_num))
  have hwhole : (((5000 + 500 * r.toNat + 3563520) * 2 ^ 19 : ℕ) : ℚ) * 2 ^ (-19 : ℤ) =
      5000 + 500 * r.toNat + 3563520 := by
    push_cast
    norm_num
    ring
  have hhalf : (2 : ℚ) ^ (-19 : ℤ) / 2 = 1 / 2 ^ 20 := by norm_num
  rw [hwhole, hhalf] at htie
  calc near (toRat (standardShares r).txFee + 3563520)
      ≤ near (5000 + 500 * r.toNat + 3563520 + 1 / 2 ^ 20) := near_mono (by linarith)
    _ = 5000 + 500 * r.toNat + 3563520 := htie
    _ ≤ toRat (standardShares r).txFee + 3563520 := by linarith

/-- **Beyond `2 ^ 33`, the sum of fee and rent is not rounded up.**  On either side the sum is
exact. -/
theorem near_pair_le (hlarge : 17172000 ≤ (r.toNat : ℚ)) (hr : (r.toNat : ℚ) < 34351571) :
    near (toRat (standardShares r).txFee + 3563520) ≤ toRat (standardShares r).txFee + 3563520 := by
  have hr' : (r.toNat : ℚ) < 34351575 := hr.trans (by norm_num)
  have hfee := abs_le.mp (fee_close hr')
  have hrent (e : ℤ) (he : e ≤ 0) : IsMultiple e (3563520 : ℚ) := by
    exact_mod_cast isMultiple_natCast 3563520 he
  have hexact (e : ℤ) (he : e ≤ 0) (hmin : minExponent ≤ e)
      (hlow : 2 ^ (52 + e) ≤ toRat (standardShares r).txFee)
      (hhigh : toRat (standardShares r).txFee + 3563520 ≤ 2 ^ (53 + e)) :
      near (toRat (standardShares r).txFee + 3563520) ≤
        toRat (standardShares r).txFee + 3563520 := by
    have hsteps := (isMultiple_toRat (fee_spec r).1.1 hlow).add (hrent e he)
    refine (near_of_isMultiple hmin hsteps ?_).le
    rwa [abs_of_nonneg (by linarith)]
  rcases le_or_gt (2 ^ 33) (toRat (standardShares r).txFee) with habove | hbelow
  · refine hexact (-19) (by norm_num) (by decide) ?_ ?_
    · norm_num at habove ⊢
      exact habove
    · norm_num
      linarith
  rcases le_or_gt (toRat (standardShares r).txFee + 3563520) (2 ^ 33) with hpair | hpair
  · refine hexact (-20) (by norm_num) (by decide) ?_ ?_
    · norm_num
      linarith
    · norm_num at hpair ⊢
      exact hpair
  · exact near_pair_le_of_passing hlarge hr' hbelow hpair

/-- **The total is above the exact one by at most `2 ^ -20`.** -/
theorem standardError_le (hr : (r.toNat : ℚ) < 34351571) : standardError r ≤ 1 / 2 ^ 20 := by
  have hn : (0 : ℚ) ≤ r.toNat := Nat.cast_nonneg _
  have hr' : (r.toNat : ℚ) ≤ 34351570 := by
    exact_mod_cast Nat.le_of_lt_succ (by exact_mod_cast hr)
  have hfee := abs_le.mp (fee_close (hr.trans (by norm_num)))
  have hcompute := abs_le.mp (compute_close (hr.trans (by norm_num)))
  rw [standardError, (total_spec r).2, (rent_spec r).2]
  rcases le_or_gt 17172000 (r.toNat : ℚ) with hlarge | hsmall
  · have hpair := near_pair_le hlarge hr
    generalize toRat (standardShares r).txFee = a at *
    generalize toRat (standardShares r).compute = c at *
    have hnonneg : 0 ≤ near (a + 3563520) := near_nonneg (by linarith)
    have herror := near_between (k := 34) (q := near (a + 3563520) + c) (by linarith) (by linarith)
    linarith
  · generalize toRat (standardShares r).txFee = a at *
    generalize toRat (standardShares r).compute = c at *
    have h₁ := near_between (k := 33) (q := a + 3563520) (by linarith) (by linarith)
    have h₂ := near_between (k := 33) (q := near (a + 3563520) + c) (by linarith) (by linarith)
    linarith

/-- The totals of the last four numbers of recipients are above `2 ^ 34`.  Their residuals are small
enough all the same. -/
theorem overhead_of_last : ([34351571, 34351572, 34351573, 34351574] : List UInt32).all (fun r =>
    decide ((standardShares r).overhead ≤ 9.5367431640625e-7)) = true := by
  decide +kernel

theorem mem_last (hr : r.toNat < 34351575) (hlast : 34351571 ≤ r.toNat) :
    r ∈ ([34351571, 34351572, 34351573, 34351574] : List UInt32) := by
  simp only [List.mem_cons, List.not_mem_nil, or_false, ← UInt32.toNat_inj, UInt32.reduceToNat]
  omega

/-- **The residual is at most `2 ^ -20`**, below 34351575 recipients. -/
theorem toRat_overhead_le (hr : r.toNat < 34351575) :
    toRat (standardShares r).overhead ≤ 2 ^ (-20 : ℤ) := by
  have hr' : (r.toNat : ℚ) < 34351575 := by
    exact_mod_cast hr
  have hbound : (1 : ℚ) / 2 ^ 20 = 2 ^ (-20 : ℤ) := by norm_num
  rw [← hbound]
  rcases lt_or_ge (r.toNat : ℚ) 20000 with hfew | hmany
  · exact (le_abs_self _).trans (abs_overhead_le_of_few hfew)
  rcases lt_or_ge (r.toNat : ℚ) 34351571 with hlt | hlast
  · rw [toRat_overhead_of_many hr' hmany]
    refine (near_mono (standardError_le hlt)).trans_eq ?_
    rw [hbound, near_two_zpow (by decide)]
  · have hle := List.all_eq_true.mp overhead_of_last r (mem_last hr (by exact_mod_cast hlast))
    have hlimit : value 9.5367431640625e-7 = .finite false (2 ^ 52) (-72) := by decide +kernel
    obtain ⟨hfinite, hlimit'⟩ : IsExactly 9.5367431640625e-7 (1 / 2 ^ 20) :=
      isExactly_of_value hlimit (by norm_num)
    rwa [decide_eq_true_eq, le_iff (isFinite_overhead r) hfinite, hlimit'] at hle

theorem atMost_overhead (hr : r.toNat < 34351575) :
    AtMost (2 ^ 32) (standardShares r).overhead := by
  have hr' : (r.toNat : ℚ) < 34351575 := by
    exact_mod_cast hr
  refine ⟨isFinite_overhead r, ?_⟩
  rcases lt_or_ge (r.toNat : ℚ) 20000 with hfew | hmany
  · exact (abs_overhead_le_of_few hfew).trans (by norm_num)
  · rw [toRat_overhead_of_many hr' hmany]
    exact abs_near_le_two_pow ((abs_standardError_le hr').trans (by norm_num))

/-- **A mean of such residuals counts as zero**, however many there are. -/
theorem not_tolerance_lt_mean_overhead (hr : r.toNat < 34351575) {n : ℕ} (hn : 0 < n) :
    ¬ tolerance < mean (List.replicate n (standardShares r).overhead) := by
  have hatMost := atMost_overhead hr
  have hmean := AtMost.mean (by simp [hn.ne']) (hatMost.forall_mem_replicate n)
  have hle := toRat_mean_replicate_le hatMost (by decide) (toRat_overhead_le hr) hn
  rw [lt_iff isFinite_tolerance hmean.1, toRat_tolerance, not_lt]
  exact hle.trans (by norm_num)

end Bounds

end TransferCost
