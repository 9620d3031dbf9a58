import TransferCost.Proofs.Binary64.Comparison
import TransferCost.Proofs.Binary64.Residual
import TransferCost.Proofs.Means
import TransferCost.Record

/-!
# Received amounts that are derived

A record may give an efficiency in place of a received amount.  The received amount is then the
amount, times the efficiency, divided by one hundred, and both operations round.  The completed
sample is held to two rules that look at this number: it must not be above the amount, and the
efficiency that is computed from it must be close to the one that was given.

## 1.  Numbers

Efficiencies below one hundred are below it by a whole step of the doubles there.  That is more than
the rounding of the product can make up for, so the product is at most a hundred times the amount
(`near_mul_le`).  The amount is a double, so the rounding of its hundredth part does not pass it.

The efficiency is recomputed by two more operations.  All four errors together are far below the
tolerance (`abs_recomputed_sub_le`).

## 2.  Doubles

The same for an amount that is a whole number up to `2 ^ 53` and a percentage: `IsQuoted`.

At an efficiency of exactly one hundred there is no room for an error.  The product with one hundred
is exact while it has 53 bits without its factor four, which is so for all amounts up to
`2 ^ 53 / 25`.  A little above that, at 360287970189643, the derived amount is above the amount for
the first time.

## 3.  Records

The other rules are kept by every record of this kind: `IsDerived.violation?_eq`.  So the bound on
the received amount alone decides.
-/

namespace TransferCost

open Binary64

/-! ## 1.  Numbers -/

section Numbers

variable {A E : ℚ}

/-- **The rounded product is at most a hundred times the amount**, if the efficiency is below one
hundred by a step. -/
theorem near_mul_le (hA : 1 ≤ A) (hE : 0 ≤ E) (hlt : E + 2 ^ (-46 : ℤ) ≤ 100) :
    near (A * E) ≤ 100 * A := by
  have hq : A * E ≤ A * (100 - 1 / 2 ^ 46) := by
    refine mul_le_mul_of_nonneg_left ?_ (by linarith)
    norm_num at hlt ⊢
    linarith
  have hnonneg : 0 ≤ A * E := mul_nonneg (by linarith) hE
  have herror := abs_near_sub_le (A * E)
  rw [abs_of_nonneg hnonneg] at herror
  have hleast : (1 : ℚ) / 2 ^ 1075 ≤ 1 / 2 ^ 60 :=
    one_div_le_one_div_of_le (by norm_num) (pow_le_pow_right₀ (by norm_num) (by norm_num))
  generalize (1 : ℚ) / 2 ^ 1075 = least at herror hleast
  rw [abs_le] at herror
  linarith

/-- The derived amount, as a part of the amount. -/
theorem abs_derived_div_sub_le (hA : 1 ≤ A) (hE : 0 ≤ E) (hE' : E ≤ 100) :
    |near (near (A * E) / 100) / A - E / 100| ≤ 5 / 10 ^ 15 := by
  have hpos : 0 < A := by linarith
  have hnonneg : 0 ≤ A * E := mul_nonneg hpos.le hE
  have hle : A * E ≤ 100 * A := by
    rw [mul_comm 100 A]
    exact mul_le_mul_of_nonneg_left hE' hpos.le
  have h₁ := abs_near_sub_le_of_abs_le ((abs_of_nonneg hnonneg).trans_le hle)
  rw [abs_le] at h₁
  have hproduct : 0 ≤ near (A * E) := near_nonneg hnonneg
  generalize near (A * E) = P at h₁ hproduct ⊢
  have h₂ := abs_near_sub_le_of_abs_le (q := P / 100) (b := 2 * A)
    (abs_le.mpr ⟨by linarith, by linarith⟩)
  rw [abs_le] at h₂
  generalize near (P / 100) = R at h₂ ⊢
  have hsplit : R / A - E / 100 = (R - A * E / 100) / A := by
    field_simp
  rw [hsplit, abs_div, abs_of_pos hpos, div_le_iff₀ hpos, abs_le]
  constructor <;> linarith

/-- **The efficiency that is computed from the derived amount** is close to the given one. -/
theorem abs_recomputed_sub_le (hA : 1 ≤ A) (hE : 0 ≤ E) (hE' : E ≤ 100) :
    |E - near (near (near (near (A * E) / 100) / A) * 100)| ≤ 2 / 10 ^ 12 := by
  have hratio := abs_derived_div_sub_le hA hE hE'
  rw [abs_le] at hratio
  generalize near (near (A * E) / 100) / A = q at hratio ⊢
  have h₁ := abs_near_sub_le_of_abs_le (q := q) (b := 2) (abs_le.mpr ⟨by linarith, by linarith⟩)
  rw [abs_le] at h₁
  generalize near q = Q at h₁ ⊢
  have h₂ := abs_near_sub_le_of_abs_le (q := Q * 100) (b := 200)
    (abs_le.mpr ⟨by linarith, by linarith⟩)
  rw [abs_le] at h₂
  generalize near (Q * 100) = X at h₂ ⊢
  rw [abs_le]
  constructor <;> linarith

end Numbers

/-! ## 2.  Doubles -/

/-- The received amount that is derived from an efficiency. -/
def receivedAt (n : ℕ) (e : Float) : Float :=
  Float.ofNat n * e / 100.0

/-- A whole amount that is a double, and a percentage. -/
structure IsQuoted (n : ℕ) (e : Float) : Prop where
  one_le : 1 ≤ n
  le : n ≤ 2 ^ 53
  nonneg : 0.0 ≤ e
  le_hundred : e ≤ 100.0

namespace IsQuoted

variable {n : ℕ} {e : Float}

theorem one_le_cast (h : IsQuoted n e) : (1 : ℚ) ≤ n := by
  exact_mod_cast h.one_le

/-- What the percentage is as a number. -/
theorem percent_spec (h : IsQuoted n e) :
    e.isFinite = true ∧ 0 ≤ toRat e ∧ toRat e ≤ 100 := by
  have hfinite := isFinite_of_le_of_le isFinite_zero isFinite_hundred h.nonneg h.le_hundred
  have hle := (le_iff hfinite isFinite_hundred).mp h.le_hundred
  rw [toRat_hundred] at hle
  exact ⟨hfinite, (zero_le_iff hfinite).mp h.nonneg, hle⟩

theorem atMost_product (h : IsQuoted n e) :
    AtMost (2 ^ 60) (Float.ofNat n * e) ∧ toRat (Float.ofNat n * e) = near (n * toRat e) := by
  obtain ⟨hfinite, hnat⟩ := ofNat_spec h.le
  obtain ⟨hefinite, hnonneg, hle⟩ := h.percent_spec
  have hvalue := value_mul hfinite hefinite
  rw [hnat] at hvalue
  have hbound : |(n : ℚ) * toRat e| ≤ 2 ^ 60 := by
    rw [abs_of_nonneg (mul_nonneg (Nat.cast_nonneg n) hnonneg)]
    have hcast : (n : ℚ) ≤ 2 ^ 53 := by exact_mod_cast h.le
    exact (mul_le_mul hcast hle hnonneg (by norm_num)).trans (by norm_num)
  have hmost := atMost_of_value hvalue (by norm_num) hbound
  exact ⟨hmost, toRat_eq_near hvalue hmost.1⟩

theorem atMost_receivedAt (h : IsQuoted n e) :
    AtMost (2 ^ 60) (receivedAt n e) ∧
      toRat (receivedAt n e) = near (near (n * toRat e) / 100) := by
  obtain ⟨⟨hfinite, hbound⟩, hrat⟩ := h.atMost_product
  have hvalue := value_div hfinite isFinite_hundred (by rw [toRat_hundred]; norm_num)
  rw [toRat_hundred] at hvalue
  have hbound' : |toRat (Float.ofNat n * e) / 100| ≤ 2 ^ 60 := by
    rw [abs_div, abs_of_pos (by norm_num : (0 : ℚ) < 100)]
    exact (div_le_self (abs_nonneg _) (by norm_num)).trans hbound
  have hmost := atMost_of_value hvalue (by norm_num) hbound'
  rw [← hrat]
  exact ⟨hmost, toRat_eq_near hvalue hmost.1⟩

theorem zero_le_receivedAt (h : IsQuoted n e) : 0.0 ≤ receivedAt n e := by
  obtain ⟨⟨hfinite, -⟩, hrat⟩ := h.atMost_receivedAt
  rw [zero_le_iff hfinite, hrat]
  have hproduct := mul_nonneg (Nat.cast_nonneg n) h.percent_spec.2.1
  exact near_nonneg (div_nonneg (near_nonneg hproduct) (by norm_num))

/-- **Below one hundred percent, the derived amount is not above the amount.** -/
theorem receivedAt_le_of_lt (h : IsQuoted n e) (hlt : e < 100.0) :
    receivedAt n e ≤ Float.ofNat n := by
  obtain ⟨hfinite, hnat⟩ := ofNat_spec h.le
  obtain ⟨hefinite, hnonneg, -⟩ := h.percent_spec
  obtain ⟨⟨hreceived, -⟩, hrat⟩ := h.atMost_receivedAt
  have hstep := add_step_le_of_lt hefinite value_hundred (by norm_num) hlt
  rw [toRat_hundred] at hstep
  have hproduct := near_mul_le h.one_le_cast hnonneg hstep
  rw [le_iff hreceived hfinite, hrat]
  refine near_le_toRat hfinite ?_
  rw [hnat]
  linarith

theorem toRat_recomputed (h : IsQuoted n e) :
    (Sample.efficiencyOf (receivedAt n e) (Float.ofNat n)).isFinite = true ∧
      toRat (Sample.efficiencyOf (receivedAt n e) (Float.ofNat n)) =
        near (near (near (near (n * toRat e) / 100) / n) * 100) := by
  obtain ⟨hfinite, hnat⟩ := ofNat_spec h.le
  obtain ⟨⟨hreceived, hbound⟩, hrat⟩ := h.atMost_receivedAt
  have hcast := h.one_le_cast
  have hquotient := value_div hreceived hfinite (by rw [hnat]; linarith)
  rw [hnat] at hquotient
  have hratio : AtMost (2 ^ 60) (receivedAt n e / Float.ofNat n) := by
    refine atMost_of_value hquotient (by norm_num) ?_
    rw [abs_div, abs_of_pos (by linarith : (0 : ℚ) < n)]
    exact (div_le_self (abs_nonneg _) hcast).trans hbound
  have hvalue := value_mul hratio.1 isFinite_hundred
  have hbound' : |toRat (receivedAt n e / Float.ofNat n) * toRat 100.0| ≤ 2 ^ 67 := by
    rw [toRat_hundred, abs_mul, abs_of_pos (by norm_num : (0 : ℚ) < 100)]
    linarith [hratio.2]
  have hmost := atMost_of_value hvalue (by norm_num) hbound'
  rw [toRat_eq_near hquotient hratio.1, toRat_hundred, hrat] at hvalue
  exact ⟨hmost.1, toRat_eq_near hvalue hmost.1⟩

/-- **The recomputed efficiency is within the tolerance**, at one hundred percent, too. -/
theorem not_tolerance_lt_recomputed (h : IsQuoted n e) :
    ¬ tolerance < (e - Sample.efficiencyOf (receivedAt n e) (Float.ofNat n)).abs := by
  obtain ⟨hefinite, hnonneg, hle⟩ := h.percent_spec
  obtain ⟨hfinite, hrat⟩ := h.toRat_recomputed
  have hclose := abs_recomputed_sub_le h.one_le_cast hnonneg hle
  rw [← hrat] at hclose
  have hvalue := value_sub hefinite hfinite
  have hdiff := atMost_of_value (k := 0) hvalue (by norm_num) (hclose.trans (by norm_num))
  have herror := abs_near_sub_le_of_abs_le hclose
  rw [lt_iff isFinite_tolerance (isFinite_abs hdiff.1), toRat_abs, toRat_eq_near hvalue hdiff.1,
    toRat_tolerance, not_lt, abs_le]
  rw [abs_le] at hclose herror
  constructor <;> linarith

/-- The only percentage that is not below one hundred is one hundred. -/
theorem eq_hundred (h : IsQuoted n e) (hlt : ¬ e < 100.0) : e = 100.0 := by
  obtain ⟨hefinite, -, hle⟩ := h.percent_spec
  rw [lt_iff hefinite isFinite_hundred, toRat_hundred, not_lt] at hlt
  refine eq_of_toRat hefinite isFinite_hundred ?_ (by rw [toRat_hundred]; norm_num)
  rw [toRat_hundred]
  exact le_antisymm hle hlt

/-- Whether the derived amount is above the amount is a matter of full efficiencies only. -/
theorem receivedAt_le_iff (h : IsQuoted n e) :
    receivedAt n e ≤ Float.ofNat n ↔ e < 100.0 ∨ receivedAt n 100.0 ≤ Float.ofNat n := by
  by_cases hlt : e < 100.0
  · exact iff_of_true (h.receivedAt_le_of_lt hlt) (.inl hlt)
  · rw [h.eq_hundred hlt]
    exact ⟨.inr, fun hle => hle.resolve_left (by decide +kernel)⟩

/-- A product with one hundred is exact if it has 53 bits without its factor four. -/
theorem near_mul_hundred (h : 25 * n < 2 ^ 53) : near ((n : ℚ) * 100) = n * 100 := by
  have hself := nearest_of_mantissa_lt (e := 2) h (by decide)
  have hsplit : ((25 * n : ℕ) : ℚ) * 2 ^ (2 : ℤ) = n * 100 := by
    push_cast
    ring
  rw [hsplit] at hself
  rwa [near_of_nonneg (by positivity)]

/-- **At full efficiency**, the derived amount is not above any amount below 360287970189643. -/
theorem receivedAt_hundred_le (h : IsQuoted n 100.0) (hlt : n < 360287970189643) :
    receivedAt n 100.0 ≤ Float.ofNat n := by
  rcases Nat.lt_or_ge (25 * n) (2 ^ 53) with hexact | hlarge
  · obtain ⟨hfinite, hnat⟩ := ofNat_spec h.le
    obtain ⟨⟨hreceived, -⟩, hrat⟩ := h.atMost_receivedAt
    rw [le_iff hreceived hfinite, hrat, toRat_hundred, near_mul_hundred hexact,
      mul_div_cancel_right₀ _ (by norm_num), ← hnat, near_toRat hfinite]
  · -- Three amounts are left.
    have hcases : n = 360287970189640 ∨ n = 360287970189641 ∨ n = 360287970189642 := by omega
    rcases hcases with rfl | rfl | rfl <;> decide +kernel

/-- The same amount at full efficiency. -/
theorem full (h : IsQuoted n e) : IsQuoted n 100.0 :=
  { h with nonneg := by decide +kernel, le_hundred := by decide +kernel }

end IsQuoted

/-! ## 3.  Records -/

/-- A sample that was made of a whole amount, an efficiency and shares. -/
structure Sample.IsDerived (s : Sample) (n : ℕ) (e : Float) : Prop where
  quoted : IsQuoted n e
  amount : s.amount = Float.ofNat n
  recipients : s.recipientCount ≠ 0
  total : s.totalCost = s.breakdown.total
  positive : s.totalCost.isFinite = true ∧ 0.0 < s.totalCost
  share : ∀ k, (s.breakdown.get k).isFinite = true ∧ 0.0 ≤ s.breakdown.get k
  received : s.receivedAmount = receivedAt n e
  efficiency : s.efficiency = e
  time : s.timeMs = 0.0

theorem isBadShare_of_nonneg {x : Float} (hx : x.isFinite = true) (hpos : 0.0 ≤ x) :
    isBadShare x = false := by
  rw [zero_le_iff hx] at hpos
  refine isBadShare_eq_false_iff.mpr ⟨hx, hpos.trans' ?_⟩
  rw [toRat_tolerance]
  norm_num

/-- **The bound on the received amount decides alone**: all other rules are kept. -/
theorem Sample.IsDerived.violation?_eq {s : Sample} {n : ℕ} {e : Float} (h : s.IsDerived n e) :
    s.violation? = if s.receivedAmount ≤ s.amount then none
      else some (.receivedOutside s.receivedAmount s.amount) := by
  obtain ⟨hfinite, hnat⟩ := ofNat_spec h.quoted.le
  have hamount : s.amount.isFinite = true ∧ 0.0 < s.amount := by
    rw [h.amount, zero_lt_iff hfinite, hnat]
    exact ⟨hfinite, zero_lt_one.trans_le h.quoted.one_le_cast⟩
  have hshare := find?_share_eq_none_iff.mpr fun k =>
    isBadShare_of_nonneg (h.share k).1 (h.share k).2
  have hsum : ¬ totalSlack s.totalCost < (s.totalCost - s.breakdown.total).abs := by
    rw [← h.total]
    exact not_totalSlack_lt_abs_sub_self h.positive.1
  have hreceived : 0.0 ≤ s.receivedAmount := by
    rw [h.received]
    exact h.quoted.zero_le_receivedAt
  have hefficiency : ¬ tolerance < (s.efficiency - efficiencyOf s.receivedAmount s.amount).abs := by
    rw [h.efficiency, h.received, h.amount]
    exact h.quoted.not_tolerance_lt_recomputed
  have htime : s.timeMs.isFinite = true ∧ 0.0 ≤ s.timeMs := by
    rw [h.time]
    exact ⟨isFinite_zero, by decide +kernel⟩
  unfold violation?
  rw [hshare]
  by_cases hle : s.receivedAmount ≤ s.amount <;>
    simp [hamount, h.recipients, h.positive, hsum, hreceived, hefficiency, htime, hle]

namespace Record

/-- A record of a whole amount that gives an efficiency in place of a received amount, and shares in
place of a total. -/
structure GivesEfficiency (r : Record) (n : ℕ) (e : Float) : Prop where
  quoted : IsQuoted n e
  amount : r.amount = some (Float.ofNat n)
  recipients : ∃ count, r.recipientCount = some count ∧ 1 ≤ count
  shares : ∃ b, r.breakdown = some b ∧
    (∀ k, (b.complete.get k).isFinite = true ∧ 0.0 ≤ b.complete.get k) ∧
      b.complete.total.isFinite = true ∧ 0.0 < b.complete.total
  efficiency : r.efficiency = some e
  absent : r.totalCost = none ∧ r.receivedAmount = none ∧ r.timeMs = none

variable {r : Record} {n : ℕ} {e : Float}

theorem GivesEfficiency.exists_fill (h : r.GivesEfficiency n e) :
    ∃ s, r.fill = .ok s ∧ s.IsDerived n e := by
  obtain ⟨count, hcount, hone⟩ := h.recipients
  obtain ⟨b, hb, hshare, htotal⟩ := h.shares
  obtain ⟨htotalCost, hreceived, htime⟩ := h.absent
  unfold fill
  rw [h.amount, hcount, hb, h.efficiency, htotalCost, hreceived, htime]
  exact ⟨_, rfl, {
    quoted := h.quoted
    amount := rfl
    recipients := Sample.one_le_iff_ne_zero.mp hone
    total := rfl
    positive := htotal
    share := hshare
    received := rfl
    efficiency := rfl
    time := rfl }⟩

theorem complete_of_fill {s : Sample} (h : r.fill = .ok s) :
    r.complete = match s.violation? with
      | some v => .error (.violation v)
      | none => .ok s := by
  unfold complete
  rw [h]
  rfl

/-- What becomes of the record, in terms of the derived amount. -/
theorem GivesEfficiency.complete_eq (h : r.GivesEfficiency n e) :
    ∃ s : Sample, s.IsDerived n e ∧ r.complete =
      if receivedAt n e ≤ Float.ofNat n then .ok s
      else .error (.violation (.receivedOutside (receivedAt n e) (Float.ofNat n))) := by
  obtain ⟨s, hfill, hs⟩ := h.exists_fill
  refine ⟨s, hs, ?_⟩
  rw [complete_of_fill hfill, hs.violation?_eq, hs.received, hs.amount]
  split_ifs <;> rfl

/-- **A record that gives an efficiency is accepted, unless rounding lifts the derived amount above
the amount.**  That happens only at an efficiency of exactly one hundred, and for no amount below
360287970189643.  Where it happens, the record is refused for the amount that was derived. -/
theorem complete_of_efficiency (h : r.GivesEfficiency n e) :
    ((∃ s, r.complete = .ok s ∧ s.efficiency = e ∧ s.amount = Float.ofNat n ∧
        0.0 ≤ s.receivedAmount ∧ s.receivedAmount ≤ s.amount) ↔
      e < 100.0 ∨ Float.ofNat n * 100.0 / 100.0 ≤ Float.ofNat n) ∧
    (¬ (e < 100.0 ∨ Float.ofNat n * 100.0 / 100.0 ≤ Float.ofNat n) →
      r.complete = .error (.violation
        (.receivedOutside (Float.ofNat n * 100.0 / 100.0) (Float.ofNat n)))) ∧
    (n < 360287970189643 → Float.ofNat n * 100.0 / 100.0 ≤ Float.ofNat n) := by
  obtain ⟨s, hs, hcomplete⟩ := h.complete_eq
  have hiff := h.quoted.receivedAt_le_iff
  refine ⟨Iff.trans ?_ hiff, ?_, h.quoted.full.receivedAt_hundred_le⟩
  · constructor
    · rintro ⟨s', hs', -⟩
      by_contra hnot
      rw [hcomplete, if_neg hnot] at hs'
      exact absurd hs' nofun
    · intro hle
      rw [if_pos hle] at hcomplete
      refine ⟨s, hcomplete, hs.efficiency, hs.amount, ?_, ?_⟩
      · rw [hs.received]
        exact h.quoted.zero_le_receivedAt
      · rw [hs.received, hs.amount]
        exact hle
  · intro hnot
    have hfull := h.quoted.eq_hundred fun hlt => hnot (.inl hlt)
    rw [hcomplete, if_neg fun hle => hnot (hiff.mp hle), hfull]
    rfl

/-- A record of the first amount that is refused at full efficiency. -/
def liftedAbove : Record where
  amount := some (Float.ofNat 360287970189643)
  recipientCount := some 1
  breakdown := some ((PerKind.fill none).set .rent (some 1.0))
  efficiency := some 100.0

theorem complete_of_efficiency_liftedAbove :
    liftedAbove.GivesEfficiency 360287970189643 100.0 ∧
      liftedAbove.complete = .error (.violation
        (.receivedOutside 360287970189643.0625 360287970189643.0)) := by
  have h : liftedAbove.GivesEfficiency 360287970189643 100.0 := {
    quoted := ⟨by norm_num, by norm_num, by decide +kernel, by decide +kernel⟩
    amount := rfl
    recipients := ⟨1, rfl, by decide⟩
    shares := ⟨_, rfl, fun k => by cases k <;> decide +kernel, by decide +kernel,
      by decide +kernel⟩
    efficiency := rfl
    absent := ⟨rfl, rfl, rfl⟩ }
  refine ⟨h, ?_⟩
  rw [(complete_of_efficiency h).2.1 (by decide +kernel)]
  decide +kernel

end Record
end TransferCost
