import TransferCost.Proofs.Binary64.Constants
import TransferCost.Sample

/-!
# The rules of a sample

`Sample.violation?` walks through its rules and stops at the first that is broken.  A sample that is
valid keeps all of them, and `KeepsRules` lists them by name.

The second part is about the tolerance that the rules are stated with.  As a double it is a little
less than one millionth.  The slack of a total is the tolerance on the scale of that total.
-/

namespace TransferCost

open Binary64

namespace Sample

/-- The rules, one by one. -/
structure KeepsRules (s : Sample) : Prop where
  amount : s.amount.isFinite = true ∧ 0.0 < s.amount
  recipients : s.recipientCount ≠ 0
  total : s.totalCost.isFinite = true ∧ 0.0 < s.totalCost
  share : ∀ k, isBadShare (s.breakdown.get k) = false
  sum : ¬ totalSlack s.totalCost < (s.totalCost - s.breakdown.total).abs
  received : 0.0 ≤ s.receivedAmount ∧ s.receivedAmount ≤ s.amount
  efficiency : ¬ tolerance < (s.efficiency - efficiencyOf s.receivedAmount s.amount).abs
  time : s.timeMs.isFinite = true ∧ 0.0 ≤ s.timeMs

theorem find?_share_eq_none_iff {b : Breakdown} :
    (b.toList.find? fun share => isBadShare share.2) = none ↔
      ∀ k, isBadShare (b.get k) = false := by
  rw [List.find?_eq_none]
  constructor
  · intro h k
    have hmem : (k, b.get k) ∈ b.toList :=
      List.mem_map.mpr ⟨k, CostKind.mem_all k, rfl⟩
    have hshare := h (k, b.get k) hmem
    dsimp only at hshare
    exact Bool.eq_false_iff.mpr hshare
  · intro h share hshare
    obtain ⟨k, -, rfl⟩ := List.mem_map.mp hshare
    rw [h k]
    exact Bool.false_ne_true

/-- **A sample is valid if it keeps all rules.** -/
theorem isValid_iff (s : Sample) : s.IsValid ↔ s.KeepsRules := by
  unfold IsValid violation?
  constructor
  · intro h
    cases hshare : s.breakdown.toList.find? fun share => isBadShare share.2 with
    | some share =>
      rw [hshare] at h
      split_ifs at h
    | none =>
      rw [hshare] at h
      dsimp only at h
      split_ifs at h with hamount hrecipients htotal hsum hreceived hefficiency htime
      rw [find?_share_eq_none_iff] at hshare
      simp only [Bool.not_eq_true', Bool.not_eq_false, Bool.and_eq_true, decide_eq_true_eq]
        at hamount htotal hreceived htime
      exact ⟨hamount, hrecipients, htotal, hshare, hsum, hreceived, hefficiency, htime⟩
  · intro h
    have hamount := h.amount
    have hrecipients := h.recipients
    have htotal := h.total
    have hsum := h.sum
    have hreceived := h.received
    have hefficiency := h.efficiency
    have htime := h.time
    rw [find?_share_eq_none_iff.mpr h.share]
    simp [hamount, hrecipients, htotal, hsum, hreceived, hefficiency, htime]

theorem one_le_iff_ne_zero {n : UInt32} : 1 ≤ n ↔ n ≠ 0 := by
  rw [UInt32.le_iff_toNat_le, ne_eq, ← UInt32.toNat_inj]
  exact Nat.one_le_iff_ne_zero

end Sample

/-! ## The tolerance -/

theorem value_tolerance : value tolerance = .finite false 4722366482869645 (-72) := by
  decide +kernel

theorem isFinite_tolerance : tolerance.isFinite = true :=
  isFinite_iff.mpr ⟨_, _, _, value_tolerance⟩

theorem toRat_tolerance : toRat tolerance = 4722366482869645 / 2 ^ 72 := by
  rw [toRat_of_value value_tolerance, signedRat_false]
  norm_num

/-- What is the same is within the tolerance, even if it is not a number. -/
theorem not_tolerance_lt_abs_sub_self (x : Float) : ¬ tolerance < (x - x).abs := by
  refine not_lt_abs_sub_self isFinite_tolerance ?_ x
  rw [toRat_tolerance]
  norm_num

/-- A good share is finite, and not below zero by more than the tolerance. -/
theorem isBadShare_eq_false_iff {x : Float} :
    isBadShare x = false ↔ x.isFinite = true ∧ -toRat tolerance ≤ toRat x := by
  unfold isBadShare
  rw [Bool.or_eq_false_iff, Bool.not_eq_false', decide_eq_false_iff_not]
  apply and_congr_right
  intro hx
  rw [lt_iff hx (isFinite_neg isFinite_tolerance), toRat_neg, not_lt]

namespace Sample

section Slack

variable {t : Float}

/-- The scale on which a total is compared with its shares. -/
theorem scale_spec (ht : t.isFinite = true) :
    (if t < 1.0 then (1.0 : Float) else t).isFinite = true ∧
      toRat (if t < 1.0 then 1.0 else t) = max 1 (toRat t) := by
  by_cases hlt : t < 1.0
  · rw [if_pos hlt, toRat_one]
    rw [lt_iff ht isFinite_one, toRat_one] at hlt
    exact ⟨isFinite_one, (max_eq_left hlt.le).symm⟩
  · rw [if_neg hlt]
    rw [lt_iff ht isFinite_one, toRat_one, not_lt] at hlt
    exact ⟨ht, (max_eq_right hlt).symm⟩

theorem isFinite_totalSlack (ht : t.isFinite = true) : (totalSlack t).isFinite = true := by
  obtain ⟨hscale, hrat⟩ := scale_spec ht
  have hpos : (0 : ℚ) ≤ max 1 (toRat t) := le_max_of_le_left zero_le_one
  refine isFinite_of_abs_le (value_mul isFinite_tolerance hscale) hscale ?_
  rw [abs_mul, hrat, toRat_tolerance, abs_of_nonneg hpos]
  exact mul_le_of_le_one_left hpos (by norm_num [abs_of_pos])

/-- The slack is the rounded product of the tolerance and the scale. -/
theorem toRat_totalSlack (ht : t.isFinite = true) :
    toRat (totalSlack t) = near (toRat tolerance * max 1 (toRat t)) := by
  obtain ⟨hscale, hrat⟩ := scale_spec ht
  rw [← hrat]
  exact toRat_eq_near (value_mul isFinite_tolerance hscale) (isFinite_totalSlack ht)

/-- A total that is the sum of the shares is within the slack. -/
theorem not_totalSlack_lt_abs_sub_self (ht : t.isFinite = true) : ¬ totalSlack t < (t - t).abs := by
  refine not_lt_abs_sub_self (isFinite_totalSlack ht) ?_ t
  rw [toRat_totalSlack ht, toRat_tolerance]
  exact near_nonneg (mul_nonneg (by norm_num) (le_max_of_le_left zero_le_one))

end Slack

end Sample
end TransferCost
