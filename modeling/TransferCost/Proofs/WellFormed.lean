import TransferCost.Proofs.FiniteAnalysis

/-!
# Which samples are valid

A sample is well-formed if its quantities are finite numbers in their ranges, and its total cost and
its efficiency are close to what the other quantities say.  All well-formed samples are valid, and
this file says which others are.

## Two ways to write a check

Some rules are broken *unless* a comparison holds, and those refuse what is not a number.  The
others are broken *if* a comparison holds, and what is not a number passes them.  The rules about
the total cost and about the efficiency are of the second kind.

For the total cost this makes no difference: it is finite by an earlier rule, and so are the shares.
Their sum may overflow, but then it is infinite, and the difference is a number all the same.

For the efficiency it does.  No rule says that it is a number, so one that is not passes:
`not_tolerance_lt_of_isNaN`.  Infinite efficiencies are refused, since they are compared with a
finite one.
-/

namespace TransferCost

open Binary64

namespace Sample

variable {s : Sample}

/-- A sample all of whose numbers are as they should be. -/
structure IsWellFormed (s : Sample) : Prop where
  finite : s.HasFiniteQuantities
  amount : 0.0 < s.amount
  recipients : 1 ≤ s.recipientCount
  total : 0.0 < s.totalCost
  share : ∀ k, -1e-6 ≤ s.breakdown.get k
  sum : (s.totalCost - s.breakdown.total).abs ≤ 1e-6 * max 1.0 s.totalCost
  received : 0.0 ≤ s.receivedAmount ∧ s.receivedAmount ≤ s.amount
  efficiency : (s.efficiency - s.receivedAmount / s.amount * 100.0).abs ≤ 1e-6
  time : 0.0 ≤ s.timeMs

/-- The sample with the efficiency that its amounts have. -/
def withExpected (s : Sample) : Sample :=
  { s with efficiency := efficiencyOf s.receivedAmount s.amount }

theorem hasFiniteQuantities_iff :
    s.HasFiniteQuantities ↔
      (s.amount.isFinite = true ∧ s.totalCost.isFinite = true ∧ s.receivedAmount.isFinite = true ∧
        s.efficiency.isFinite = true ∧ s.timeMs.isFinite = true) ∧
          ∀ k, (s.breakdown.get k).isFinite = true := by
  unfold HasFiniteQuantities quantities
  rw [List.forall_mem_append, List.forall_mem_map]
  simp [CostKind.mem_all]

theorem isBadShare_eq_false_iff_le {x : Float} :
    isBadShare x = false ↔ x.isFinite = true ∧ -1e-6 ≤ x := by
  rw [isBadShare_eq_false_iff]
  apply and_congr_right
  intro hx
  rw [← toRat_neg, ← le_iff (isFinite_neg isFinite_tolerance) hx]
  rfl

/-! ## The total cost -/

theorem totalSlack_eq {t : Float} (ht : t.isFinite = true) : totalSlack t = 1e-6 * max 1.0 t := by
  have hmax : max 1.0 t = if 1.0 ≤ t then t else 1.0 := rfl
  have hflip := not_lt_iff (isNaN_of_isFinite ht) (isNaN_of_isFinite isFinite_one)
  rw [hmax, ← if_congr hflip rfl rfl, ite_not]
  rfl

/-- The difference of a finite total and the sum of finite shares is a number. -/
theorem isNaN_total_sub (ht : s.totalCost.isFinite = true)
    (hshare : ∀ k, (s.breakdown.get k).isFinite = true) :
    (s.totalCost - s.breakdown.total).abs.isNaN = false := by
  rw [isNaN_abs]
  exact isNaN_finite_sub ht (isNaN_sum (List.forall_mem_map.mpr fun k _ => hshare k))

/-- **The rule about the total cost** says the same in either way of writing. -/
theorem not_slack_lt_iff (ht : s.totalCost.isFinite = true)
    (hshare : ∀ k, (s.breakdown.get k).isFinite = true) :
    ¬ totalSlack s.totalCost < (s.totalCost - s.breakdown.total).abs ↔
      (s.totalCost - s.breakdown.total).abs ≤ 1e-6 * max 1.0 s.totalCost := by
  rw [not_lt_iff (isNaN_of_isFinite (isFinite_totalSlack ht)) (isNaN_total_sub ht hshare),
    totalSlack_eq ht]

/-! ## The efficiency -/

/-- What is not a number passes the rule about the efficiency. -/
theorem not_tolerance_lt_of_isNaN {e x : Float} (he : e.isNaN = true) :
    ¬ tolerance < (e - x).abs := by
  apply not_lt_of_isNaN
  rw [isNaN_abs]
  exact .inr (isNaN_sub_of_isNaN he)

/-- A number that passes it is close to the expected efficiency. -/
theorem not_tolerance_lt_iff {e x : Float} (he : e.isNaN = false) (hx : x.isFinite = true) :
    ¬ tolerance < (e - x).abs ↔ (e - x).abs ≤ 1e-6 := by
  apply not_lt_iff (isNaN_of_isFinite isFinite_tolerance)
  rw [isNaN_abs]
  exact isNaN_sub_finite he hx

theorem KeepsRules.isFinite_expected (h : s.KeepsRules) :
    (efficiencyOf s.receivedAmount s.amount).isFinite = true :=
  (atMost_efficiencyOf h.amount.1 h.amount.2 h.received.1 h.received.2).1

/-- The efficiency of a sample that keeps the rules may be replaced by any that keeps its own. -/
theorem KeepsRules.replace (h : s.KeepsRules) {e : Float}
    (he : ¬ tolerance < (e - efficiencyOf s.receivedAmount s.amount).abs) :
    KeepsRules { s with efficiency := e } :=
  { h with efficiency := he }

/-! ## All rules -/

/-- A sample whose efficiency is a number keeps the rules only if it is well-formed. -/
theorem KeepsRules.isWellFormed (h : s.KeepsRules) (hnumber : s.efficiency.isNaN = false) :
    s.IsWellFormed := by
  have hshare (k : CostKind) := isBadShare_eq_false_iff.mp (h.share k)
  have hreceived := isFinite_of_le_of_le isFinite_zero h.amount.1 h.received.1 h.received.2
  have hclose := (not_tolerance_lt_iff hnumber h.isFinite_expected).mp h.efficiency
  have hefficiency := (isFinite_of_sub (isFinite_of_float_abs_le isFinite_tolerance hclose)).1
  exact {
    finite := hasFiniteQuantities_iff.mpr
      ⟨⟨h.amount.1, h.total.1, hreceived, hefficiency, h.time.1⟩, fun k => (hshare k).1⟩
    amount := h.amount.2
    recipients := one_le_iff_ne_zero.mpr h.recipients
    total := h.total.2
    share := fun k => (isBadShare_eq_false_iff_le.mp (h.share k)).2
    sum := (not_slack_lt_iff h.total.1 fun k => (hshare k).1).mp h.sum
    received := h.received
    efficiency := hclose
    time := h.time.2 }

theorem IsWellFormed.keepsRules (h : s.IsWellFormed) : s.KeepsRules := by
  obtain ⟨⟨hamount, htotal, hreceived, hefficiency, htime⟩, hshare⟩ :=
    hasFiniteQuantities_iff.mp h.finite
  have hexpected := (atMost_efficiencyOf hamount h.amount h.received.1 h.received.2).1
  exact {
    amount := ⟨hamount, h.amount⟩
    recipients := one_le_iff_ne_zero.mp h.recipients
    total := ⟨htotal, h.total⟩
    share := fun k => isBadShare_eq_false_iff_le.mpr ⟨hshare k, h.share k⟩
    sum := (not_slack_lt_iff htotal hshare).mpr h.sum
    received := h.received
    efficiency := (not_tolerance_lt_iff (isNaN_of_isFinite hefficiency) hexpected).mpr h.efficiency
    time := ⟨htime, h.time⟩ }

/-- **A sample is valid if and only if it is well-formed, or would be so with the efficiency that is
expected and has one that is not a number.** -/
theorem isValid_iff_isWellFormed (s : Sample) :
    s.IsValid ↔
      s.IsWellFormed ∨ (s.efficiency.isNaN = true ∧ s.withExpected.IsWellFormed) := by
  rw [isValid_iff]
  constructor
  · intro h
    cases hnumber : s.efficiency.isNaN with
    | false => exact .inl (h.isWellFormed hnumber)
    | true =>
      have hexpected := h.replace (not_tolerance_lt_abs_sub_self _)
      exact .inr ⟨rfl, hexpected.isWellFormed (isNaN_of_isFinite h.isFinite_expected)⟩
  · rintro (h | ⟨hnumber, h⟩)
    · exact h.keepsRules
    · exact h.keepsRules.replace (not_tolerance_lt_of_isNaN hnumber)

/-- A transfer of one unit whose efficiency is not a number. -/
def immeasurable : Sample where
  amount := 1000000000.0
  recipientCount := 1
  totalCost := 1000.0
  receivedAmount := 980000000.0
  efficiency := 0.0 / 0.0
  timeMs := 1550.0
  breakdown := ⟨250.0, 750.0, 0.0, 0.0⟩
  accountsCreated := 5
  accountsRemaining := 0

theorem isValid_iff_isWellFormed_immeasurable :
    immeasurable.IsValid ∧ ¬ immeasurable.IsWellFormed ∧
      immeasurable.efficiency.isNaN = true ∧ immeasurable.withExpected.IsWellFormed := by
  have hvalid : immeasurable.IsValid := by decide +kernel
  have hnot : ¬ immeasurable.IsWellFormed := by
    intro h
    obtain ⟨⟨-, -, -, hefficiency, -⟩, -⟩ := hasFiniteQuantities_iff.mp h.finite
    exact absurd hefficiency (by decide +kernel)
  exact ⟨hvalid, hnot, ((isValid_iff_isWellFormed immeasurable).mp hvalid).resolve_left hnot⟩

end Sample
end TransferCost
