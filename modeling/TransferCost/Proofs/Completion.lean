import TransferCost.Proofs.DerivedReceived
import TransferCost.Proofs.Reload

/-!
# Records that are completed

`Record.complete` asks for some fields, fills in the others and holds the sample to the rules.  Here
each of the three is described without the order in which the program does them.

* `Record.missing` lists the fields that are asked for and are not there.
* `Record.Describes` says of a record and a sample, field by field, that the sample is what the
  record says, where it says something, and what is filled in, where it does not.
* What is filled in for a total or an efficiency is computed the way in which the rules compute what
  they compare it with.  So the rules have nothing to object: `Sample.violation?_of_total_eq` and
  `Sample.violation?_of_efficiency_eq`.

A record either lacks a field or describes exactly one sample (`Record.fill_cases`,
`Record.Describes.unique`), and `Record.completion` puts the outcomes together.
-/

namespace TransferCost

open Binary64

/-! ## The rules about computed numbers -/

namespace Sample

variable {s : Sample}

/-- The sample breaks the rule, and the numbers are those that show it.  A total is compared with
the shares only if it is a finite number. -/
def Breaks (s : Sample) : Violation → Prop
  | .amountNotPositive a => a = s.amount ∧ ¬(a.isFinite = true ∧ 0.0 < a)
  | .noRecipient => s.recipientCount = 0
  | .totalNotPositive t => t = s.totalCost ∧ ¬(t.isFinite = true ∧ 0.0 < t)
  | .shareNegative k x => x = s.breakdown.get k ∧ isBadShare x = true
  | .totalUnlikeShares t x =>
    t = s.totalCost ∧ x = s.breakdown.total ∧ t.isFinite = true ∧ totalSlack t < (t - x).abs
  | .receivedOutside r a => r = s.receivedAmount ∧ a = s.amount ∧ ¬(0.0 ≤ r ∧ r ≤ a)
  | .efficiencyUnlikeReceived e x =>
    e = s.efficiency ∧ x = efficiencyOf s.receivedAmount s.amount ∧ tolerance < (e - x).abs
  | .timeNegative t => t = s.timeMs ∧ ¬(t.isFinite = true ∧ 0.0 ≤ t)

/-- **The rule that is named is broken.** -/
theorem breaks_of_violation? {v : Violation} (h : s.violation? = some v) : s.Breaks v := by
  unfold violation? at h
  dsimp only at h
  simp only [Bool.not_eq_true', ← Bool.not_eq_true, Bool.and_eq_true, decide_eq_true_eq] at h
  -- One rule after the other, in the order in which they are tried.
  split at h
  · rename_i hamount
    cases h
    exact ⟨rfl, hamount⟩
  split at h
  · rename_i hrecipients
    cases h
    exact hrecipients
  split at h
  · rename_i htotal
    cases h
    exact ⟨rfl, htotal⟩
  rename_i htotal
  split at h
  · rename_i k x hshare
    cases h
    obtain ⟨k', -, hk'⟩ := List.mem_map.mp (List.mem_of_find?_eq_some hshare)
    obtain ⟨rfl, rfl⟩ := Prod.mk.inj hk'
    have hbad := List.find?_some hshare
    exact ⟨rfl, hbad⟩
  split at h
  · rename_i hsum
    cases h
    exact ⟨rfl, rfl, (not_not.mp htotal).1, hsum⟩
  split at h
  · rename_i hreceived
    cases h
    exact ⟨rfl, rfl, hreceived⟩
  split at h
  · rename_i hefficiency
    cases h
    exact ⟨rfl, rfl, hefficiency⟩
  split at h
  · rename_i htime
    cases h
    exact ⟨rfl, htime⟩
  · exact absurd h nofun

/-- **A total that is the sum of the shares** is like the shares, whatever else is wrong. -/
theorem violation?_of_total_eq (h : s.totalCost = s.breakdown.total) (t x : Float) :
    s.violation? ≠ some (.totalUnlikeShares t x) := by
  intro hviolation
  obtain ⟨ht, hx, hfinite, hlt⟩ := breaks_of_violation? hviolation
  obtain rfl : t = x := ht.trans (h.trans hx.symm)
  exact not_totalSlack_lt_abs_sub_self hfinite hlt

/-- **An efficiency that is computed from the amounts** is like them, whatever else is wrong. -/
theorem violation?_of_efficiency_eq (h : s.efficiency = efficiencyOf s.receivedAmount s.amount)
    (e x : Float) : s.violation? ≠ some (.efficiencyUnlikeReceived e x) := by
  intro hviolation
  obtain ⟨he, hx, hlt⟩ := breaks_of_violation? hviolation
  obtain rfl : e = x := he.trans (h.trans hx.symm)
  exact not_tolerance_lt_abs_sub_self _ hlt

end Sample

namespace Record

/-! ## What has to be there -/

/-- The fields that have to be there, in the order in which they are asked for, each with whether it
is.  Of the received amount and the efficiency one is enough. -/
def required (r : Record) : List (String × Bool) :=
  [("amount", r.amount.isSome),
   ("recipient_count", r.recipientCount.isSome),
   ("cost_breakdown", r.breakdown.isSome),
   ("received_amount", r.receivedAmount.isSome || r.efficiency.isSome)]

/-- The fields that have to be there and are not, in the same order. -/
def missing (r : Record) : List String :=
  (r.required.filter fun field => !field.2).map (·.1)

/-! ## What is filled in -/

/-- The sample has what the record says, and where the record says nothing, what stands for it. -/
structure Describes (r : Record) (s : Sample) : Prop where
  amount : r.amount = some s.amount
  recipients : r.recipientCount = some s.recipientCount
  /-- A missing share is zero. -/
  shares : ∃ given : PartialBreakdown, r.breakdown = some given ∧
    ∀ k, s.breakdown.get k = (given.get k).getD 0.0
  /-- A missing total is the sum of the shares. -/
  total : s.totalCost = r.totalCost.getD s.breakdown.total
  /-- A missing received amount is the part of the amount that the efficiency says. -/
  received : r.receivedAmount = some s.receivedAmount ∨
    r.receivedAmount = none ∧ ∃ e, r.efficiency = some e ∧ s.receivedAmount = s.amount * e / 100.0
  /-- A missing efficiency is the received part of the amount, in percent. -/
  efficiency : s.efficiency = r.efficiency.getD (s.receivedAmount / s.amount * 100.0)
  time : s.timeMs = r.timeMs.getD 0.0
  created : s.accountsCreated = r.accountsCreated.getD 0
  remaining : s.accountsRemaining = r.accountsRemaining.getD 0

variable {r : Record} {s s' : Sample}

/-- A record describes at most one sample: each field is determined, the later ones by the
earlier. -/
theorem Describes.unique (h : r.Describes s) (h' : r.Describes s') : s = s' := by
  have hamount : s.amount = s'.amount :=
    Option.some.inj (h.amount.symm.trans h'.amount)
  have hrecipients : s.recipientCount = s'.recipientCount :=
    Option.some.inj (h.recipients.symm.trans h'.recipients)
  have hbreakdown : s.breakdown = s'.breakdown := by
    obtain ⟨given, hgiven, hshare⟩ := h.shares
    obtain ⟨given', hgiven', hshare'⟩ := h'.shares
    obtain rfl : given = given' := Option.some.inj (hgiven.symm.trans hgiven')
    exact PerKind.ext_get fun k => (hshare k).trans (hshare' k).symm
  have htotal : s.totalCost = s'.totalCost := by
    rw [h.total, h'.total, hbreakdown]
  have hreceived : s.receivedAmount = s'.receivedAmount := by
    rcases h.received with hgiven | ⟨hnone, e, he, heq⟩ <;>
      rcases h'.received with hgiven' | ⟨hnone', e', he', heq'⟩
    · exact Option.some.inj (hgiven.symm.trans hgiven')
    · exact absurd (hgiven.symm.trans hnone') nofun
    · exact absurd (hgiven'.symm.trans hnone) nofun
    · obtain rfl : e = e' := Option.some.inj (he.symm.trans he')
      rw [heq, heq', hamount]
  have hefficiency : s.efficiency = s'.efficiency := by
    rw [h.efficiency, h'.efficiency, hreceived, hamount]
  have htime := h.time.trans h'.time.symm
  have hcreated := h.created.trans h'.created.symm
  have hremaining := h.remaining.trans h'.remaining.symm
  cases s
  cases s'
  congr

theorem Describes.missing_eq_nil (h : r.Describes s) : r.missing = [] := by
  obtain ⟨given, hgiven, -⟩ := h.shares
  have hone : (r.receivedAmount.isSome || r.efficiency.isSome) = true := by
    rcases h.received with hreceived | ⟨-, e, he, -⟩
    · rw [hreceived, Option.isSome_some, Bool.true_or]
    · rw [he, Option.isSome_some, Bool.or_true]
  unfold missing required
  rw [h.amount, h.recipients, hgiven, hone]
  rfl

/-- **A record lacks a field, or it describes a sample.** -/
theorem fill_cases (r : Record) :
    (∃ name, r.fill = .error (.missingField name) ∧ r.missing.head? = some name) ∨
      ∃ s, r.fill = .ok s ∧ r.Describes s := by
  obtain ⟨amount, recipientCount, totalCost, receivedAmount, efficiency, timeMs, breakdown, created,
    remaining⟩ := r
  cases amount with
  | none => exact .inl ⟨"amount", rfl, rfl⟩
  | some amount =>
  cases recipientCount with
  | none => exact .inl ⟨"recipient_count", rfl, rfl⟩
  | some recipientCount =>
  cases breakdown with
  | none => exact .inl ⟨"cost_breakdown", rfl, rfl⟩
  | some given =>
  have hshares (k : CostKind) : (PartialBreakdown.complete given).get k = (given.get k).getD 0.0 :=
    PerKind.get_map _ _ k
  cases receivedAmount with
  | some received =>
    exact .inr ⟨_, rfl, rfl, rfl, ⟨given, rfl, hshares⟩, rfl, .inl rfl, rfl, rfl, rfl, rfl⟩
  | none =>
    cases efficiency with
    | none => exact .inl ⟨"received_amount", rfl, rfl⟩
    | some e =>
      exact .inr ⟨_, rfl, rfl, rfl, ⟨given, rfl, hshares⟩, rfl, .inr ⟨rfl, e, rfl, rfl⟩, rfl, rfl,
        rfl, rfl⟩

/-! ## The outcome -/

theorem complete_of_missing {name : String} (h : r.fill = .error (.missingField name)) :
    r.complete = .error (.missingField name) := by
  unfold complete
  rw [h]
  rfl

/-- **What a described sample becomes** is what the rules say of it. -/
theorem Describes.complete_eq (h : r.Describes s) : r.complete = match s.violation? with
    | some v => .error (.violation v)
    | none => .ok s := by
  rcases r.fill_cases with ⟨name, -, hname⟩ | ⟨s', hfill, hs'⟩
  · rw [h.missing_eq_nil] at hname
    exact absurd hname nofun
  · rw [h.unique hs']
    exact complete_of_fill hfill

theorem complete_eq_missing_iff {name : String} :
    r.complete = .error (.missingField name) ↔ r.missing.head? = some name := by
  rcases r.fill_cases with ⟨name', hfill, hname'⟩ | ⟨s, -, hs⟩
  · rw [complete_of_missing hfill, hname', Except.error.injEq, Defect.missingField.injEq,
      Option.some.injEq]
  · rw [hs.complete_eq, hs.missing_eq_nil]
    refine iff_of_false ?_ nofun
    split <;> exact nofun

theorem complete_eq_ok_iff : r.complete = .ok s ↔ r.Describes s ∧ s.IsValid := by
  constructor
  · intro h
    rcases r.fill_cases with ⟨name, hfill, -⟩ | ⟨s', -, hs'⟩
    · rw [complete_of_missing hfill] at h
      exact absurd h nofun
    · rw [hs'.complete_eq] at h
      cases hv : s'.violation? with
      | some v =>
        rw [hv] at h
        exact absurd h nofun
      | none =>
        rw [hv] at h
        obtain rfl := Except.ok.inj h
        exact ⟨hs', hv⟩
  · rintro ⟨hs, hvalid⟩
    have hnone : s.violation? = none := hvalid
    rw [hs.complete_eq, hnone]

theorem complete_eq_violation_iff {v : Violation} :
    r.complete = .error (.violation v) ↔ ∃ s, r.Describes s ∧ s.violation? = some v := by
  constructor
  · intro h
    rcases r.fill_cases with ⟨name, hfill, -⟩ | ⟨s, -, hs⟩
    · rw [complete_of_missing hfill] at h
      exact absurd h nofun
    · rw [hs.complete_eq] at h
      cases hv' : s.violation? with
      | some v' =>
        rw [hv'] at h
        obtain rfl := Defect.violation.inj (Except.error.inj h)
        exact ⟨s, hs, hv'⟩
      | none =>
        rw [hv'] at h
        exact absurd h nofun
  · rintro ⟨s, hs, hv⟩
    rw [hs.complete_eq, hv]

/-- What a record becomes, over all records. -/
structure Completion (r : Record) : Prop where
  /-- It is refused for a missing field just if one is missing, and then for the first. -/
  missing : ∀ name, r.complete = .error (.missingField name) ↔ r.missing.head? = some name
  /-- It is accepted just if it describes a sample that is valid, and then as this sample. -/
  accepted : ∀ s, r.complete = .ok s ↔ r.Describes s ∧ s.IsValid
  /-- It is refused for a rule just if it describes a sample that breaks the rule as its first. -/
  refused : ∀ v, r.complete = .error (.violation v) ↔ ∃ s, r.Describes s ∧ s.violation? = some v
  /-- A total that is filled in is never unlike the shares. -/
  total : r.totalCost = none → ∀ t x, r.complete ≠ .error (.violation (.totalUnlikeShares t x))
  /-- An efficiency that is filled in is never unlike the amounts. -/
  efficiency : r.efficiency = none →
    ∀ e x, r.complete ≠ .error (.violation (.efficiencyUnlikeReceived e x))
  /-- What was accepted is accepted again with all of its fields, as what it is. -/
  again : ∀ s, r.complete = .ok s → (ofSample s).complete = .ok s

/-- **Every record is completed by its fields alone**, and a completed record stays as it is. -/
theorem completion_of_record (r : Record) : r.Completion where
  missing _ := complete_eq_missing_iff
  accepted _ := complete_eq_ok_iff
  refused _ := complete_eq_violation_iff
  total hnone t x h := by
    obtain ⟨s, hs, hviolation⟩ := complete_eq_violation_iff.mp h
    have htotal := hs.total
    rw [hnone, Option.getD_none] at htotal
    exact Sample.violation?_of_total_eq htotal t x hviolation
  efficiency hnone e x h := by
    obtain ⟨s, hs, hviolation⟩ := complete_eq_violation_iff.mp h
    have hefficiency := hs.efficiency
    rw [hnone, Option.getD_none] at hefficiency
    exact Sample.violation?_of_efficiency_eq hefficiency e x hviolation
  again s h := complete_ofSample (complete_eq_ok_iff.mp h).2

end Record
end TransferCost
