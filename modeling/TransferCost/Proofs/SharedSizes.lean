import TransferCost.Proofs.FiniteAnalysis
import TransferCost.Proofs.SizeCosts
import TransferCost.Proofs.Wording

/-!
# What a report says about shared sizes

Two parts of a report depend on whether a size occurs in both modes.  One is the table of costs, in
whose place a sentence may stand that says that no size does.  The other is the section on scaling,
which is missing if there is no curve.

The curve groups samples across transfer types, and the table groups those of each type apart.  So
the sentence is about sizes that one transfer type has in both modes, although it does not say so:
the report of `crossedOver` denies that there are shared sizes, and then lists them.
-/

namespace TransferCost

open Scaling (IsShared IsSharedBy)

namespace Analysis

variable {s : Store} {a : Analysis} {threshold : ℕ}

theorem costs_eq_nil_iff (ha : (ofStore s threshold).value = .ok a) :
    a.scaling.costs = [] ↔ ¬ ∃ t x, IsSharedBy s t x := by
  obtain ⟨-, rfl⟩ := of_ok ha
  change (Scaling.ofStore s).value.costs = [] ↔ _
  rw [List.eq_nil_iff_forall_not_mem, exists_comm]
  simp only [← Scaling.exists_costs_iff, not_exists, not_and]
  exact ⟨fun h x row hrow _ => h row hrow, fun h row hrow => h row.amount row hrow rfl⟩

theorem points_eq_nil_iff (ha : (ofStore s threshold).value = .ok a) :
    a.scaling.points = [] ↔ ¬ ∃ x, IsShared s x := by
  obtain ⟨-, rfl⟩ := of_ok ha
  change (Scaling.ofStore s).value.points = [] ↔ _
  rw [List.eq_nil_iff_forall_not_mem]
  simp only [← Scaling.exists_points_iff, not_exists, not_and]
  exact ⟨fun h x point hpoint _ => h point hpoint, fun h point hpoint => h _ point hpoint rfl⟩

/-- What a report says about sizes that both modes have. -/
structure TellsSharedSizes (s : Store) (a : Analysis) (report : String) : Prop where
  /-- The sentence is about the sizes of each transfer type. -/
  sentence : Contains report Report.sentence ↔ ¬ ∃ t x, IsSharedBy s t x
  /-- The curve is about all sizes, and has a section unless it has no point. -/
  points : a.scaling.points = [] ↔ ¬ ∃ x, IsShared s x
  heading : Contains report Report.scalingHeading ↔ ∃ x, IsShared s x
  /-- They never both miss a size. -/
  covered : ¬ Contains report Report.scalingHeading → Contains report Report.sentence
  /-- They contradict each other if and only if there are shared sizes, but none of them is shared
  within one transfer type. -/
  contradiction : Contains report Report.sentence ∧ Contains report Report.scalingHeading ↔
    (∃ x, IsShared s x) ∧ ¬ ∃ t x, IsSharedBy s t x

/-- **The sentence that no size has samples in both modes stands in a report if and only if no
transfer type has such a size.**  The section on scaling is left out if and only if there is no such
size at all.  So the report contradicts itself if and only if each shared size is shared only across
transfer types, and there is one. -/
theorem report_sharedSizes (ha : (ofStore s threshold).value = .ok a) (date : Date) :
    TellsSharedSizes s a (Report.text a date) := by
  have hsentence : Contains (Report.text a date) Report.sentence ↔ ¬ ∃ t x, IsSharedBy s t x :=
    Report.contains_sentence_iff.trans (costs_eq_nil_iff ha)
  have hheading : Contains (Report.text a date) Report.scalingHeading ↔ ∃ x, IsShared s x := by
    rw [Report.contains_scalingHeading_iff, ne_eq, points_eq_nil_iff ha, not_not]
  refine ⟨hsentence, points_eq_nil_iff ha, hheading, ?_, ?_⟩
  · rw [hsentence, hheading]
    rintro hnone ⟨t, x, hshared⟩
    exact hnone ⟨x, .of_isSharedBy hshared⟩
  · rw [hsentence, hheading, and_comm]

/-- Two sizes.  Each mode has one of them in transfers to single recipients, and the other one in
transfers to many wallets. -/
def crossedOver : Store :=
  ⟨.ofFn fun
    | ⟨.optimized, .singleRecipient⟩ | ⟨.unoptimized, .multiWallet⟩ => [Scaling.oneSubunit]
    | ⟨.unoptimized, .singleRecipient⟩ | ⟨.optimized, .multiWallet⟩ =>
      [{ Scaling.oneSubunit with amount := 2.0 }]⟩

/-- The report denies that there are shared sizes, and lists them. -/
theorem report_sharedSizes_crossedOver : ∃ a, (ofStore crossedOver 1).value = .ok a ∧
    TellsSharedSizes crossedOver a (Report.text a ⟨2024, 2, 29⟩) ∧
    Contains (Report.text a ⟨2024, 2, 29⟩) Report.sentence ∧
    Contains (Report.text a ⟨2024, 2, 29⟩) Report.scalingHeading := by
  have hok : (ofStore crossedOver 1).value = .ok (ofSufficient crossedOver).value := rfl
  have htells := report_sharedSizes hok ⟨2024, 2, 29⟩
  have hcosts : (ofSufficient crossedOver).value.scaling.costs = [] := by
    decide +kernel
  have hshared : IsShared crossedOver 1.0 := by
    intro o
    cases o with
    | optimized => exact ⟨.singleRecipient, _, List.mem_singleton_self _, rfl⟩
    | unoptimized => exact ⟨.multiWallet, _, List.mem_singleton_self _, rfl⟩
  exact ⟨_, hok, htells, htells.sentence.mpr ((costs_eq_nil_iff hok).mp hcosts),
    htells.heading.mpr ⟨1.0, hshared⟩⟩

end Analysis
end TransferCost
