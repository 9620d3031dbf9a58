import Mathlib.Order.Bounds.Basic
import TransferCost.Proofs.Binary64.Comparison
import TransferCost.Scaling

/-!
# The optimum is the first maximum

The points of the curve are walked through once.  The best point so far is replaced only by one that
is strictly better, so of several equal ones the first stays.

## Why it is a maximum

Improvements are not linearly ordered: what is not a number is not comparable, not even with itself.
`Leads before best after` is what the walk knows of the points that it has seen.  All numbers in
front of the best point are below it, and nothing behind it is above it.  `Leads.step` is one step,
and `Leads.run` the walk.

A point without a number is passed over wherever it stands but at the front.  There it is never
replaced, because nothing is above it: `ofPoints_of_isNaN`.
-/

namespace TransferCost

open Binary64

namespace ScalingOptimum

/-- The optimum at a point. -/
def ofPoint (p : ScalingPoint) : ScalingOptimum where
  amount := p.amount
  units := p.units
  improvement := p.improvement

theorem ofPoints_eq_some {points : List ScalingPoint} {p : ScalingPoint}
    (h : points.foldl better none = some p) : ofPoints points = some (ofPoint p) := by
  rw [ofPoints, h]
  rfl

/-! ## The walk -/

/-- Among the points `before ++ best :: after`, the one in the middle is the first with the greatest
improvement. -/
structure Leads (before : List ScalingPoint) (best : ScalingPoint) (after : List ScalingPoint) :
    Prop where
  number : best.improvement.isNaN = false
  above : ∀ q ∈ before, q.improvement.isNaN = false → q.improvement < best.improvement
  unbeaten : ∀ q ∈ after, ¬ best.improvement < q.improvement

namespace Leads

variable {before after : List ScalingPoint} {best : ScalingPoint}

/-- Every number among the points is at most the best one. -/
theorem le (h : Leads before best after) {q : ScalingPoint} (hq : q ∈ before ++ best :: after)
    (hnumber : q.improvement.isNaN = false) : q.improvement ≤ best.improvement := by
  rw [List.mem_append, List.mem_cons] at hq
  rcases hq with hq | rfl | hq
  · exact le_of_float_lt (h.above q hq hnumber)
  · rw [le_iff_level hnumber hnumber]
  · exact (not_lt_iff h.number hnumber).mp (h.unbeaten q hq)

/-- No point is above the best one. -/
theorem not_lt (h : Leads before best after) {q : ScalingPoint} (hq : q ∈ before ++ best :: after) :
    ¬ best.improvement < q.improvement := by
  intro hlt
  have hnumber := (not_isNaN_of_lt hlt).2
  exact (not_lt_iff h.number hnumber).mpr (h.le hq hnumber) hlt

/-- **One step of the walk.**  A point that is better is above all numbers so far, and any other one
joins those behind the best. -/
theorem step (h : Leads before best after) (p : ScalingPoint) :
    ∃ before' best' after', before' ++ best' :: after' = before ++ best :: after ++ [p] ∧
      better (some best) p = some best' ∧ Leads before' best' after' := by
  by_cases hlt : best.improvement < p.improvement
  · refine ⟨before ++ best :: after, p, [], rfl, if_pos hlt, ?_⟩
    exact {
      number := (not_isNaN_of_lt hlt).2
      above := fun q hq hnumber => lt_of_float_le_of_lt (h.le hq hnumber) hlt
      unbeaten := fun q hq => absurd hq List.not_mem_nil }
  · refine ⟨before, best, after ++ [p], by simp, if_neg hlt, ?_⟩
    refine { h with unbeaten := ?_ }
    intro q hq
    rw [List.mem_append, List.mem_singleton] at hq
    rcases hq with hq | rfl
    · exact h.unbeaten q hq
    · exact hlt

/-- **The walk** over further points. -/
theorem run (h : Leads before best after) (rest : List ScalingPoint) :
    ∃ before' best' after', before' ++ best' :: after' = before ++ best :: after ++ rest ∧
      rest.foldl better (some best) = some best' ∧ Leads before' best' after' := by
  induction rest generalizing before best after with
  | nil => exact ⟨before, best, after, (List.append_nil _).symm, rfl, h⟩
  | cons p rest ih =>
    obtain ⟨before₁, best₁, after₁, hsame, hstep, hleads⟩ := h.step p
    obtain ⟨before₂, best₂, after₂, hsame', hrun, hleads'⟩ := ih hleads
    refine ⟨before₂, best₂, after₂, ?_, ?_, hleads'⟩
    · rw [hsame', hsame, List.append_assoc, List.singleton_append]
    · rw [List.foldl_cons, hstep, hrun]

end Leads

/-- A walk that begins with a number finds the leading point. -/
theorem exists_leads {first : ScalingPoint} (rest : List ScalingPoint)
    (h : first.improvement.isNaN = false) :
    ∃ before best after, before ++ best :: after = first :: rest ∧
      (first :: rest).foldl better none = some best ∧ Leads before best after := by
  have halone : Leads [] first [] := ⟨h, by simp, by simp⟩
  exact halone.run rest

/-- **What is not a number stays at the front**, since nothing is above it. -/
theorem ofPoints_of_isNaN {first : ScalingPoint} (rest : List ScalingPoint)
    (h : first.improvement.isNaN = true) : ofPoints (first :: rest) = some (ofPoint first) := by
  apply ofPoints_eq_some
  show rest.foldl better (some first) = some first
  induction rest with
  | nil => rfl
  | cons p rest ih =>
    have hstep : better (some first) p = some first := if_neg (not_lt_of_isNaN (.inl h))
    rw [List.foldl_cons, hstep, ih]

theorem ofPoints_eq_none_iff {points : List ScalingPoint} :
    ofPoints points = none ↔ points = [] := by
  cases points with
  | nil => exact iff_of_true rfl rfl
  | cons first rest =>
    refine iff_of_false ?_ (List.cons_ne_nil _ _)
    cases h : first.improvement.isNaN with
    | true =>
      rw [ofPoints_of_isNaN rest h]
      exact nofun
    | false =>
      obtain ⟨-, best, -, -, hbest, -⟩ := exists_leads rest h
      rw [ofPoints_eq_some hbest]
      exact nofun

/-! ## By index -/

/-- Point `i` has an improvement, and no other improvement is above it. -/
def IsMaximum (points : List ScalingPoint) (i : ℕ) : Prop :=
  ∃ p, points[i]? = some p ∧ p.improvement.isNaN = false ∧
    ∀ q ∈ points, ¬ p.improvement < q.improvement

namespace Leads

variable {before after : List ScalingPoint} {best : ScalingPoint}

theorem getElem? (before after : List ScalingPoint) (best : ScalingPoint) :
    (before ++ best :: after)[before.length]? = some best := by
  simp

theorem mem_before {j : ℕ} {q : ScalingPoint} (hj : j < before.length)
    (hq : (before ++ best :: after)[j]? = some q) : q ∈ before := by
  rw [List.getElem?_append_left hj] at hq
  exact List.mem_of_getElem? hq

/-- **The leading point is the first maximum.** -/
theorem isLeast (h : Leads before best after) :
    IsLeast {i | IsMaximum (before ++ best :: after) i} before.length := by
  constructor
  · exact ⟨best, getElem? before after best, h.number, fun q hq => h.not_lt hq⟩
  · rintro j ⟨q, hq, hnumber, hgreatest⟩
    by_contra hj
    rw [Nat.not_le] at hj
    exact hgreatest best (by simp) (h.above q (mem_before hj hq) hnumber)

end Leads

/-- **The optimum is the first maximum.**  There is none if and only if there is no point.  If the
first improvement is a number, the optimum is that of the point with the least index whose
improvement is a number that no improvement exceeds.  So all numbers are at most its improvement,
those before it are below, and if the amounts ascend in whatever sense, any other maximum is at a
greater amount. -/
theorem ofPoints_first_maximum (points : List ScalingPoint) :
    (ofPoints points = none ↔ points = []) ∧
      ∀ first, points.head? = some first → first.improvement.isNaN = false →
        ∃ i p, IsLeast {i | IsMaximum points i} i ∧ points[i]? = some p ∧
          ofPoints points = some (ofPoint p) ∧
          (∀ q ∈ points, q.improvement.isNaN = false → q.improvement ≤ p.improvement) ∧
          (∀ j < i, ∀ q, points[j]? = some q → q.improvement.isNaN = false →
            q.improvement < p.improvement) ∧
          ∀ below : Float → Float → Prop, points.Pairwise (fun q r => below q.amount r.amount) →
            ∀ j q, IsMaximum points j → points[j]? = some q → j = i ∨ below p.amount q.amount := by
  refine ⟨ofPoints_eq_none_iff, ?_⟩
  intro first hfirst hnumber
  obtain ⟨rest, rfl⟩ := List.head?_eq_some_iff.mp hfirst
  obtain ⟨before, best, after, hsame, hbest, hleads⟩ := exists_leads rest hnumber
  rw [← hsame] at hbest ⊢
  refine ⟨before.length, best, hleads.isLeast, Leads.getElem? before after best,
    ofPoints_eq_some hbest, fun q hq => hleads.le hq,
    fun j hj q hq => hleads.above q (Leads.mem_before hj hq), ?_⟩
  intro below hascending j q hmaximum hq
  rcases (hleads.isLeast.2 hmaximum).eq_or_lt with heq | hlt
  · exact .inl heq.symm
  · obtain ⟨hi, hbest⟩ := List.getElem?_eq_some_iff.mp (Leads.getElem? before after best)
    obtain ⟨hj, hq⟩ := List.getElem?_eq_some_iff.mp hq
    have hbelow := List.pairwise_iff_getElem.mp hascending before.length j hi hj hlt
    rw [hbest, hq] at hbelow
    exact .inr hbelow

/-- Four points: one that is no number between two that are equally good. -/
def tied : List ScalingPoint :=
  [(1.0, 2.0), (2.0, 5.0), (3.0, 0.0 / 0.0), (4.0, 5.0)].map fun (amount, improvement) =>
    { amount, units := toUnits amount, optimizedEfficiency := 90.0 + improvement
      unoptimizedEfficiency := 90.0, improvement }

theorem ofPoints_first_maximum_tied :
    ∃ i p, IsLeast {i | IsMaximum tied i} i ∧ tied[i]? = some p ∧
      ofPoints tied = some (ofPoint p) ∧ p.amount = 2.0 ∧
      ∀ j q, IsMaximum tied j → tied[j]? = some q → j = i ∨ 2.0 < q.amount := by
  obtain ⟨i, p, hleast, hp, hoptimum, -, -, hties⟩ :=
    (ofPoints_first_maximum tied).2 _ rfl (by decide +kernel)
  have hamount : p.amount = 2.0 := by
    have hvalue : (ofPoints tied).map (·.amount) = some 2.0 := by decide +kernel
    rw [hoptimum] at hvalue
    exact Option.some.inj hvalue
  refine ⟨i, p, hleast, hp, hoptimum, hamount, ?_⟩
  rw [← hamount]
  exact hties (· < ·) (by decide +kernel)

end ScalingOptimum
end TransferCost
