import TransferCost.Proofs.Json.Yields
import TransferCost.Proofs.ResultDocument
import TransferCost.Proofs.Sample

/-!
# Which analyses can be read back

A document is written whatever its analysis is, and not every document can be read again.  The
converse of the round trip is that nothing else can ever be read: whatever a text is, the analysis
that is taken from it holds finite numbers only, and counts of 64 bits.

`Analysis.yields_shape` says this, with one lemma for each of its parts, and
`ResultDocument.readsBack_iff` is the exact condition under which a written document is read back.
-/

namespace TransferCost

open Json (Yields Field decodeReal)

/-! ## The parts of an analysis -/

theorem yields_metric : Yields decodeMetric fun x? => AllFinite x?.toList :=
  Yields.real.nullable.imp fun _ h => allFinite_toList.mpr h

theorem Breakdown.yields_shape :
    Yields shape.read fun b => AllFinite (CostKind.all.map b.get) := by
  refine .record (by simp [shape, CostKind.all, PerKind.get_fill, isFinite_zero]) ?_
  intro f hf
  obtain ⟨k, -, rfl⟩ := List.mem_map.mp hf
  refine Field.keeps_of .real _ _ ?_
  intro x b hx hb
  rw [allFinite_map] at hb ⊢
  intro k' hk'
  rw [PerKind.get_set]
  split_ifs
  · exact hx
  · exact hb k' hk'

/-- The quantities of the means are finite, and their count fits into 64 bits. -/
def Means.IsReadable (m : Means) : Prop :=
  AllFinite m.quantities ∧ m.count < Nat.pow 2 64

theorem Means.isReadable_blank : shape.blank.IsReadable := by
  refine ⟨?_, by decide⟩
  simp [shape, quantities, CostKind.all, PerKind.get_fill, isFinite_zero]

theorem Means.yields_shape : Yields shape.read Means.IsReadable := by
  refine .listed isReadable_blank
    ⟨Field.keeps_of (.count _ _) _ _ fun n m hn hm => ⟨hm.1, hn⟩, Field.keeps_of .real _ _ ?_,
      Field.keeps_of .real _ _ ?_, Field.keeps_of .real _ _ ?_,
      Field.keeps_of Breakdown.yields_shape _ _ ?_, Field.keeps_of .real _ _ ?_,
      Field.keeps_of .real _ _ ?_⟩
  all_goals
    intro x m hx hm
    simp only [IsReadable, quantities, allFinite_cons, allFinite_append] at hm ⊢
    tauto

theorem Contrast.allFinite_blank : AllFinite shape.blank.quantities := by
  simp [shape, quantities, isFinite_zero]

theorem Contrast.yields_shape : Yields shape.read fun c => AllFinite c.quantities := by
  refine .listed allFinite_blank
    ⟨Field.keeps_of .real _ _ ?_, Field.keeps_of yields_metric _ _ ?_,
      Field.keeps_of yields_metric _ _ ?_⟩
  all_goals
    intro x c hx hc
    simp only [quantities, allFinite_cons, allFinite_append] at hc ⊢
    tauto

theorem ScalingPoint.yields_shape : Yields shape.read fun p => AllFinite p.quantities := by
  refine .listed (by simp [shape, quantities, isFinite_zero])
    ⟨Field.keeps_of .real _ _ ?_, Field.keeps_of .real _ _ ?_, Field.keeps_of .real _ _ ?_,
      Field.keeps_of .real _ _ ?_, Field.keeps_of .real _ _ ?_⟩
  all_goals
    intro x p hx hp
    simp only [quantities, allFinite_cons] at hp ⊢
    tauto

theorem ScalingOptimum.yields_shape : Yields shape.read fun o => AllFinite o.quantities := by
  refine .listed (by simp [shape, quantities, isFinite_zero])
    ⟨Field.keeps_of .real _ _ ?_, Field.keeps_of .real _ _ ?_, Field.keeps_of .real _ _ ?_⟩
  all_goals
    intro x o hx ho
    simp only [quantities, allFinite_cons] at ho ⊢
    tauto

theorem SizeCost.yields_shape : Yields shape.read fun c => AllFinite c.quantities := by
  refine .listed (by simp [shape, quantities, isFinite_zero])
    ⟨Field.keeps_of (.any _) _ _ fun t c _ hc => hc, Field.keeps_of .real _ _ ?_,
      Field.keeps_of .real _ _ ?_, Field.keeps_of .real _ _ ?_, Field.keeps_of .real _ _ ?_,
      Field.keeps_of .real _ _ ?_, Field.keeps_of yields_metric _ _ ?_⟩
  all_goals
    intro x c hx hc
    simp only [quantities, allFinite_cons, allFinite_append] at hc ⊢
    tauto

theorem Scaling.allFinite_blank : AllFinite shape.blank.quantities := by
  simp [shape, quantities]

theorem Scaling.yields_shape : Yields shape.read fun s => AllFinite s.quantities := by
  refine .listed allFinite_blank
    ⟨Field.keeps_of ScalingPoint.yields_shape.array _ _ ?_,
      Field.keeps_of ScalingOptimum.yields_shape.nullable _ _ ?_,
      Field.keeps_of SizeCost.yields_shape.array _ _ ?_⟩
  all_goals
    intro x s hx hs
    simp only [quantities, allFinite_append, allFinite_flatMap, Option.mem_toList] at hs ⊢
    tauto

/-- A kind has no reduction but one that was read. -/
theorem Improvement.finite_of_foldl {entries : List (CostKind × Float)}
    (hall : ∀ e ∈ entries, e.2.isFinite = true) {r : PerKind (Option Float)}
    (hr : ∀ k, ∀ x ∈ r.get k, x.isFinite = true) (k : CostKind) :
    ∀ x ∈ (entries.foldl (fun r (k, x) => r.set k (some x)) r).get k, x.isFinite = true := by
  induction entries generalizing r with
  | nil => exact hr k
  | cons e rest ih =>
    obtain ⟨he, hrest⟩ := List.forall_mem_cons.mp hall
    apply ih hrest
    intro k' x hx
    rw [PerKind.get_set] at hx
    split_ifs at hx
    · obtain rfl := Option.some.inj hx
      exact he
    · exact hr k' x hx

theorem Improvement.yields_kinds :
    Yields decodeKinds fun r => AllFinite (CostKind.all.flatMap fun k => (r.get k).toList) := by
  intro v r hr
  obtain ⟨entries, hentries, hr⟩ := bind_eq_ok_iff.mp hr
  have hall := Yields.real.map CostKind.known v entries hentries
  obtain rfl := Except.ok.inj hr
  rw [allFinite_flatMap]
  intro k _
  rw [allFinite_toList]
  refine finite_of_foldl hall ?_ k
  intro k' x hx
  rw [PerKind.get_fill] at hx
  exact absurd hx (by simp)

theorem Improvement.allFinite_blank : AllFinite shape.blank.quantities := by
  simp [shape, quantities, CostKind.all, PerKind.get_fill, isFinite_zero]

theorem Improvement.yields_shape : Yields shape.read fun i => AllFinite i.quantities := by
  refine .listed allFinite_blank
    ⟨Field.keeps_of .real _ _ ?_, Field.keeps_of yields_metric _ _ ?_,
      Field.keeps_of yields_metric _ _ ?_, Field.keeps_of yields_kinds _ _ ?_⟩
  all_goals
    intro x i hx hi
    simp only [quantities, allFinite_cons, allFinite_append] at hi ⊢
    tauto

/-! ## The whole -/

/-- The analysis of a transfer type can be read: its quantities are finite, and its counts fit into
64 bits. -/
def TypeAnalysis.IsReadable (a : TypeAnalysis) : Prop :=
  (∀ o, (a.means.get o).IsReadable) ∧ AllFinite a.improvement.quantities

theorem TypeAnalysis.isReadable_blank : blank.IsReadable := by
  refine ⟨?_, Improvement.allFinite_blank⟩
  intro o
  show ((PerMode.fill Means.shape.blank).get o).IsReadable
  rw [PerMode.get_fill]
  exact Means.isReadable_blank

theorem TypeAnalysis.yields_shape : Yields shape.read TypeAnalysis.IsReadable := by
  refine .record isReadable_blank ?_
  simp only [shape, List.forall_mem_append, List.forall_mem_map, List.forall_mem_cons,
    List.not_mem_nil, false_imp_iff, implies_true, and_true]
  refine ⟨?_, Field.keeps_of Improvement.yields_shape _ _ fun i a hi ha => ⟨ha.1, hi⟩⟩
  intro o _
  refine Field.keeps_of Means.yields_shape _ _ ?_
  intro m a hm ha
  refine ⟨?_, ha.2⟩
  intro o'
  rw [PerMode.get_modify]
  split_ifs
  · exact hm
  · exact ha.1 o'

/-- The analysis can be read. -/
def Analysis.IsReadable (a : Analysis) : Prop :=
  AllFinite a.quantities ∧ a.HasCounts

theorem Analysis.isReadable_iff {a : Analysis} :
    a.IsReadable ↔ (∀ t, (a.types.get t).IsReadable) ∧ AllFinite a.contrast.quantities ∧
      AllFinite a.scaling.quantities := by
  unfold IsReadable TypeAnalysis.IsReadable Means.IsReadable HasCounts
  simp only [quantities, TypeAnalysis.quantities, allFinite_append, allFinite_flatMap]
  constructor
  · rintro ⟨⟨⟨htypes, hcontrast⟩, hscaling⟩, hcounts⟩
    refine ⟨?_, hcontrast, hscaling⟩
    intro t
    exact ⟨fun o => ⟨(htypes t t.mem_all).1 o o.mem_all, hcounts t o⟩, (htypes t t.mem_all).2⟩
  · rintro ⟨htypes, hcontrast, hscaling⟩
    refine ⟨⟨⟨?_, hcontrast⟩, hscaling⟩, fun t o => ((htypes t).1 o).2⟩
    intro t _
    exact ⟨fun o _ => ((htypes t).1 o).1, (htypes t).2⟩

theorem Analysis.isReadable_blank : shape.blank.IsReadable := by
  refine isReadable_iff.mpr ⟨?_, Contrast.allFinite_blank, Scaling.allFinite_blank⟩
  intro t
  show ((PerType.fill TypeAnalysis.blank).get t).IsReadable
  rw [PerType.get_fill]
  exact TypeAnalysis.isReadable_blank

/-- **An analysis that is read is finite**, and its counts fit into 64 bits. -/
theorem Analysis.yields_shape : Yields shape.read Analysis.IsReadable := by
  suffices h : Yields shape.read fun a => (∀ t, (a.types.get t).IsReadable) ∧
      AllFinite a.contrast.quantities ∧ AllFinite a.scaling.quantities from
    h.imp fun _ => isReadable_iff.mpr
  refine .record (isReadable_iff.mp isReadable_blank) ?_
  simp only [shape, List.forall_mem_append, List.forall_mem_map, List.forall_mem_cons,
    List.not_mem_nil, false_imp_iff, implies_true, and_true]
  refine ⟨?_, Field.keeps_of Contrast.yields_shape _ _ fun c a hc ha => ⟨ha.1, hc, ha.2.2⟩,
    Field.keeps_of Scaling.yields_shape _ _ fun s a hs ha => ⟨ha.1, ha.2.1, hs⟩⟩
  intro t _
  refine Field.keeps_of TypeAnalysis.yields_shape _ _ ?_
  intro x a hx ha
  refine ⟨?_, ha.2⟩
  intro t'
  rw [PerType.get_modify]
  split_ifs
  · exact hx
  · exact ha.1 t'

namespace ResultDocument

theorem yields_shape : Yields shape.read fun d => d.results.IsReadable := by
  exact .listed Analysis.isReadable_blank
    ⟨Field.keeps_of Analysis.yields_shape _ _ fun a d ha _ => ha,
      Field.keeps_of (.any _) _ _ fun m d _ hd => hd⟩

/-- A document is read as an analysis that can be read. -/
theorem isReadable_of_ofString {text : String} {d : ResultDocument} (h : ofString text = .ok d) :
    d.results.IsReadable := by
  unfold ofString at h
  cases hread : Json.decodeString shape.read text with
  | error e =>
    rw [hread] at h
    exact absurd h (by simp)
  | ok d' =>
    rw [hread] at h
    obtain rfl := Except.ok.inj h
    exact yields_shape.string hread

/-- **Which documents are read back.**  If its time exists, a document that is written can be read
again, with the same analysis, if and only if its quantities are finite numbers and its counts fit
into 64 bits.  In every other case it cannot be read, or another analysis is. -/
theorem readsBack_iff {d : ResultDocument} (htime : d.metadata.generatedAt.IsValid) :
    (∃ d', ofString d.text = .ok d' ∧ d'.results = d.results) ↔ d.results.IsReadable := by
  constructor
  · rintro ⟨d', hread, hsame⟩
    rw [← hsame]
    exact isReadable_of_ofString hread
  · rintro ⟨hfinite, hcounts⟩
    exact ⟨d, ofString_eq_ok (decodes_toJson ⟨hfinite, hcounts, htime⟩).string, rfl⟩

end ResultDocument

end TransferCost
