import TransferCost.Proofs.Json.Decode
import TransferCost.Proofs.Quantities
import TransferCost.Proofs.Spelling

/-!
# A result document that is written is read back

A result document nests records in records, five levels deep, with metrics that may be missing,
lists of any length, an object whose keys are kinds of costs, and texts that spell something else.
Every one of these has a writer and a reader of its own, and this file proves that they agree.

## 1.  The parts of an analysis

One lemma for each part, in the order of the parts.  A part asks of its quantities to be finite
numbers, because JSON has no word for any other, and of its counts to fit into 64 bits, which is all
that a reader of counts takes.

## 2.  The reductions of the kinds of costs

A kind without a reduction is left out of the object, where every other missing metric is written as
`null`.  So these reductions are read by putting those that are there into the record that has none:
`get_foldl_entriesOf`.

## 3.  The document

`ResultDocument.IsWritable` collects what the parts ask for, and `ResultDocument.ofString_text` is
the round trip of the text.
-/

namespace TransferCost

open Json (Decodes Fills decodeReal)

/-! ## 1.  The parts of an analysis -/

theorem decodes_metric {x? : Option Float} (h : AllFinite x?.toList) :
    Decodes decodeMetric (metricJson x?) x? := by
  rw [allFinite_toList] at h
  exact Decodes.optional fun x hx => ⟨.real (h x hx), Json.reading_real_ne_null (h x hx)⟩

theorem decodes_breakdown {b : Breakdown} (h : AllFinite (CostKind.all.map b.get)) :
    Decodes Breakdown.shape.read b.toJson b := by
  rw [allFinite_map] at h
  have hfills := Fills.each (fun k => Decodes.real (h k k.mem_all)) CostKind.key .required
    (fun k x (b : Breakdown) => b.set k x) CostKind.all (.fill 0.0)
  exact Decodes.record (by decide) hfills

theorem Means.decodes_toJson {m : Means} (h : AllFinite m.quantities)
    (hcount : m.count < Nat.pow 2 64) : Decodes Means.shape.read m.toJson m := by
  simp only [Means.quantities, allFinite_append, allFinite_cons, allFinite_nil, and_true] at h
  obtain ⟨⟨⟨hefficiency, htotal, htime⟩, hbreakdown⟩, hcreated, hremaining⟩ := h
  refine Decodes.record (by decide) ?_
  exact .field (.count64 hcount) <| .field (.real hefficiency) <| .field (.real htotal) <|
    .field (.real htime) <| .field (decodes_breakdown hbreakdown) <| .field (.real hcreated) <|
    .field (.real hremaining) <| .nil _

theorem Contrast.decodes_toJson {c : Contrast} (h : AllFinite c.quantities) :
    Decodes Contrast.shape.read c.toJson c := by
  simp only [Contrast.quantities, allFinite_append, allFinite_cons] at h
  obtain ⟨hefficiency, hcost, htime⟩ := h
  refine Decodes.record (by decide) ?_
  exact .field (.real hefficiency) <| .field (decodes_metric hcost) <|
    .field (decodes_metric htime) <| .nil _

theorem ScalingPoint.decodes_toJson {p : ScalingPoint} (h : AllFinite p.quantities) :
    Decodes ScalingPoint.shape.read p.toJson p := by
  simp only [ScalingPoint.quantities, allFinite_cons, allFinite_nil, and_true] at h
  obtain ⟨hamount, hunits, hoptimized, hunoptimized, himprovement⟩ := h
  refine Decodes.record (by decide) ?_
  exact .field (.real hamount) <| .field (.real hunits) <| .field (.real hoptimized) <|
    .field (.real hunoptimized) <| .field (.real himprovement) <| .nil _

theorem ScalingOptimum.decodes_toJson {o : ScalingOptimum} (h : AllFinite o.quantities) :
    Decodes ScalingOptimum.shape.read o.toJson o := by
  simp only [ScalingOptimum.quantities, allFinite_cons, allFinite_nil, and_true] at h
  obtain ⟨hamount, hunits, himprovement⟩ := h
  refine Decodes.record (by decide) ?_
  exact .field (.real hamount) <| .field (.real hunits) <| .field (.real himprovement) <| .nil _

theorem CostKind.lookup_key (k : CostKind) : known.lookup k.key = some k := by
  cases k <;> rfl

theorem TransferType.lookup_key (t : TransferType) : known.lookup t.key = some t := by
  cases t <;> rfl

theorem SizeCost.decodes_toJson {c : SizeCost} (h : AllFinite c.quantities) :
    Decodes SizeCost.shape.read c.toJson c := by
  simp only [SizeCost.quantities, allFinite_append, allFinite_cons, allFinite_nil, and_true] at h
  obtain ⟨⟨hamount, hunits, hunoptimized, hoptimized, hsaving⟩, hcost⟩ := h
  refine Decodes.record (by decide) ?_
  exact .field (.variant c.transferType.lookup_key) <| .field (.real hamount) <|
    .field (.real hunits) <| .field (.real hunoptimized) <| .field (.real hoptimized) <|
    .field (.real hsaving) <| .field (decodes_metric hcost) <| .nil _

theorem Scaling.decodes_toJson {s : Scaling} (h : AllFinite s.quantities) :
    Decodes Scaling.shape.read s.toJson s := by
  simp only [Scaling.quantities, allFinite_append, allFinite_flatMap, Option.mem_toList] at h
  obtain ⟨⟨hpoints, hoptimum⟩, hcosts⟩ := h
  have hpoints' := Decodes.list fun p hp => ScalingPoint.decodes_toJson (hpoints p hp)
  have hoptimum' := Decodes.optional fun o ho =>
    ⟨ScalingOptimum.decodes_toJson (hoptimum o ho), Json.reading_object_ne_null _⟩
  have hcosts' := Decodes.list fun c hc => SizeCost.decodes_toJson (hcosts c hc)
  refine Decodes.record (by decide) ?_
  exact .field hpoints' <| .field hoptimum' <| .field hcosts' <| .nil _

/-! ## 2.  The reductions of the kinds of costs -/

namespace Improvement

/-- The reductions that some kinds have, each with its kind. -/
def entriesOf (r : PerKind (Option Float)) (ks : List CostKind) : List (CostKind × Float) :=
  ks.filterMap fun k => (r.get k).map (k, ·)

theorem get_of_mem_entriesOf {r : PerKind (Option Float)} {ks : List CostKind}
    {e : CostKind × Float} (he : e ∈ entriesOf r ks) : r.get e.1 = some e.2 := by
  obtain ⟨k, -, hk⟩ := List.mem_filterMap.mp he
  obtain ⟨x, hx, rfl⟩ := Option.map_eq_some_iff.mp hk
  exact hx

theorem kindsJson_eq (r : PerKind (Option Float)) :
    kindsJson r = .object ((entriesOf r CostKind.all).map fun e => (e.1.key, .real e.2)) := by
  simp [kindsJson, entriesOf, PerKind.toList, List.map_filterMap, List.filterMap_map,
    Function.comp_def]

/-- **A kind that has a reduction gets it, and any other keeps what it had.** -/
theorem get_foldl_entriesOf (r : PerKind (Option Float)) (ks : List CostKind)
    (acc : PerKind (Option Float)) (k : CostKind) :
    ((entriesOf r ks).foldl (fun acc (k, x) => acc.set k (some x)) acc).get k =
      if k ∈ ks then (r.get k).or (acc.get k) else acc.get k := by
  induction ks generalizing acc with
  | nil => rfl
  | cons k' ks ih =>
    cases hk' : r.get k' with
    | none =>
      have hskip : entriesOf r (k' :: ks) = entriesOf r ks :=
        List.filterMap_cons_none (by rw [hk', Option.map_none])
      rw [hskip, ih]
      by_cases hk : k = k'
      · subst hk
        simp [hk']
      · simp [hk]
    | some x =>
      have hput : entriesOf r (k' :: ks) = (k', x) :: entriesOf r ks :=
        List.filterMap_cons_some (by rw [hk', Option.map_some])
      rw [hput, List.foldl_cons, ih, PerKind.get_set]
      by_cases hk : k = k'
      · subst hk
        simp [hk']
      · simp [hk]

theorem decodes_kinds {r : PerKind (Option Float)}
    (h : AllFinite (CostKind.all.flatMap fun k => (r.get k).toList)) :
    Decodes decodeKinds (kindsJson r) r := by
  simp only [allFinite_flatMap, allFinite_toList] at h
  have hentries : Decodes (Json.decodeMap CostKind.known decodeReal) (kindsJson r)
      (entriesOf r CostKind.all) := by
    rw [kindsJson_eq]
    refine Decodes.map (fun e _ => e.1.lookup_key) fun e he => .real ?_
    exact h e.1 e.1.mem_all e.2 (get_of_mem_entriesOf he)
  have hfold : (entriesOf r CostKind.all).foldl (fun acc (k, x) => acc.set k (some x))
      (.fill none) = r := by
    apply PerKind.ext_get
    intro k
    rw [get_foldl_entriesOf, if_pos k.mem_all, PerKind.get_fill, Option.or_none]
  unfold Decodes at hentries ⊢
  rw [decodeKinds, hentries]
  exact congrArg Except.ok hfold

theorem decodes_toJson {i : Improvement} (h : AllFinite i.quantities) :
    Decodes Improvement.shape.read i.toJson i := by
  simp only [Improvement.quantities, allFinite_append, allFinite_cons] at h
  obtain ⟨hefficiency, ⟨hcost, htime⟩, hkinds⟩ := h
  refine Decodes.record (by decide) ?_
  exact .field (.real hefficiency) <| .field (decodes_metric hcost) <|
    .field (decodes_metric htime) <| .field (decodes_kinds hkinds) <| .nil _

end Improvement

/-! ## 3.  The document -/

theorem TypeAnalysis.decodes_toJson {a : TypeAnalysis} (h : AllFinite a.quantities)
    (hcount : ∀ o, (a.means.get o).count < Nat.pow 2 64) :
    Decodes TypeAnalysis.shape.read a.toJson a := by
  simp only [TypeAnalysis.quantities, allFinite_append, allFinite_flatMap] at h
  obtain ⟨hmeans, himprovement⟩ := h
  have hmodes := Fills.each (fun o => Means.decodes_toJson (hmeans o o.mem_all) (hcount o))
    Optimization.key .required
    (fun o m (a : TypeAnalysis) => { a with means := a.means.modify o fun _ => m })
    Optimization.all TypeAnalysis.blank
  refine Decodes.record (by decide) (hmodes.append ?_)
  exact .field (Improvement.decodes_toJson himprovement) <| .nil _

/-- The counts of the analysis fit into 64 bits. -/
def Analysis.HasCounts (a : Analysis) : Prop :=
  ∀ t o, ((a.types.get t).means.get o).count < Nat.pow 2 64

theorem Analysis.decodes_toJson {a : Analysis} (h : AllFinite a.quantities) (hcount : a.HasCounts) :
    Decodes Analysis.shape.read a.toJson a := by
  simp only [Analysis.quantities, allFinite_append, allFinite_flatMap] at h
  obtain ⟨⟨htypes, hcontrast⟩, hscaling⟩ := h
  have htypes' := Fills.each
    (fun t => TypeAnalysis.decodes_toJson (htypes t t.mem_all) (hcount t))
    TransferType.key .required
    (fun t x (a : Analysis) => { a with types := a.types.modify t fun _ => x })
    TransferType.all Analysis.shape.blank
  refine Decodes.record (by decide) (htypes'.append ?_)
  exact .field (Contrast.decodes_toJson hcontrast) <|
    .field (Scaling.decodes_toJson hscaling) <| .nil _

theorem Metadata.decodes_toJson {m : Metadata} (h : m.generatedAt.IsValid) :
    Decodes Metadata.shape.read m.toJson m := by
  refine Decodes.record (by decide) ?_
  exact .field (.spelled _ _ (Timestamp.ofString?_text h)) <| .field (.text m.version) <|
    .field (.text m.analysisType) <| .field (.text m.description) <|
    .field (.spelled _ _ m.runId.ofString?_text) <| .nil _

namespace ResultDocument

/-- The document can be written without loss.  Its quantities must be finite numbers.  The other two
conditions say that it is a document at all: a count has 64 bits, and the time exists. -/
structure IsWritable (d : ResultDocument) : Prop where
  finite : AllFinite d.results.quantities
  counts : d.results.HasCounts
  time : d.metadata.generatedAt.IsValid

theorem decodes_toJson {d : ResultDocument} (h : d.IsWritable) :
    Decodes shape.read d.toJson d := by
  refine Decodes.record (by decide) ?_
  exact .field (Analysis.decodes_toJson h.finite h.counts) <|
    .field (Metadata.decodes_toJson h.time) <| .nil _

theorem ofString_eq_ok {d : ResultDocument} {text : String}
    (h : Json.decodeString shape.read text = .ok d) : ofString text = .ok d := by
  rw [ofString, h]

/-- **A document that is written is read back.**  Whatever metrics are missing, however many points
and rows there are, and whatever characters the description has: the text of the document is read as
the document itself, every quantity with the same bits. -/
theorem ofString_text {d : ResultDocument} (h : d.IsWritable) : ofString d.text = .ok d :=
  ofString_eq_ok (decodes_toJson h).string

/-- Means of three samples, with a negative zero among them. -/
def threeSamples : Means where
  count := 3
  efficiency := 99.9
  totalCost := 5000.0
  timeMs := 0.0
  breakdown := ⟨5000.0, -0.0, 0.0, 0.0⟩
  accountsCreated := 1.0
  accountsRemaining := 0.1

/-- A document with reductions of nought and with reductions that are missing, with a row but no
point, with a leap second, and with a description that has to be escaped. -/
def withGaps : ResultDocument where
  results :=
    { types :=
        ⟨{ means := .fill threeSamples
           improvement := ⟨-0.0, some 0.0, none, ⟨some 0.0, none, none, some (-0.0)⟩⟩ },
         { means := .fill threeSamples
           improvement := ⟨12.5, none, some 33.3, .fill none⟩ }⟩
      contrast := ⟨12.5, none, none⟩
      scaling :=
        { points := []
          optimum := some ⟨5e-324, 0.0, 1.7e308⟩
          costs := [⟨.multiWallet, 1e9, 1.0, 0.3, 0.1, 0.2, none⟩] } }
  metadata :=
    { generatedAt := ⟨⟨2016, 12, 31⟩, 86399, 1500000000⟩
      version := ""
      analysisType := "cost_efficiency"
      description := "\"C:\\\"\t\x01 — π 😀"
      runId := .ofNat 0xdeadbeef }

/-- Every omitted metric comes back omitted, and every zero with its sign. -/
theorem ofString_text_withGaps : withGaps.IsWritable ∧ ofString withGaps.text = .ok withGaps := by
  have h : withGaps.IsWritable := by
    refine ⟨by decide +kernel, ?_, ⟨by decide, by decide, by decide, by decide⟩⟩
    intro t o
    cases t <;> cases o <;> decide
  exact ⟨h, ofString_text h⟩

end ResultDocument
end TransferCost
