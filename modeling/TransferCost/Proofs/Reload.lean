import TransferCost.Analysis
import TransferCost.Proofs.Intake
import TransferCost.Proofs.Json.Decode

/-!
# A store that is written is read back

The samples of a store are written with all of their fields.  They are read as records of which any
field may be missing, and are then completed and checked like records from anywhere else.  So two
formats have to agree, and the check has to let through again what it has let through before.

## 1.  One sample

`Record.ofSample` is the record in which nothing is missing.  `Record.decodes_ofSample` says that a
written sample is read as this record, and `Record.complete_ofSample` that the record is completed
to the sample, if the sample is valid.

## 2.  The document

`Intake.ofStore` is the document with all groups, and no others.  `reload_toJson` takes it into the
empty store.

The only thing that the text cannot hold is a quantity that is no finite number.  In a valid sample
this can be the efficiency alone, but the theorem asks it of every quantity.
-/

namespace TransferCost

open Json (Decodes Fills)

/-! ## 1.  One sample -/

/-- The quantities of a sample. -/
def Sample.quantities (x : Sample) : List Float :=
  [x.amount, x.totalCost, x.receivedAmount, x.efficiency, x.timeMs] ++
    CostKind.all.map x.breakdown.get

/-- Every quantity of the sample is a finite number. -/
def Sample.HasFiniteQuantities (x : Sample) : Prop :=
  ∀ q ∈ x.quantities, q.isFinite = true

instance (x : Sample) : Decidable x.HasFiniteQuantities :=
  inferInstanceAs (Decidable (∀ q ∈ x.quantities, q.isFinite = true))

theorem Sample.HasFiniteQuantities.share {x : Sample} (h : x.HasFiniteQuantities) (k : CostKind) :
    (x.breakdown.get k).isFinite = true :=
  h _ (List.mem_append_right _ (List.mem_map_of_mem k.mem_all))

namespace Record

/-- The record that says all there is to say of a sample. -/
def ofSample (x : Sample) : Record where
  amount := some x.amount
  recipientCount := some x.recipientCount
  totalCost := some x.totalCost
  receivedAmount := some x.receivedAmount
  efficiency := some x.efficiency
  timeMs := some x.timeMs
  breakdown := some (x.breakdown.map some)
  accountsCreated := some x.accountsCreated
  accountsRemaining := some x.accountsRemaining

theorem complete_map_some (b : Breakdown) : PartialBreakdown.complete (b.map some) = b := by
  apply PerKind.ext_get
  intro k
  rw [PartialBreakdown.complete, PerKind.get_map, PerKind.get_map, Option.getD_some]

/-- **Nothing is filled in where nothing is missing**, and what was valid is valid again. -/
theorem complete_ofSample {x : Sample} (h : x.IsValid) : (ofSample x).complete = .ok x := by
  have hfill : (ofSample x).fill = .ok x := by
    have hbreakdown := complete_map_some x.breakdown
    show Except.ok
        ({ x with breakdown := PartialBreakdown.complete (x.breakdown.map some) } : Sample) = .ok x
    rw [hbreakdown]
  have hvalid : x.violation? = none := h
  rw [complete, hfill]
  dsimp only [bind, Except.bind]
  rw [hvalid]
  rfl

open Json in
theorem decodes_real {q : Float} (hq : q.isFinite = true) :
    Decodes (decodeNullable decodeReal) (.real q) (some q) :=
  (Decodes.real hq).nullable (reading_real_ne_null hq)

open Json in
theorem decodes_count (n : UInt32) :
    Decodes (decodeNullable decodeCount32) (.count n.toNat) (some n) :=
  (Decodes.count32 n).nullable (reading_count_ne_null n.toNat)

theorem nodup_breakdownShape : (breakdownShape.fields.map (·.name)).Nodup := by
  decide

theorem nodup_shape : (shape.fields.map (·.name)).Nodup := by
  decide

/-- Written shares are read as shares of which none is missing. -/
theorem decodes_breakdown {b : Breakdown} (h : ∀ k, (b.get k).isFinite = true) :
    Decodes breakdownShape.read b.toJson (b.map some) := by
  have hfills := Fills.each (fun k => decodes_real (h k)) CostKind.key .defaulted
    (fun k q (r : PartialBreakdown) => r.set k q) CostKind.all (.fill none)
  exact Decodes.record nodup_breakdownShape hfills

/-- **A written sample is read as the record that says all of it.** -/
theorem decodes_ofSample {x : Sample} (h : x.HasFiniteQuantities) :
    Decodes shape.read x.toJson (ofSample x) := by
  have hamount : x.amount.isFinite = true := h _ (by simp [Sample.quantities])
  have htotal : x.totalCost.isFinite = true := h _ (by simp [Sample.quantities])
  have hreceived : x.receivedAmount.isFinite = true := h _ (by simp [Sample.quantities])
  have hefficiency : x.efficiency.isFinite = true := h _ (by simp [Sample.quantities])
  have htime : x.timeMs.isFinite = true := h _ (by simp [Sample.quantities])
  have hbreakdown := (decodes_breakdown h.share).nullable (Json.reading_object_ne_null _)
  refine Decodes.record nodup_shape ?_
  exact .field (decodes_real hamount) <| .field (decodes_count x.recipientCount) <|
    .field (decodes_real htotal) <| .field (decodes_real hreceived) <|
    .field (decodes_real hefficiency) <| .field (decodes_real htime) <|
    .field hbreakdown <| .field (decodes_count x.accountsCreated) <|
    .field (decodes_count x.accountsRemaining) <| .nil _

end Record

/-! ## 2.  The document -/

namespace Intake

theorem nodup_modesShape : (modesShape.fields.map (·.name)).Nodup := by
  decide

theorem nodup_shape : (shape.fields.map (·.name)).Nodup := by
  decide

/-- The document with the samples of a store: every group is there, and no other. -/
def ofStore (s : Store) : Intake where
  record := .ofFn fun t => some ⟨.ofFn fun o => some ((s.samples ⟨o, t⟩).map Record.ofSample), []⟩
  unknown := []

/-- **A written store is read as the document with its samples.** -/
theorem ofString_toJson {s : Store} (h : ∀ p, ∀ x ∈ s.samples p, x.HasFiniteQuantities) :
    Intake.ofString s.toJson.prettyText = .ok (ofStore s) := by
  have hsamples (t : TransferType) (o : Optimization) :=
    (Decodes.array fun x hx => Record.decodes_ofSample (h ⟨o, t⟩ x hx)).nullable
      (Json.reading_array_ne_null _)
  have hmodes (t : TransferType) := by
    have hfills := Fills.each (hsamples t) Optimization.key .nullable
      (fun o x (m : PerMode (Option (List Record))) => m.modify o fun _ => x)
      Optimization.all (.fill none)
    exact (Decodes.kept nodup_modesShape hfills (maxDepth - 2)).nullable
      (Json.reading_object_ne_null _)
  have hfills := Fills.each hmodes TransferType.key .nullable
    (fun t x (d : PerType (Option ModeRecords)) => d.modify t fun _ => x)
    TransferType.all (.fill none)
  exact (Decodes.kept nodup_shape hfills (maxDepth - 1)).string

theorem recordsOf_ofStore (s : Store) (p : Partition) :
    (ofStore s).recordsOf p = (s.samples p).map Record.ofSample := by
  simp [recordsOf, records?, ofStore]

theorem recordCount_ofStore (s : Store) : (ofStore s).recordCount = s.size := by
  simp [recordCount, recordsOf_ofStore, Store.size, Store.counts]

theorem map_complete_ofSample {xs : List Sample} (h : ∀ x ∈ xs, x.IsValid) :
    (xs.map Record.ofSample).map Record.complete = xs.map .ok := by
  rw [List.map_map]
  apply List.map_congr_left
  intro x hx
  exact Record.complete_ofSample (h x hx)

/-- The document of a store completes to the groups that it was made of. -/
theorem complete_ofStore {s : Store} (h : ∀ p, ∀ x ∈ s.samples p, x.IsValid) :
    ∃ out, (ofStore s).complete = .ok out ∧ Store.countAll out = s.size ∧
      ∀ p, samplesFor out p = s.samples p := by
  have hsound : (ofStore s).IsSound := by
    intro p r hr
    rw [recordsOf_ofStore, List.mem_map] at hr
    obtain ⟨x, hx, rfl⟩ := hr
    exact ⟨x, Record.complete_ofSample (h p x hx)⟩
  obtain ⟨out, hout, hcount, hfor⟩ := complete_of_isSound hsound
  refine ⟨out, hout, hcount.trans (recordCount_ofStore s), ?_⟩
  intro p
  have hp := hfor p
  rw [recordsOf_ofStore, map_complete_ofSample (h p)] at hp
  exact List.map_injective_iff.mpr (fun _ _ => Except.ok.inj) hp

end Intake

/-- **A store that is written can be read back.**  Let every sample be valid and every quantity a
finite number.  Then the text of the store is taken into the empty store, with as many samples as
there were.  Each partition holds the samples that it held, in the same order, and with the same
doubles, the sign of a zero included.  So every analysis has the same outcome as before. -/
theorem Store.reload_toJson (s : Store)
    (h : ∀ p, ∀ x ∈ s.samples p, x.IsValid ∧ x.HasFiniteQuantities) :
    ∃ s', (Store.empty.ingestText s.toJson.prettyText).value = .ok (s.size, s') ∧
      (∀ p, s'.samples p = s.samples p) ∧
      ∀ threshold, Analysis.ofStore s' threshold = Analysis.ofStore s threshold := by
  obtain ⟨out, hout, hcount, hfor⟩ := Intake.complete_ofStore fun p x hx => (h p x hx).1
  have hread := Intake.ofString_toJson fun p x hx => (h p x hx).2
  have hsamples (p : Partition) : (Store.empty.appendAll out).samples p = s.samples p := by
    rw [Store.samples_appendAll, Store.samples_empty, List.nil_append, hfor p]
  have hsame : Store.empty.appendAll out = s :=
    congrArg Store.mk (PerPartition.ext_get hsamples)
  refine ⟨Store.empty.appendAll out, ?_, hsamples, ?_⟩
  · rw [Store.ingestText, hread]
    dsimp only
    rw [Store.ingest, hout, ← hcount]
    rfl
  · intro threshold
    rw [hsame]

/-- A sample with a negative zero for its time and for one of its shares, and with an efficiency
that has no short decimal. -/
def signedZeros : Sample where
  amount := 3000000000.0
  recipientCount := 1
  totalCost := 5000.0
  receivedAmount := 1000000000.0
  efficiency := Sample.efficiencyOf 1000000000.0 3000000000.0
  timeMs := -0.0
  breakdown := ⟨5000.0, -0.0, 0.0, 0.0⟩
  accountsCreated := 0
  accountsRemaining := 2

/-- The store with this sample alone. -/
def Store.ofSignedZeros : Store :=
  Store.empty.append ⟨.optimized, .multiWallet⟩ [signedZeros]

/-- The signs of the zeros survive. -/
theorem Store.reload_toJson_signed_zeros :
    (∀ p, ∀ x ∈ ofSignedZeros.samples p, x.IsValid ∧ x.HasFiniteQuantities) ∧
      ∃ s', (Store.empty.ingestText ofSignedZeros.toJson.prettyText).value = .ok (1, s') ∧
        s'.samples ⟨.optimized, .multiWallet⟩ = [signedZeros] := by
  have h : ∀ p, ∀ x ∈ ofSignedZeros.samples p, x.IsValid ∧ x.HasFiniteQuantities := by
    intro p x hx
    rw [ofSignedZeros, Store.samples_append, Store.samples_empty, List.nil_append] at hx
    split_ifs at hx
    · rw [List.mem_singleton] at hx
      subst hx
      exact ⟨by decide +kernel, by decide +kernel⟩
    · exact absurd hx (by simp)
  obtain ⟨s', hvalue, hsamples, -⟩ := Store.reload_toJson ofSignedZeros h
  exact ⟨h, s', hvalue, hsamples ⟨.optimized, .multiWallet⟩⟩

end TransferCost
