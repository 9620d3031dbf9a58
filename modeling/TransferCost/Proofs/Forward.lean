import TransferCost.Proofs.Intake
import TransferCost.Proofs.Json.Spacing
import TransferCost.Proofs.Reload

/-!
# Documents of later versions are taken in alike

A document of a later version may say more than this program knows, and may say it in another order.
What it says of the samples must not change by that.  This file proves that it does not: a text that
is revised in a way that a tolerant reader should not mind has the same outcome as before, with the
same count and the same store, or with the same record named as the first bad one.

## 1.  The four levels

Breakdowns, records, modes and the document are objects with four different readers.  Two of the
readers skip what they do not know, and two keep it.  For each of the shapes `Unordered` is proved,
which is what `Takes.revised` asks for.

## 2.  Revised documents

The revisions of a level are `MembersRevised` with the keys of that level, and a revision may go
inside a known member, down to the breakdowns.  The readings of the lower levels stay equal.  The
reading of a document stays equal up to the keys that it does not know (`SameGroups`).

## 3.  Revised texts

`Forward` closes the revisions of documents under each other and under changes of blanks.
`ingestText_forward` is the result.
-/

namespace TransferCost

open Json (Reading Quoted Field RecordShape Kept Unordered MembersRevised Takes Whole Gap)

/-! ## 1.  The four levels -/

namespace Json

section Shapes

variable {ρ α β : Type}

/-- Two fields that can be put in in either order. -/
def Field.Commutes (f g : Field ρ) : Prop :=
  ∀ v w u u', f.read v = .ok u → g.read w = .ok u' → ∀ r, u' (u r) = u (u' r)

instance : Std.Symm (@Field.Commutes ρ) where
  symm _ _ h := fun v w u u' hu hu' r => (h w v u' u hu' hu r).symm

theorem Field.read_of_eq_ok {name : String} {presence : Presence} {d : Decoder α}
    {put : α → ρ → ρ} {v : Reading} {u : ρ → ρ} :
    (Field.of name presence d put).read v = .ok u ↔ ∃ a, d v = .ok a ∧ put a = u :=
  map_eq_ok_iff

theorem Field.commutes_of {name name' : String} {presence presence' : Presence} {d : Decoder α}
    {d' : Decoder β} {put : α → ρ → ρ} {put' : β → ρ → ρ}
    (h : ∀ a b r, put' b (put a r) = put a (put' b r)) :
    (Field.of name presence d put).Commutes (.of name' presence' d' put') := by
  intro v w u u' hu hu' r
  obtain ⟨a, -, rfl⟩ := read_of_eq_ok.mp hu
  obtain ⟨b, -, rfl⟩ := read_of_eq_ok.mp hu'
  exact h a b r

theorem commutes_of_pairwise {fs : List (Field ρ)} (hs : fs.Pairwise Field.Commutes) :
    ∀ f ∈ fs, ∀ g ∈ fs, f.name ≠ g.name → f.Commutes g := by
  intro f hf g hg hname
  have hne : f ≠ g := fun h => hname (congrArg Field.name h)
  exact hs.forall hf hg hne

/-- Fields that commute in pairs, up to equality. -/
theorem unordered_of_pairwise {s : RecordShape ρ} (hs : s.fields.Pairwise Field.Commutes)
    (hnull : ∀ f ∈ s.fields, ∃ u, f.read .null = .ok u ∧ u s.blank = s.blank) :
    Unordered s Eq where
  refl := fun _ => rfl
  trans := Eq.trans
  congr := fun _ _ _ u _ _ _ h => congrArg u h
  comm := commutes_of_pairwise hs
  null := hnull

/-- A record without required fields is read from its members. -/
theorem read_object_eq_ok_iff {s : RecordShape ρ} (hs : ∀ f ∈ s.fields, f.presence ≠ .required)
    {ms : List (Quoted × Reading)} {r : ρ} :
    s.read (.object ms none) = .ok r ↔ Takes s Reading.skim ms r := by
  have hmissing (seen : List String) : s.firstMissing seen = none := by
    rw [RecordShape.firstMissing, Option.map_eq_none_iff, List.find?_eq_none]
    intro f hf
    simp [hs f hf]
  rw [← walk_eq_ok_iff, walk_skim_iff, RecordShape.read]
  constructor
  · intro h
    obtain ⟨answer, hanswer, h⟩ := bind_eq_ok_iff.mp h
    obtain ⟨_, -, h⟩ := bind_eq_ok_iff.mp h
    rw [hmissing] at h
    exact ⟨answer.2, by rw [hanswer, ← Except.ok.inj h]⟩
  · rintro ⟨seen, h⟩
    rw [h]
    dsimp only [bind, Except.bind, checkEnding]
    rw [hmissing]
    rfl

/-- The same for a record that keeps unknown keys, as far as the record goes. -/
theorem readKept_object_eq_ok_iff {s : RecordShape ρ} {room : ℕ} {ms : List (Quoted × Reading)}
    {r : ρ} :
    (∃ unknown, readKept s room (.object ms none) = .ok ⟨r, unknown⟩) ↔
      Takes s (Reading.keep room) ms r := by
  have hkept (k : Kept ρ) : readKept s room (.object ms none) = .ok k ↔
      readKeptMembers s room ⟨s.blank, []⟩ [] ms = .ok k := by
    rw [readKept]
    cases readKeptMembers s room ⟨s.blank, []⟩ [] ms <;> rfl
  rw [← walk_eq_ok_iff]
  simp only [hkept]
  exact (walk_keep_iff (r := ⟨s.blank, []⟩)).symm

end Shapes

end Json

/-! ### The shapes -/

section Unordered

open Json

/-- Shares can be put in in any order. -/
theorem Record.unordered_breakdownShape : Unordered breakdownShape Eq := by
  apply unordered_of_pairwise
  · simp only [breakdownShape, CostKind.all, List.map_cons, List.map_nil, List.pairwise_cons,
      List.forall_mem_cons, List.not_mem_nil, false_imp_iff, implies_true, and_true,
      List.Pairwise.nil]
    and_intros <;> exact Field.commutes_of fun _ _ _ => rfl
  · simp only [breakdownShape, CostKind.all, List.map_cons, List.map_nil, List.forall_mem_cons,
      List.not_mem_nil, false_imp_iff, implies_true, and_true]
    and_intros <;> exact ⟨_, rfl, rfl⟩

/-- The fields of a record can be put in in any order. -/
theorem Record.unordered_shape : Unordered Record.shape Eq := by
  apply unordered_of_pairwise
  · simp only [Record.shape, List.pairwise_cons, List.forall_mem_cons, List.not_mem_nil,
      false_imp_iff, implies_true, and_true, List.Pairwise.nil]
    and_intros <;> exact Field.commutes_of fun _ _ _ => rfl
  · simp only [Record.shape, List.forall_mem_cons, List.not_mem_nil, false_imp_iff, implies_true,
      and_true]
    and_intros <;> exact ⟨_, rfl, rfl⟩

/-- The groups of a transfer type can be put in in any order. -/
theorem Intake.unordered_modesShape : Unordered modesShape Eq := by
  apply unordered_of_pairwise
  · simp only [modesShape, Optimization.all, List.map_cons, List.map_nil, List.pairwise_cons,
      List.forall_mem_cons, List.not_mem_nil, false_imp_iff, implies_true, and_true,
      List.Pairwise.nil]
    exact Field.commutes_of fun _ _ _ => rfl
  · simp only [modesShape, Optimization.all, List.map_cons, List.map_nil, List.forall_mem_cons,
      List.not_mem_nil, false_imp_iff, implies_true, and_true]
    and_intros <;> exact ⟨_, rfl, rfl⟩

/-- Two documents with the same groups, whatever else they hold. -/
def Intake.SameGroups (d d' : PerType (Option ModeRecords)) : Prop :=
  ∀ t, (d.get t).map Kept.record = (d'.get t).map Kept.record

/-- The transfer types can be put in in any order. -/
theorem Intake.unordered_shape : Unordered Intake.shape SameGroups where
  refl := fun _ _ => rfl
  trans := fun h h' t => (h t).trans (h' t)
  congr := by
    intro f hf v u hu d d' h t
    obtain ⟨t', -, rfl⟩ := List.mem_map.mp hf
    obtain ⟨a, -, rfl⟩ := Field.read_of_eq_ok.mp hu
    dsimp only
    rw [PerType.get_modify, PerType.get_modify]
    split_ifs
    · rfl
    · exact h t
  comm := by
    have hpairwise : Intake.shape.fields.Pairwise Field.Commutes := by
      simp only [Intake.shape, TransferType.all, List.map_cons, List.map_nil, List.pairwise_cons,
        List.forall_mem_cons, List.not_mem_nil, false_imp_iff, implies_true, and_true,
        List.Pairwise.nil]
      exact Field.commutes_of fun _ _ _ => rfl
    exact commutes_of_pairwise hpairwise
  null := by
    simp only [Intake.shape, TransferType.all, List.map_cons, List.map_nil, List.forall_mem_cons,
      List.not_mem_nil, false_imp_iff, implies_true, and_true]
    and_intros <;> exact ⟨_, rfl, rfl⟩

end Unordered

/-! ## 2.  Revised documents -/

/-- How an object may be revised. -/
inductive ObjectRevised (known : List String) (admits : Reading → Prop)
    (inside : String → Reading → Reading → Prop) : Reading → Reading → Prop where
  | members {ms ms' : List (Quoted × Reading)} (h : MembersRevised known admits inside ms ms') :
      ObjectRevised known admits inside (.object ms none) (.object ms' none)

namespace Record

/-- A value that is skipped: any JSON value, however deep. -/
def Skippable (v : Reading) : Prop :=
  ∃ room, v.Fits room

/-- How a breakdown may be revised. -/
def BreakdownRevised : Reading → Reading → Prop :=
  ObjectRevised breakdownShape.names Skippable fun _ _ _ => False

/-- How a record may be revised. -/
def Revised : Reading → Reading → Prop :=
  ObjectRevised shape.names Skippable fun key v w =>
    key = "cost_breakdown" ∧ BreakdownRevised v w

end Record

namespace Intake

/-- How the records of a group may be revised: each for itself, or not at all. -/
inductive RecordsRevised : Reading → Reading → Prop where
  | items {vs ws : List Reading} (h : List.Forall₂ (fun v w => v = w ∨ Record.Revised v w) vs ws) :
      RecordsRevised (.array vs none) (.array ws none)

/-- How the groups of a transfer type may be revised.  The value of an unknown key is two levels
deep. -/
def ModesRevised : Reading → Reading → Prop :=
  ObjectRevised modesShape.names (Reading.Fits (maxDepth - 2)) fun _ => RecordsRevised

/-- How a document may be revised.  The value of an unknown key is one level deep. -/
def Revised : Reading → Reading → Prop :=
  ObjectRevised shape.names (Reading.Fits (maxDepth - 1)) fun _ => ModesRevised

end Intake

section Levels

open Json

/-- **A revised breakdown is read alike.** -/
theorem Record.read_breakdown {v w : Reading} (h : BreakdownRevised v w) {b : PartialBreakdown}
    (hv : breakdownShape.read v = .ok b) : breakdownShape.read w = .ok b := by
  obtain ⟨hms⟩ := h
  have hoptional : ∀ f ∈ breakdownShape.fields, f.presence ≠ .required := by decide
  rw [read_object_eq_ok_iff hoptional] at hv ⊢
  obtain ⟨b', hb', rfl⟩ := hv.revised unordered_breakdownShape (fun v hv => hv.choose_spec.skim)
    (fun _ _ _ _ _ h _ => h.elim) hms
  exact hb'

/-- The object of a nullable field is read by the decoder of the field. -/
theorem nullable_object {α : Type} {d : Decoder α} {ms : List (Quoted × Reading)} {a? : Option α} :
    decodeNullable d (.object ms none) = .ok a? ↔ ∃ a, d (.object ms none) = .ok a ∧ some a = a? :=
  map_eq_ok_iff

/-- The field of a record that is an object itself. -/
def Record.breakdownField : Json.Field Record :=
  .of "cost_breakdown" .nullable (decodeNullable breakdownShape.read)
    fun x r => { r with breakdown := x }

theorem Record.eq_breakdownField {f : Json.Field Record} (hf : f ∈ Record.shape.fields)
    (hname : f.name = "cost_breakdown") : f = breakdownField := by
  have hmem : breakdownField ∈ Record.shape.fields := by
    simp [breakdownField, Record.shape]
  exact List.inj_on_of_nodup_map nodup_shape hf hmem hname

/-- **A revised record is read alike.** -/
theorem Record.read_revised {v w : Reading} (h : Record.Revised v w) {r : Record}
    (hv : Record.shape.read v = .ok r) : Record.shape.read w = .ok r := by
  obtain ⟨hms⟩ := h
  have hoptional : ∀ f ∈ Record.shape.fields, f.presence ≠ .required := by decide
  have hinside : ∀ f ∈ Record.shape.fields, ∀ v w u,
      (f.name = "cost_breakdown" ∧ BreakdownRevised v w) → f.read v = .ok u →
        ∃ u', f.read w = .ok u' ∧ ∀ r, u r = u' r := by
    rintro f hf v w u ⟨hname, hrevised⟩ hu
    obtain rfl := eq_breakdownField hf hname
    refine ⟨u, ?_, fun _ => rfl⟩
    obtain ⟨a, ha, rfl⟩ := Field.read_of_eq_ok.mp hu
    refine Field.read_of_eq_ok.mpr ⟨a, ?_, rfl⟩
    obtain ⟨hms⟩ := hrevised
    obtain ⟨b, hb, rfl⟩ := nullable_object.mp ha
    exact nullable_object.mpr ⟨b, read_breakdown (.members hms) hb, rfl⟩
  rw [read_object_eq_ok_iff hoptional] at hv ⊢
  obtain ⟨r', hr', rfl⟩ := hv.revised unordered_shape (fun v hv => hv.choose_spec.skim) hinside hms
  exact hr'

theorem decodeItems_of_forall₂ {α : Type} {d : Decoder α} {vs ws : List Reading}
    (h : List.Forall₂ (fun v w => ∀ a, d v = .ok a → d w = .ok a) vs ws) {as : List α}
    (has : decodeItems d vs = .ok as) : decodeItems d ws = .ok as := by
  induction h generalizing as with
  | nil => exact has
  | cons head tail ih =>
    obtain ⟨a, ha, has⟩ := bind_eq_ok_iff.mp has
    obtain ⟨rest, hrest, has⟩ := bind_eq_ok_iff.mp has
    rw [decodeItems, head a ha, ih hrest]
    exact has

namespace Intake

theorem read_records {v w : Reading} (h : RecordsRevised v w) {rs : List Record}
    (hv : decodeArray Record.shape.read v = .ok rs) : decodeArray Record.shape.read w = .ok rs := by
  obtain ⟨hitems⟩ := h
  obtain ⟨rs', hrs', hv⟩ := bind_eq_ok_iff.mp hv
  have hdecode := decodeItems_of_forall₂ (d := Record.shape.read) (hitems.imp ?_) hrs'
  · rw [decodeArray, hdecode]
    exact hv
  · rintro v w (rfl | hrevised) r hr
    · exact hr
    · exact Record.read_revised hrevised hr

/-- **The revised groups of a transfer type are read alike.** -/
theorem read_modes {v w : Reading} (h : ModesRevised v w) {k : ModeRecords}
    (hv : readKept modesShape (maxDepth - 2) v = .ok k) :
    ∃ k', readKept modesShape (maxDepth - 2) w = .ok k' ∧ k.record = k'.record := by
  obtain ⟨hms⟩ := h
  have hinside : ∀ f ∈ modesShape.fields, ∀ v w u, RecordsRevised v w → f.read v = .ok u →
      ∃ u', f.read w = .ok u' ∧ ∀ r, u r = u' r := by
    intro f hf v w u hrevised hu
    obtain ⟨o, -, rfl⟩ := List.mem_map.mp hf
    refine ⟨u, ?_, fun _ => rfl⟩
    obtain ⟨a, ha, rfl⟩ := Field.read_of_eq_ok.mp hu
    refine Field.read_of_eq_ok.mpr ⟨a, ?_, rfl⟩
    obtain ⟨hitems⟩ := hrevised
    obtain ⟨rs, hrs, rfl⟩ := map_eq_ok_iff.mp ha
    exact map_eq_ok_iff.mpr ⟨rs, read_records (.items hitems) hrs, rfl⟩
  have htakes := readKept_object_eq_ok_iff.mp ⟨k.unknown, hv⟩
  obtain ⟨r, hr, heq⟩ := htakes.revised unordered_modesShape (fun v hv => hv.keep) hinside hms
  obtain ⟨unknown, hw⟩ := readKept_object_eq_ok_iff.mpr hr
  exact ⟨_, hw, heq⟩

/-- **A revised document is read alike**, up to the keys that it does not know. -/
theorem read_revised {v w : Reading} (h : Intake.Revised v w) {d : Intake}
    (hv : readKept shape (maxDepth - 1) v = .ok d) :
    ∃ d', readKept shape (maxDepth - 1) w = .ok d' ∧ SameGroups d.record d'.record := by
  obtain ⟨hms⟩ := h
  have hinside : ∀ f ∈ shape.fields, ∀ v w u, ModesRevised v w → f.read v = .ok u →
      ∃ u', f.read w = .ok u' ∧ ∀ d, SameGroups (u d) (u' d) := by
    intro f hf v w u hrevised hu
    obtain ⟨t, -, rfl⟩ := List.mem_map.mp hf
    obtain ⟨a, ha, rfl⟩ := Field.read_of_eq_ok.mp hu
    obtain ⟨hms⟩ := hrevised
    obtain ⟨k, hk, rfl⟩ := nullable_object.mp ha
    obtain ⟨k', hk', hsame⟩ := read_modes (.members hms) hk
    refine ⟨_, Field.read_of_eq_ok.mpr ⟨some k', nullable_object.mpr ⟨k', hk', rfl⟩, rfl⟩, ?_⟩
    intro d t'
    rw [PerType.get_modify, PerType.get_modify]
    split_ifs
    · rw [Option.map_some, Option.map_some, hsame]
    · rfl
  have htakes := readKept_object_eq_ok_iff.mp ⟨d.unknown, hv⟩
  obtain ⟨r, hr, hsame⟩ := htakes.revised unordered_shape (fun v hv => hv.keep) hinside hms
  obtain ⟨unknown, hw⟩ := readKept_object_eq_ok_iff.mpr hr
  exact ⟨_, hw, hsame⟩

end Intake

end Levels

/-! ## 3.  Revised texts -/

namespace Intake

/-- Documents with the same groups complete alike. -/
theorem complete_congr {d d' : Intake} (h : SameGroups d.record d'.record) :
    d.complete = d'.complete := by
  have hrecords (p : Partition) : d.records? p = d'.records? p := by
    have hget (d : Intake) : d.records? p =
        ((d.record.get p.transferType).map Kept.record).bind (·.get p.optimization) := by
      unfold records?
      cases d.record.get p.transferType <;> rfl
    rw [hget, hget, h p.transferType]
  unfold complete groups
  simp only [hrecords]

open Json in
/-- The decoder of documents takes whole trees only. -/
theorem whole_readKept : Whole (Json.readKept shape (maxDepth - 1)) := by
  have hshares : Whole Record.breakdownShape.read := by
    apply Whole.record
    intro f hf
    obtain ⟨k, -, rfl⟩ := List.mem_map.mp hf
    exact Whole.real.nullable.field _ _ _
  have hrecord : Whole Record.shape.read := by
    apply Whole.record
    simp only [Record.shape, List.forall_mem_cons, List.not_mem_nil, false_imp_iff, implies_true,
      and_true]
    and_intros
    all_goals apply Whole.field
    all_goals apply Whole.nullable
    all_goals first | exact Whole.real | exact Whole.count32 | exact hshares
  have hmodes : Whole (Json.readKept modesShape (maxDepth - 2)) := by
    apply Whole.kept
    intro f hf
    obtain ⟨o, -, rfl⟩ := List.mem_map.mp hf
    exact hrecord.array.nullable.field _ _ _
  apply Whole.kept
  intro f hf
  obtain ⟨t, -, rfl⟩ := List.mem_map.mp hf
  exact hmodes.nullable.field _ _ _

/-- **A blank at a gap does not matter.**  If either of the two texts is a document, both are. -/
theorem ofString_gap {c : Char} {front back : List Char} (hc : Json.isBlank c = true)
    (hgap : Gap front back) {d : Intake}
    (h : Intake.ofString (.ofList (front ++ back)) = .ok d ∨
      Intake.ofString (.ofList (front ++ c :: back)) = .ok d) :
    Intake.ofString (.ofList (front ++ c :: back)) = Intake.ofString (.ofList (front ++ back)) := by
  have hscan := Json.scan_gap hc hgap ?_
  · unfold Intake.ofString Json.decodeString Reading.ofString
    rw [String.toList_ofList, String.toList_ofList, hscan]
  · rcases h with h | h
    · have hwhole := whole_readKept.tokens h
      rw [String.toList_ofList] at hwhole
      exact .inl hwhole
    · have hwhole := whole_readKept.tokens h
      rw [String.toList_ofList] at hwhole
      exact .inr hwhole

end Intake

/-- How a text may be revised: a blank is put in or taken out, the tree is revised as a document may
be, and all of this any number of times. -/
inductive Forward : String → String → Prop where
  | refl (A : String) : Forward A A
  /-- A blank is put in. -/
  | blank {c : Char} {front back : List Char} (hc : Json.isBlank c = true) (hgap : Gap front back) :
      Forward (.ofList (front ++ back)) (.ofList (front ++ c :: back))
  /-- A blank is taken out. -/
  | unblank {c : Char} {front back : List Char} (hc : Json.isBlank c = true)
      (hgap : Gap front back) :
      Forward (.ofList (front ++ c :: back)) (.ofList (front ++ back))
  /-- The members of the objects are revised. -/
  | revised {A B : String} {v w : Reading} (hA : Reading.ofString A = (v, false))
      (hB : Reading.ofString B = (w, false)) (h : Intake.Revised v w) : Forward A B
  | trans {A B C : String} (h : Forward A B) (h' : Forward B C) : Forward A C

open Json in
/-- A revised text is a document with the same groups. -/
theorem Forward.ofString {A B : String} (h : Forward A B) {d : Intake}
    (hA : Intake.ofString A = .ok d) :
    ∃ d', Intake.ofString B = .ok d' ∧ Intake.SameGroups d.record d'.record := by
  induction h generalizing d with
  | refl A => exact ⟨d, hA, fun _ => rfl⟩
  | blank hc hgap => exact ⟨d, (Intake.ofString_gap hc hgap (.inl hA)).trans hA, fun _ => rfl⟩
  | unblank hc hgap =>
    exact ⟨d, (Intake.ofString_gap hc hgap (.inr hA)).symm.trans hA, fun _ => rfl⟩
  | revised hread hread' hrevised =>
    rw [Intake.ofString, decodeString, hread] at hA
    obtain ⟨d₀, hd, hA⟩ := bind_eq_ok_iff.mp hA
    obtain rfl : d₀ = d := Except.ok.inj hA
    obtain ⟨d', hd', hsame⟩ := Intake.read_revised hrevised hd
    refine ⟨d', ?_, hsame⟩
    rw [Intake.ofString, decodeString, hread']
    dsimp only
    rw [hd']
    rfl
  | trans _ _ ih ih' =>
    obtain ⟨d', hB, hsame⟩ := ih hA
    obtain ⟨d'', hC, hsame'⟩ := ih' hB
    exact ⟨d'', hC, fun t => (hsame t).trans (hsame' t)⟩

/-- **Documents of later versions are taken in alike.**  Let a text be a document, and let another
text come of it by changed blanks, permuted members, members with unknown keys, and explicit nulls
for absent members, at any of the four levels and any number of times.  Then any store takes in the
second text with the outcome of the first: the same count or the same failure, and the same store
behind it. -/
theorem ingestText_forward {A B : String} (h : Forward A B) {d : Intake}
    (hA : Intake.ofString A = .ok d) (s : Store) :
    ((InPlace.ingestText B).outcome s).value = ((InPlace.ingestText A).outcome s).value := by
  obtain ⟨d', hB, hsame⟩ := h.ofString hA
  have hcomplete := Intake.complete_congr hsame
  rw [InPlace.outcome_ingestText, InPlace.outcome_ingestText, Logged.value_map, Logged.value_map,
    Store.ingestText, Store.ingestText, hA, hB]
  dsimp only
  rw [Store.ingest, Store.ingest, ← hcomplete]
  cases d.complete <;> rfl

/-! ### A later version -/

section Later

open Json

/-- A record with the members that have to be there. -/
def plainRecord : Json :=
  .object
    [("amount", .count 1000), ("recipient_count", .count 1), ("received_amount", .count 980),
     ("cost_breakdown", .object [("tx_fee", .count 5)])]

/-- The same record, said in another order and with more members. -/
def laterRecord : Json :=
  .object
    [("time_ms", .null), ("memo", .text "later"),
     ("cost_breakdown",
       .object [("rent", .null), ("priority", .array [.null]), ("tx_fee", .count 5)]),
     ("received_amount", .count 980), ("recipient_count", .count 1), ("amount", .count 1000)]

/-- A document with the one record. -/
def plainDocument : Json :=
  .object [("multi_wallet", .object [("optimized", .array [plainRecord])])]

/-- The same document with more members at both levels. -/
def laterDocument : Json :=
  .object
    [("schema", .count 2), ("single_recipient", .null),
     ("multi_wallet", .object
       [("note", .bool true), ("unoptimized", .null), ("optimized", .array [laterRecord])])]

theorem revised_laterRecord : Record.Revised plainRecord.reading laterRecord.reading := by
  have hshares : Record.BreakdownRevised (Json.object [("tx_fee", .count 5)]).reading
      (Json.object
        [("rent", .null), ("priority", .array [.null]), ("tx_fee", .count 5)]).reading := by
    refine .members (.trans (.unknown (text_ofString "priority") (by decide) ?_ _)
      (.null (text_ofString "rent") (by decide) (by simp [memberReadings, text_ofString])))
    exact ⟨1, .array (by simp [itemReadings, reading, Reading.Fits.null])⟩
  refine .members (.trans (.permuted (List.reverse_perm _).symm) ?_)
  refine .trans (.inside (text_ofString "cost_breakdown") (by decide) ⟨rfl, hshares⟩ _) ?_
  refine .trans (.unknown (text_ofString "memo") (by decide)
    ⟨0, .text 0 (text_ofString "later")⟩ _) ?_
  exact .null (text_ofString "time_ms") (by decide) (by simp [text_ofString])

theorem revised_laterDocument : Intake.Revised plainDocument.reading laterDocument.reading := by
  have hrecords : Intake.RecordsRevised (Json.array [plainRecord]).reading
      (Json.array [laterRecord]).reading :=
    .items (.cons (.inr revised_laterRecord) .nil)
  have hmodes : Intake.ModesRevised (Json.object [("optimized", .array [plainRecord])]).reading
      (Json.object [("note", .bool true), ("unoptimized", .null),
        ("optimized", .array [laterRecord])]).reading := by
    refine .members (.trans (.inside (text_ofString "optimized") (by decide) hrecords _) ?_)
    refine .trans (.null (text_ofString "unoptimized") (by decide)
      (by simp [memberReadings, text_ofString])) ?_
    exact .unknown (text_ofString "note") (by decide) (.bool _ true) _
  refine .members (.trans (.inside (text_ofString "multi_wallet") (by decide) hmodes _) ?_)
  refine .trans (.null (text_ofString "single_recipient") (by decide)
    (by simp [memberReadings, text_ofString])) ?_
  exact .unknown (text_ofString "schema") (by decide) (.number _ rfl) _

/-- The one record is taken in alike from the plain text and from the later one, with an empty line
in front. -/
theorem ingestText_forward_later :
    ((InPlace.ingestText (.ofList ('\n' :: laterDocument.prettyAt 0))).outcome .empty).value =
      ((InPlace.ingestText plainDocument.prettyText).outcome .empty).value := by
  have hplain : Intake.ofString plainDocument.prettyText =
      .ok ⟨⟨none, some ⟨⟨some [bareRecord], none⟩, []⟩⟩, []⟩ := by
    rw [Intake.ofString, decodeString, ofString_prettyText]
    rfl
  have hblank (cs : List Char) : Forward (.ofList cs) (.ofList ('\n' :: cs)) :=
    @Forward.blank '\n' [] cs (by decide) ⟨rfl, .inl (by simp)⟩
  have hrevised : Forward plainDocument.prettyText laterDocument.prettyText :=
    .revised (ofString_prettyText plainDocument) (ofString_prettyText laterDocument)
      revised_laterDocument
  exact ingestText_forward (hrevised.trans (hblank _)) hplain .empty

end Later

end TransferCost
