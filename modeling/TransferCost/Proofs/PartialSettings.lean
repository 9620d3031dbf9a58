import TransferCost.Exchange
import TransferCost.Proofs.Json.Partial

/-!
# Settings that are given in part

A settings text overrides the default settings: it says what it wants to have changed, and nothing
else.  `Settings.Override` is such a wish, with an optional value for each of the settings, and
`Settings.Override.apply` is what it asks for.

## 1.  Overrides

The settings form a tree, and a text may stop at any level of it: an override may leave out a whole
section, or mention a section and nothing in it.  `IsWrittenIn` are the texts that say what an
override says, with the members of each object in any order, any blanks between them, and any
spelling of the names and numbers.

## 2.  What is read

The sections for the range of sizes and for the cost model have defaults for all that is missing.
The constants of a mode have none.  So a text that mentions one of them must mention all eight of
its mode, and is refused otherwise, with a message that names the first one that is missing.

## 3.  What is loaded

Each override whose numbers are finite can be written.  `Settings.load_override` says what comes of
a file in which it is.
-/

namespace TransferCost

open Json (Reading Mentions IsObject unmentioned Gives Fails Field)

/-! ## 1.  Overrides -/

/-- A number with this value, up to rounding. -/
def SpellsReal (x : Float) (v : Reading) : Prop :=
  ∃ n, v = .number n ∧ n.toFloat? = some x

/-- This number, written whole. -/
def SpellsCount (k : ℕ) (v : Reading) : Prop :=
  ∃ n, v = .number n ∧ n.kind? = some (.unsigned k)

/-- An override of the transfer sizes. -/
structure SizeRange.Override where
  smallest : Option Float
  largest : Option Float
  steps : Option ℕ
  wallets : Option UInt32

/-- An override of the constants of a mode. -/
structure ModeModel.Override where
  txFeePerRecipient : Option Float
  computeBase : Option Float
  computePerRecipient : Option Float
  rentFactor : Option Float
  receivedRatio : Option Float
  timeBaseMs : Option Float
  timePerRecipientMs : Option Float
  accountsRemaining : Option UInt32

/-- An override of the cost model. -/
structure CostModel.Override where
  baseTxFee : Option Float
  baseRent : Option Float
  hopCount : Option UInt32
  modes : PerMode (Option ModeModel.Override)

/-- An override of the settings. -/
structure Settings.Override where
  range : Option SizeRange.Override
  model : Option CostModel.Override
  minSamples : Option ℕ

namespace SizeRange.Override

/-- The transfer sizes with what is overridden. -/
def apply (o : Override) (r : SizeRange) : SizeRange where
  smallest := o.smallest.getD r.smallest
  largest := o.largest.getD r.largest
  steps := o.steps.getD r.steps
  wallets := o.wallets.getD r.wallets

/-- What an override mentions. -/
def mentions (o : Override) : Mentions :=
  [("min_amount", o.smallest.map SpellsReal),
   ("max_amount", o.largest.map SpellsReal),
   ("steps", o.steps.map SpellsCount),
   ("multi_recipients", o.wallets.map fun n => SpellsCount n.toNat)]

end SizeRange.Override

namespace ModeModel.Override

/-- The constants of a mode with what is overridden. -/
def apply (o : Override) (m : ModeModel) : ModeModel where
  txFeePerRecipient := o.txFeePerRecipient.getD m.txFeePerRecipient
  computeBase := o.computeBase.getD m.computeBase
  computePerRecipient := o.computePerRecipient.getD m.computePerRecipient
  rentFactor := o.rentFactor.getD m.rentFactor
  receivedRatio := o.receivedRatio.getD m.receivedRatio
  timeBaseMs := o.timeBaseMs.getD m.timeBaseMs
  timePerRecipientMs := o.timePerRecipientMs.getD m.timePerRecipientMs
  accountsRemaining := o.accountsRemaining.getD m.accountsRemaining

/-- What an override mentions. -/
def mentions (o : Override) : Mentions :=
  [("tx_fee_per_recipient", o.txFeePerRecipient.map SpellsReal),
   ("compute_base", o.computeBase.map SpellsReal),
   ("compute_per_recipient", o.computePerRecipient.map SpellsReal),
   ("rent_factor", o.rentFactor.map SpellsReal),
   ("received_ratio", o.receivedRatio.map SpellsReal),
   ("time_base_ms", o.timeBaseMs.map SpellsReal),
   ("time_per_recipient_ms", o.timePerRecipientMs.map SpellsReal),
   ("accounts_remaining", o.accountsRemaining.map fun n => SpellsCount n.toNat)]

/-- The first constant that is not mentioned. -/
def firstMissing (o : Override) : Option String :=
  (unmentioned o.mentions).head?

end ModeModel.Override

namespace CostModel.Override

/-- The cost model with what is overridden. -/
def apply (o : Override) (m : CostModel) : CostModel where
  baseTxFee := o.baseTxFee.getD m.baseTxFee
  baseRent := o.baseRent.getD m.baseRent
  hopCount := o.hopCount.getD m.hopCount
  modes := .ofFn fun k => (o.modes.get k).elim (m.modes.get k) (·.apply (m.modes.get k))

/-- What an override mentions. -/
def mentions (o : Override) : Mentions :=
  [("base_tx_fee", o.baseTxFee.map SpellsReal),
   ("base_rent", o.baseRent.map SpellsReal),
   ("hop_count", o.hopCount.map fun n => SpellsCount n.toNat)] ++
    Optimization.all.map fun k => (k.key, (o.modes.get k).map fun m => IsObject m.mentions)

/-- There is a mentioned mode of which this is the first constant that is missing. -/
def Lacks (o : Override) (name : String) : Prop :=
  ∃ k, ∃ m ∈ o.modes.get k, m.firstMissing = some name

end CostModel.Override

namespace Settings.Override

/-- The settings with what is overridden. -/
def apply (o : Override) (s : Settings) : Settings where
  range := o.range.elim s.range (·.apply s.range)
  model := o.model.elim s.model (·.apply s.model)
  minSamples := o.minSamples.getD s.minSamples

/-- What an override mentions. -/
def mentions (o : Override) : Mentions :=
  [("generator", o.range.map fun r => IsObject r.mentions),
   ("cost_model", o.model.map fun m => IsObject m.mentions),
   ("min_samples_per_partition", o.minSamples.map SpellsCount)]

/-- The text says what the override says, and no more. -/
def IsWrittenIn (o : Override) (text : String) : Prop :=
  ∃ v, Reading.ofString text = (v, false) ∧ IsObject o.mentions v

/-- There is a mentioned mode of which this is the first constant that is missing. -/
def Lacks (o : Override) (name : String) : Prop :=
  ∃ m ∈ o.model, m.Lacks name

end Settings.Override

/-! ## 2.  What is read -/

theorem decodeReal_of_spells {x : Float} {v : Reading} (h : SpellsReal x v) :
    Json.decodeReal v = .ok x := by
  obtain ⟨n, rfl, hn⟩ := h
  rw [Json.decodeReal, hn]

theorem lt_of_kind? {n : Json.Numeral} {k : ℕ} (h : n.kind? = some (.unsigned k)) :
    k < Nat.pow 2 64 := by
  unfold Json.Numeral.kind? at h
  split_ifs at h with hunsigned
  · obtain rfl : n.coefficient = k := Json.NumberKind.unsigned.inj (Option.some.inj h)
    simp only [Bool.and_eq_true, decide_eq_true_eq] at hunsigned
    exact hunsigned.2
  · exact absurd h (by simp)
  · obtain ⟨x, -, hx⟩ := Option.map_eq_some_iff.mp h
    exact absurd hx (by simp)

theorem decodeCount_of_spells {name : String} {bound k : ℕ} {v : Reading} (h : SpellsCount k v)
    (hk : k < bound) : Json.decodeCount name bound v = .ok k := by
  obtain ⟨n, rfl, hn⟩ := h
  rw [Json.decodeCount, hn]
  exact if_pos hk

theorem decodeCount64_of_spells {k : ℕ} {v : Reading} (h : SpellsCount k v) :
    Json.decodeCount64 v = .ok k := by
  obtain ⟨n, hv, hn⟩ := h
  exact decodeCount_of_spells ⟨n, hv, hn⟩ (lt_of_kind? hn)

theorem decodeCount32_of_spells {k : UInt32} {v : Reading} (h : SpellsCount k.toNat v) :
    Json.decodeCount32 v = .ok k := by
  rw [Json.decodeCount32, decodeCount_of_spells h k.toNat_lt]
  exact congrArg Except.ok UInt32.ofNat_toNat

/-! ### The range of sizes -/

namespace SizeRange

theorem commutes_shape : shape.fields.Pairwise Field.Commutes := by
  simp only [shape, List.pairwise_cons, List.forall_mem_cons, List.not_mem_nil, false_imp_iff,
    implies_true, and_true, List.Pairwise.nil]
  and_intros <;> exact Field.commutes_of fun _ _ _ => rfl

/-- A section is read as the override of the default sizes. -/
theorem Override.read (o : Override) {v : Reading} (h : IsObject o.mentions v) :
    shape.read v = .ok (o.apply .standard) := by
  have hgives : Gives shape.fields o.mentions _ :=
    .leaf SizeRange.smallest o.smallest (fun _ _ => decodeReal_of_spells) (fun _ => rfl) <|
    .leaf SizeRange.largest o.largest (fun _ _ => decodeReal_of_spells) (fun _ => rfl) <|
    .leaf SizeRange.steps o.steps (fun _ _ => decodeCount64_of_spells) (fun _ => rfl) <|
    .leaf SizeRange.wallets o.wallets (fun _ _ => decodeCount32_of_spells) (fun _ => rfl) .nil
  exact hgives.read_defaulted (by decide) commutes_shape (by simp [shape, Field.of]) h

end SizeRange

/-! ### Modes -/

namespace ModeModel

theorem commutes_shape : shape.fields.Pairwise Field.Commutes := by
  simp only [shape, List.pairwise_cons, List.forall_mem_cons, List.not_mem_nil, false_imp_iff,
    implies_true, and_true, List.Pairwise.nil]
  and_intros <;> exact Field.commutes_of fun _ _ _ => rfl

/-- What is read from an object that mentions some constants: a failure that names the first missing
one, or the mode that all of them make. -/
def Override.outcome (o : Override) : Except Json.ReadError ModeModel :=
  match o.firstMissing with
  | some name => .error (.mismatch (.missingField name))
  | none => .ok (o.apply .optimized)

theorem Override.read (o : Override) {v : Reading} (h : IsObject o.mentions v) :
    shape.read v = o.outcome := by
  have hgives : Gives shape.fields o.mentions _ :=
    .leaf ModeModel.txFeePerRecipient o.txFeePerRecipient (fun _ _ => decodeReal_of_spells)
      (fun _ => rfl) <|
    .leaf ModeModel.computeBase o.computeBase (fun _ _ => decodeReal_of_spells) (fun _ => rfl) <|
    .leaf ModeModel.computePerRecipient o.computePerRecipient (fun _ _ => decodeReal_of_spells)
      (fun _ => rfl) <|
    .leaf ModeModel.rentFactor o.rentFactor (fun _ _ => decodeReal_of_spells) (fun _ => rfl) <|
    .leaf ModeModel.receivedRatio o.receivedRatio (fun _ _ => decodeReal_of_spells)
      (fun _ => rfl) <|
    .leaf ModeModel.timeBaseMs o.timeBaseMs (fun _ _ => decodeReal_of_spells) (fun _ => rfl) <|
    .leaf ModeModel.timePerRecipientMs o.timePerRecipientMs (fun _ _ => decodeReal_of_spells)
      (fun _ => rfl) <|
    .leaf ModeModel.accountsRemaining o.accountsRemaining (fun _ _ => decodeCount32_of_spells)
      (fun _ => rfl) .nil
  exact hgives.read_required (by decide) commutes_shape (by simp [shape, Field.of]) h

theorem Override.outcome_eq_error_iff {o : Override} {e : Json.ReadError} :
    o.outcome = .error e ↔
      ∃ name, o.firstMissing = some name ∧ .mismatch (.missingField name) = e := by
  unfold outcome
  cases o.firstMissing <;> simp

/-- If all constants are mentioned, it does not matter what they override. -/
theorem Override.apply_eq {o : Override} (h : o.firstMissing = none) (m m' : ModeModel) :
    o.apply m = o.apply m' := by
  have hmentioned : ∀ entry ∈ o.mentions, entry.2.isNone = false := by
    rw [firstMissing, unmentioned, List.head?_eq_none_iff, List.map_eq_nil_iff,
      List.filter_eq_nil_iff] at h
    exact fun entry hentry => Bool.eq_false_iff.mpr (h entry hentry)
  simp only [mentions, List.forall_mem_cons, Option.isNone_map] at hmentioned
  have hsame {α : Type} {a? : Option α} (ha : a?.isNone = false) (b b' : α) :
      a?.getD b = a?.getD b' := by
    cases a? with
    | none => exact absurd ha (by simp)
    | some a => rfl
  obtain ⟨hfee, hcompute, hcompute', hrent, hratio, htime, htime', haccounts, -⟩ := hmentioned
  unfold apply
  congr 1
  · exact hsame hfee _ _
  · exact hsame hcompute _ _
  · exact hsame hcompute' _ _
  · exact hsame hrent _ _
  · exact hsame hratio _ _
  · exact hsame htime _ _
  · exact hsame htime' _ _
  · exact hsame haccounts _ _

end ModeModel

/-! ### The cost model -/

namespace CostModel

theorem commutes_shape : shape.fields.Pairwise Field.Commutes := by
  simp only [shape, Optimization.all, List.map_cons, List.map_nil, List.cons_append,
    List.nil_append, List.pairwise_cons, List.forall_mem_cons, List.not_mem_nil, false_imp_iff,
    implies_true, and_true, List.Pairwise.nil]
  and_intros <;> exact Field.commutes_of fun _ _ _ => rfl

/-- If a mentioned mode lacks a constant, the cost model is refused, and a missing constant is
named. -/
theorem Override.read_of_lacks (o : Override) {v : Reading} (h : IsObject o.mentions v)
    (hlacks : ∃ name, o.Lacks name) :
    ∃ name, o.Lacks name ∧ shape.read v = .error (.mismatch (.missingField name)) := by
  have hfails : Fails shape.fields o.mentions _ :=
    .leaf o.baseTxFee (fun _ _ => decodeReal_of_spells) <|
    .leaf o.baseRent (fun _ _ => decodeReal_of_spells) <|
    .leaf o.hopCount (fun _ _ => decodeCount32_of_spells) <|
    .field ModeModel.Override.outcome (o.modes.get .optimized) (fun m _ _ => m.read) <|
    .field ModeModel.Override.outcome (o.modes.get .unoptimized) (fun m _ _ => m.read) .nil
  have hnamed (e : Json.ReadError) :
      (∃ m ∈ o.modes.get .optimized, m.outcome = .error e) ∨
          (∃ m ∈ o.modes.get .unoptimized, m.outcome = .error e) ∨ False ↔
        ∃ name, o.Lacks name ∧ .mismatch (.missingField name) = e := by
    simp only [ModeModel.Override.outcome_eq_error_iff, Lacks]
    constructor
    · rintro (⟨m, hm, name, hname, rfl⟩ | ⟨m, hm, name, hname, rfl⟩ | hnone)
      · exact ⟨name, ⟨_, m, hm, hname⟩, rfl⟩
      · exact ⟨name, ⟨_, m, hm, hname⟩, rfl⟩
      · exact hnone.elim
    · rintro ⟨name, ⟨_ | _, m, hm, hname⟩, rfl⟩
      · exact .inl ⟨m, hm, name, hname, rfl⟩
      · exact .inr (.inl ⟨m, hm, name, hname, rfl⟩)
  obtain ⟨missing, hmissing⟩ := hlacks
  obtain ⟨e, he, hread⟩ := hfails.read (by decide) commutes_shape
    ⟨_, (hnamed _).mpr ⟨missing, hmissing, rfl⟩⟩ h
  obtain ⟨name, hname, rfl⟩ := (hnamed e).mp he
  exact ⟨name, hname, hread⟩

/-- Otherwise it is the override of the default cost model. -/
theorem Override.read (o : Override) {v : Reading} (h : IsObject o.mentions v)
    (hwhole : ∀ name, ¬ o.Lacks name) : shape.read v = .ok (o.apply .standard) := by
  have hmissing {k : Optimization} {m : ModeModel.Override} (hm : m ∈ o.modes.get k) :
      m.firstMissing = none :=
    Option.eq_none_iff_forall_ne_some.mpr fun name hname => hwhole name ⟨k, m, hm, hname⟩
  have hmode (k : Optimization) (m : ModeModel.Override) (hm : m ∈ o.modes.get k) (w : Reading)
      (hw : IsObject m.mentions w) :
      ModeModel.shape.read w = .ok (m.apply (CostModel.standard.modes.get k)) := by
    rw [m.read hw, ModeModel.Override.outcome, hmissing hm]
    exact congrArg Except.ok (ModeModel.Override.apply_eq (hmissing hm) _ _)
  have hgives : Gives shape.fields o.mentions _ :=
    .leaf CostModel.baseTxFee o.baseTxFee (fun _ _ => decodeReal_of_spells) (fun _ => rfl) <|
    .leaf CostModel.baseRent o.baseRent (fun _ _ => decodeReal_of_spells) (fun _ => rfl) <|
    .leaf CostModel.hopCount o.hopCount (fun _ _ => decodeCount32_of_spells) (fun _ => rfl) <|
    .field _ (fun m => m.modes.get .optimized) (o.modes.get .optimized) (hmode .optimized)
      (fun _ => rfl) <|
    .field _ (fun m => m.modes.get .unoptimized) (o.modes.get .unoptimized) (hmode .unoptimized)
      (fun _ => rfl) .nil
  rw [hgives.read_defaulted (by decide) commutes_shape (by simp [shape, Field.of]) h]
  refine congrArg Except.ok ?_
  clear hgives hmode hmissing hwhole h
  obtain ⟨fee, rent, hops, ⟨optimized?, unoptimized?⟩⟩ := o
  cases optimized? <;> cases unoptimized? <;> rfl

end CostModel

/-! ### Settings -/

namespace Settings

theorem commutes_shape : shape.fields.Pairwise Field.Commutes := by
  simp only [shape, List.pairwise_cons, List.forall_mem_cons, List.not_mem_nil, false_imp_iff,
    implies_true, and_true, List.Pairwise.nil]
  and_intros <;> exact Field.commutes_of fun _ _ _ => rfl

theorem Override.read_of_lacks (o : Override) {v : Reading} (h : IsObject o.mentions v)
    (hlacks : ∃ name, o.Lacks name) :
    ∃ name, o.Lacks name ∧ shape.read v = .error (.mismatch (.missingField name)) := by
  obtain ⟨range?, model?, samples?⟩ := o
  obtain ⟨missing, m, rfl, hmissing⟩ := hlacks
  -- Which constant is named depends on the order of the modes, so on this one text of the section.
  have hsection : IsObject ([("generator", range?.map fun r => IsObject r.mentions)] ++
      ("cost_model", some (IsObject m.mentions)) ::
        [("min_samples_per_partition", samples?.map SpellsCount)]) v := h
  obtain ⟨w, hw, hpinned⟩ := hsection.exists_eq
  obtain ⟨name, hname, hmodel⟩ := m.read_of_lacks hw ⟨missing, hmissing⟩
  have hrefused (m' : CostModel.Override) (_ : m' ∈ some m) (w' : Reading) (hw' : w' = w) :
      CostModel.shape.read w' = .error (.mismatch (.missingField name)) :=
    hw' ▸ hmodel
  have hfails : Fails shape.fields _ _ :=
    .field (fun r => .ok (r.apply .standard)) range? (fun r _ _ => r.read) <|
    .field (fun _ => .error (.mismatch (.missingField name))) (some m) hrefused <|
    .leaf samples? (fun _ _ => decodeCount64_of_spells) .nil
  obtain ⟨e, he, hread⟩ := hfails.read (by decide) commutes_shape ⟨_, .inr (.inl ⟨m, rfl, rfl⟩)⟩
    hpinned
  obtain rfl : .mismatch (.missingField name) = e := by
    simpa using he
  exact ⟨name, ⟨m, rfl, hname⟩, hread⟩

/-- Settings that lack nothing are read as the override of the default settings. -/
theorem Override.read (o : Override) {v : Reading} (h : IsObject o.mentions v)
    (hwhole : ∀ name, ¬ o.Lacks name) : shape.read v = .ok (o.apply .standard) := by
  have hmodel (m : CostModel.Override) (hm : m ∈ o.model) (w : Reading)
      (hw : IsObject m.mentions w) : CostModel.shape.read w = .ok (m.apply .standard) :=
    m.read hw fun name hname => hwhole name ⟨m, hm, hname⟩
  have hgives : Gives shape.fields o.mentions _ :=
    .field _ Settings.range o.range (fun r _ _ => r.read) (fun _ => rfl) <|
    .field _ Settings.model o.model hmodel (fun _ => rfl) <|
    .leaf Settings.minSamples o.minSamples (fun _ _ => decodeCount64_of_spells) (fun _ => rfl) .nil
  rw [hgives.read_defaulted (by decide) commutes_shape (by simp [shape, Field.of]) h]
  refine congrArg Except.ok ?_
  clear hgives hmodel hwhole h
  obtain ⟨range?, model?, samples?⟩ := o
  cases range? <;> cases model? <;> rfl

end Settings

/-! ## 3.  What is loaded -/

/-! ### Overrides that can be written -/

theorem exists_spellsReal {x? : Option Float} (h : ∀ x ∈ x?, x.isFinite = true) :
    ∀ spells ∈ x?.map SpellsReal, ∃ v : Json, spells v.reading := by
  intro spells hspells
  obtain ⟨x, hx, rfl⟩ := Option.mem_map.mp hspells
  obtain ⟨n, hn, hread⟩ := Json.exists_numeral? (h x hx)
  exact ⟨.real x, n, by rw [Json.reading, Json.quantityReading, hn], hread⟩

theorem spellsCount_count {k : ℕ} (hk : k < Nat.pow 2 64) :
    SpellsCount k (Json.count k).reading := by
  have hfits : (true && !false && decide (k < Nat.pow 2 64)) = true := decide_eq_true hk
  exact ⟨⟨false, k, 0, true⟩, by rw [Json.reading], if_pos hfits⟩

theorem exists_spellsCount64 {k? : Option ℕ} (h : ∀ k ∈ k?, k < Nat.pow 2 64) :
    ∀ spells ∈ k?.map SpellsCount, ∃ v : Json, spells v.reading := by
  intro spells hspells
  obtain ⟨k, hk, rfl⟩ := Option.mem_map.mp hspells
  exact ⟨.count k, spellsCount_count (h k hk)⟩

theorem exists_spellsCount32 (k? : Option UInt32) :
    ∀ spells ∈ k?.map fun k => SpellsCount k.toNat, ∃ v : Json, spells v.reading := by
  intro spells hspells
  obtain ⟨k, -, rfl⟩ := Option.mem_map.mp hspells
  exact ⟨.count k.toNat, spellsCount_count (k.toNat_lt.trans (by decide))⟩

/-- A section that can be written, if there is one. -/
theorem exists_isObject_of_mem {α : Type} {mentions : α → Mentions} {o? : Option α}
    (h : ∀ o ∈ o?, ∃ v : Json, IsObject (mentions o) v.reading) :
    ∀ spells ∈ o?.map fun o => IsObject (mentions o), ∃ v : Json, spells v.reading := by
  intro spells hspells
  obtain ⟨o, ho, rfl⟩ := Option.mem_map.mp hspells
  exact h o ho

/-- Each of the numbers is one that a text can hold. -/
structure SizeRange.Override.IsWritable (o : Override) : Prop where
  smallest : ∀ x ∈ o.smallest, x.isFinite = true
  largest : ∀ x ∈ o.largest, x.isFinite = true
  steps : ∀ k ∈ o.steps, k < Nat.pow 2 64

@[inherit_doc SizeRange.Override.IsWritable]
structure ModeModel.Override.IsWritable (o : Override) : Prop where
  txFeePerRecipient : ∀ x ∈ o.txFeePerRecipient, x.isFinite = true
  computeBase : ∀ x ∈ o.computeBase, x.isFinite = true
  computePerRecipient : ∀ x ∈ o.computePerRecipient, x.isFinite = true
  rentFactor : ∀ x ∈ o.rentFactor, x.isFinite = true
  receivedRatio : ∀ x ∈ o.receivedRatio, x.isFinite = true
  timeBaseMs : ∀ x ∈ o.timeBaseMs, x.isFinite = true
  timePerRecipientMs : ∀ x ∈ o.timePerRecipientMs, x.isFinite = true

@[inherit_doc SizeRange.Override.IsWritable]
structure CostModel.Override.IsWritable (o : Override) : Prop where
  baseTxFee : ∀ x ∈ o.baseTxFee, x.isFinite = true
  baseRent : ∀ x ∈ o.baseRent, x.isFinite = true
  modes : ∀ k, ∀ m ∈ o.modes.get k, m.IsWritable

@[inherit_doc SizeRange.Override.IsWritable]
structure Settings.Override.IsWritable (o : Override) : Prop where
  range : ∀ r ∈ o.range, r.IsWritable
  model : ∀ m ∈ o.model, m.IsWritable
  minSamples : ∀ k ∈ o.minSamples, k < Nat.pow 2 64

theorem SizeRange.Override.IsWritable.exists {o : Override} (h : o.IsWritable) :
    ∃ v : Json, IsObject o.mentions v.reading := by
  refine Json.exists_isObject ?_
  simp only [mentions, List.forall_mem_cons]
  exact ⟨exists_spellsReal h.smallest, exists_spellsReal h.largest, exists_spellsCount64 h.steps,
    exists_spellsCount32 o.wallets, List.forall_mem_nil _⟩

theorem ModeModel.Override.IsWritable.exists {o : Override} (h : o.IsWritable) :
    ∃ v : Json, IsObject o.mentions v.reading := by
  refine Json.exists_isObject ?_
  simp only [mentions, List.forall_mem_cons]
  exact ⟨exists_spellsReal h.txFeePerRecipient, exists_spellsReal h.computeBase,
    exists_spellsReal h.computePerRecipient, exists_spellsReal h.rentFactor,
    exists_spellsReal h.receivedRatio, exists_spellsReal h.timeBaseMs,
    exists_spellsReal h.timePerRecipientMs, exists_spellsCount32 o.accountsRemaining,
    List.forall_mem_nil _⟩

theorem CostModel.Override.IsWritable.exists {o : Override} (h : o.IsWritable) :
    ∃ v : Json, IsObject o.mentions v.reading := by
  refine Json.exists_isObject ?_
  simp only [mentions, List.forall_mem_append, List.forall_mem_cons, List.forall_mem_map]
  exact ⟨⟨exists_spellsReal h.baseTxFee, exists_spellsReal h.baseRent,
    exists_spellsCount32 o.hopCount, List.forall_mem_nil _⟩,
    fun k _ => exists_isObject_of_mem fun m hm => (h.modes k m hm).exists⟩

/-- **Each override can be written**, if its numbers can. -/
theorem Settings.Override.IsWritable.exists_isWrittenIn {o : Override} (h : o.IsWritable) :
    ∃ text, o.IsWrittenIn text := by
  have hobject : ∃ v : Json, IsObject o.mentions v.reading := by
    refine Json.exists_isObject ?_
    simp only [mentions, List.forall_mem_cons]
    exact ⟨exists_isObject_of_mem fun r hr => (h.range r hr).exists,
      exists_isObject_of_mem fun m hm => (h.model m hm).exists,
      exists_spellsCount64 h.minSamples, List.forall_mem_nil _⟩
  obtain ⟨v, hv⟩ := hobject
  exact ⟨v.prettyText, v.reading, Json.ofString_prettyText v, hv⟩

/-! ### Settings on a machine -/

namespace Settings

theorem ofString_eq {text : String} {v : Reading}
    (h : Reading.ofString text = (v, false)) : ofString text = shape.read v := by
  rw [ofString, Json.decodeString, h]
  dsimp only
  cases shape.read v <;> rfl

theorem load_apply {path text : String} {w : Machine} (h : w.files.read path = .ok text) :
    (load path : StateM Machine _) w = (ofFile path text, w) := by
  have hask : (Host.readFile path : StateM Machine _) w = (.ok text, w) := congrArg (·, w) h
  simp only [load, bind, StateT.bind, hask]
  rfl

/-- **A file overrides exactly what it mentions**, except that a mode cannot be overridden in part.

If no mode is mentioned in part, what is loaded is the override of the default settings, or the
first fault of these.  Otherwise the file is refused as a whole, whatever it overrides, because of a
constant that it does not mention. -/
theorem load_override (o : Override) {path text : String} {w : Machine}
    (hread : w.files.read path = .ok text) (htext : o.IsWrittenIn text) :
    ∃ r, (load path : StateM Machine _) w = (r, w) ∧
      ((∀ name, ¬ o.Lacks name) →
        ((o.apply .standard).check = .ok () → r = .ok (o.apply .standard)) ∧
          ∀ f, (o.apply .standard).check = .error f → r = .error (.faulty f)) ∧
      ((∃ name, o.Lacks name) →
        ∃ name, o.Lacks name ∧
          r = .error (.malformed path (.mismatch (.missingField name)))) := by
  obtain ⟨v, hreading, hv⟩ := htext
  refine ⟨ofFile path text, ?_, fun hwhole => ?_, fun hlacks => ?_⟩
  · exact load_apply hread
  · rw [ofFile, ofString_eq hreading, o.read hv hwhole, check]
    dsimp only
    cases (o.apply .standard).fault? with
    | none => simp
    | some f => simp
  · obtain ⟨name, hname, hfail⟩ := o.read_of_lacks hv hlacks
    refine ⟨name, hname, ?_⟩
    rw [ofFile, ofString_eq hreading, hfail]

/-- Four sizes. -/
def Override.fourSteps : Override where
  range := some ⟨none, none, some 4, none⟩
  model := none
  minSamples := none

/-- Optimized transfers of which less arrives. -/
def lowRatioMode : ModeModel.Override :=
  ⟨none, none, none, none, some 0.95, none, none, none⟩

@[inherit_doc lowRatioMode]
def lowRatioModel : CostModel.Override :=
  ⟨none, none, none, some lowRatioMode, none⟩

@[inherit_doc lowRatioMode]
def Override.lowRatio : Override where
  range := none
  model := some lowRatioModel
  minSamples := none

/-- The text `{"generator": {"steps": 4}}`. -/
def fourStepsText : String :=
  "\x7b\"generator\": \x7b\"steps\": 4\x7d\x7d"

/-- The text `{"cost_model": {"optimized": {"received_ratio": 0.95}}}`. -/
def lowRatioText : String :=
  "\x7b\"cost_model\": \x7b\"optimized\": \x7b\"received_ratio\": 0.95\x7d\x7d\x7d"

theorem isWrittenIn_fourSteps : Override.fourSteps.IsWrittenIn fourStepsText := by
  have hrange {v : Reading} (h : SpellsCount 4 v) {q : Json.Quoted} (hq : q.text = .ok "steps") :
      IsObject (SizeRange.Override.mentions ⟨none, none, some 4, none⟩) (.object [(q, v)] none) :=
    ⟨_, _, rfl, .refl _, .cons ⟨hq, h⟩ .nil⟩
  exact ⟨_, rfl, _, _, rfl, .refl _, .cons ⟨rfl, hrange ⟨_, rfl, rfl⟩ rfl⟩ .nil⟩

theorem isWrittenIn_lowRatio : Override.lowRatio.IsWrittenIn lowRatioText := by
  have hmode {v : Reading} (h : SpellsReal 0.95 v) {q : Json.Quoted}
      (hq : q.text = .ok "received_ratio") :
      IsObject lowRatioMode.mentions (.object [(q, v)] none) :=
    ⟨_, _, rfl, .refl _, .cons ⟨hq, h⟩ .nil⟩
  have hmodel {v : Reading} (h : IsObject lowRatioMode.mentions v) {q : Json.Quoted}
      (hq : q.text = .ok "optimized") : IsObject lowRatioModel.mentions (.object [(q, v)] none) :=
    ⟨_, _, rfl, .refl _, .cons ⟨hq, h⟩ .nil⟩
  refine ⟨_, rfl, _, _, rfl, .refl _, .cons ⟨rfl, hmodel (hmode ⟨_, rfl, ?_⟩ rfl) rfl⟩ .nil⟩
  decide +kernel

/-- A machine that holds one file. -/
def holding (name text : String) : Machine where
  files := ⟨[], [([name], .file (some text))]⟩
  clock := ⟨⟨2024, 1, 1⟩, 0, 0⟩
  runId := .ofNat 0

theorem read_holding (text : String) :
    (holding "settings.json" text).files.read "settings.json" = .ok text := by
  rfl

/-- The number of sizes can be overridden alone, a constant of a mode cannot. -/
theorem load_override_one_value :
    ((load "settings.json" : StateM Machine _) (holding "settings.json" fourStepsText)).1 =
      .ok { standard with range := { SizeRange.standard with steps := 4 } } ∧
    ((load "settings.json" : StateM Machine _) (holding "settings.json" lowRatioText)).1 =
      .error (.malformed "settings.json" (.mismatch (.missingField "tx_fee_per_recipient"))) := by
  constructor
  · obtain ⟨r, hrun, hwhole, -⟩ := load_override _ (read_holding _) isWrittenIn_fourSteps
    have hnone (name : String) : ¬ Override.fourSteps.Lacks name := by
      simp [Override.Lacks, Override.fourSteps]
    have hsound : (Override.fourSteps.apply standard).check = .ok () := by decide +kernel
    rw [hrun, (hwhole hnone).1 hsound]
    rfl
  · obtain ⟨r, hrun, -, hlacks⟩ := load_override _ (read_holding _) isWrittenIn_lowRatio
    have hfirst (name : String) :
        Override.lowRatio.Lacks name ↔ name = "tx_fee_per_recipient" := by
      constructor
      · rintro ⟨m, hm, k, o, ho, hname⟩
        obtain rfl := Option.some.inj hm
        cases k with
        | optimized =>
          obtain rfl := Option.some.inj ho
          exact (Option.some.inj hname).symm
        | unoptimized => exact absurd ho (Option.not_mem_none _)
      · rintro rfl
        exact ⟨_, rfl, .optimized, _, rfl, rfl⟩
    obtain ⟨name, hname, hr⟩ := hlacks ⟨_, (hfirst _).mpr rfl⟩
    rw [hrun, hr, (hfirst name).mp hname]

end Settings

end TransferCost
