import TransferCost.Proofs.Binary64.Order
import TransferCost.Proofs.Binary64.Scientific
import TransferCost.Proofs.Json.Members

/-!
# What can be read

A text is read by a decoder made of decoders, and not every value of its type can be the outcome: a
number that is read is finite, and a count is below its bound.  `Yields d P` says that the decoder
`d` takes only values with the property `P`, whatever the text is.

There is one lemma for each way to make a decoder.  A record is filled in update by update, so a
property of records is an invariant: the blank record has it, and each field keeps it
(`Yields.record`).
-/

namespace TransferCost
namespace Json

/-- The decoder takes only values with this property. -/
def Yields {α : Type} (d : Decoder α) (P : α → Prop) : Prop :=
  ∀ v a, d v = .ok a → P a

open Binary64

section Decoders

variable {α κ : Type} {d : Decoder α} {P : α → Prop}

theorem Yields.imp {Q : α → Prop} (h : Yields d P) (hPQ : ∀ a, P a → Q a) : Yields d Q :=
  fun v a ha => hPQ a (h v a ha)

theorem Yields.any (d : Decoder α) : Yields d fun _ => True :=
  fun _ _ _ => trivial

/-- A number that is read is in the range of doubles. -/
theorem isFinite_of_toFloat? {n : Numeral} {x : Float} (h : n.toFloat? = some x) :
    x.isFinite = true := by
  unfold Numeral.toFloat? at h
  dsimp only at h
  generalize hdecimal : Decimal.mk n.coefficient n.exponent = decimal at h
  have hvalue := decimal.value_toFloat
  have hnonneg : 0 ≤ decimal.toRat := by
    unfold Decimal.toRat
    positivity
  have hfinite : decimal.toFloat.isFinite = true := by
    rcases rounded_cases false hnonneg with ⟨-, m, e, heq, -⟩ | ⟨-, heq⟩
    · exact isFinite_iff.mpr ⟨_, _, _, hvalue.trans heq⟩
    · rw [if_pos (isInf_of_value (hvalue.trans heq))] at h
      exact absurd h (by simp)
  split_ifs at h
  · obtain rfl := Option.some.inj h
    exact isFinite_neg hfinite
  · obtain rfl := Option.some.inj h
    exact hfinite

theorem Yields.real : Yields decodeReal fun x => x.isFinite = true := by
  intro v x h
  cases v with
  | number n =>
    unfold decodeReal at h
    dsimp only at h
    cases hx : n.toFloat? with
    | none =>
      rw [hx] at h
      exact absurd h (by simp)
    | some y =>
      rw [hx] at h
      obtain rfl := Except.ok.inj h
      exact isFinite_of_toFloat? hx
  | _ => exact absurd h (by simp [decodeReal])

theorem Yields.count (name : String) (bound : Nat) :
    Yields (decodeCount name bound) (· < bound) := by
  intro v n h
  cases v with
  | number m =>
    unfold decodeCount at h
    dsimp only at h
    generalize m.kind? = kind? at h
    rcases kind? with _ | (k | k | x)
    · exact absurd h (by simp)
    · by_cases hlt : k < bound
      · simp only [hlt, if_true] at h
        obtain rfl := Except.ok.inj h
        exact hlt
      · simp [hlt] at h
    · exact absurd h (by simp)
    · exact absurd h (by simp)
  | _ => exact absurd h (by simp [decodeCount])

theorem Yields.nullable (h : Yields d P) : Yields (decodeNullable d) fun a? => ∀ a ∈ a?, P a := by
  intro v a? hv
  cases v with
  | null =>
    obtain rfl := Except.ok.inj hv
    simp
  | _ =>
    unfold decodeNullable at hv
    obtain ⟨a, ha, rfl⟩ := map_eq_ok_iff.mp hv
    intro b hb
    obtain rfl := Option.some.inj hb
    exact h _ _ ha

theorem Yields.array (h : Yields d P) : Yields (decodeArray d) fun as => ∀ a ∈ as, P a := by
  have hitems : ∀ {items : List Reading} {as : List α}, decodeItems d items = .ok as →
      ∀ a ∈ as, P a := by
    intro items
    induction items with
    | nil =>
      intro as has
      obtain rfl := Except.ok.inj has
      exact List.forall_mem_nil _
    | cons v rest ih =>
      intro as has
      obtain ⟨a, ha, has⟩ := bind_eq_ok_iff.mp has
      obtain ⟨as', has', has⟩ := bind_eq_ok_iff.mp has
      obtain rfl := Except.ok.inj has
      exact List.forall_mem_cons.mpr ⟨h v a ha, ih has'⟩
  intro v as has
  cases v with
  | array items ending =>
    obtain ⟨as', has', has⟩ := bind_eq_ok_iff.mp has
    obtain ⟨_, -, has⟩ := bind_eq_ok_iff.mp has
    obtain rfl := Except.ok.inj has
    exact hitems has'
  | _ => exact absurd has (by simp [decodeArray])

theorem Yields.map (known : List (String × κ)) (h : Yields d P) :
    Yields (decodeMap known d) fun es => ∀ e ∈ es, P e.2 := by
  have hentries : ∀ {members : List (Quoted × Reading)} {es : List (κ × α)},
      decodeEntries known d members = .ok es → ∀ e ∈ es, P e.2 := by
    intro members
    induction members with
    | nil =>
      intro es hes
      obtain rfl := Except.ok.inj hes
      exact List.forall_mem_nil _
    | cons m rest ih =>
      intro es hes
      obtain ⟨key, v⟩ := m
      obtain ⟨name, -, hes⟩ := bind_eq_ok_iff.mp hes
      obtain ⟨k, -, hes⟩ := bind_eq_ok_iff.mp hes
      obtain ⟨a, ha, hes⟩ := bind_eq_ok_iff.mp hes
      obtain ⟨es', hes', hes⟩ := bind_eq_ok_iff.mp hes
      obtain rfl := Except.ok.inj hes
      exact List.forall_mem_cons.mpr ⟨h v a ha, ih hes'⟩
  intro v es hes
  cases v with
  | object members ending =>
    obtain ⟨es', hes', hes⟩ := bind_eq_ok_iff.mp hes
    obtain ⟨_, -, hes⟩ := bind_eq_ok_iff.mp hes
    obtain rfl := Except.ok.inj hes
    exact hentries hes'
  | _ => exact absurd hes (by simp [decodeMap])

/-- A property of all that can be read is one of whatever is read from a text. -/
theorem Yields.string (h : Yields d P) {text : String} {a : α} (ha : decodeString d text = .ok a) :
    P a := by
  unfold decodeString at ha
  generalize Reading.ofString text = answer at ha
  obtain ⟨v, surplus⟩ := answer
  obtain ⟨b, hb, ha⟩ := bind_eq_ok_iff.mp ha
  cases surplus with
  | true => exact absurd ha (by simp [bind, Except.bind, throw, throwThe, MonadExceptOf.throw])
  | false =>
    obtain rfl := Except.ok.inj ha
    exact h v b hb

end Decoders

/-! ## Records -/

section Records

variable {ρ : Type} {s : RecordShape ρ} {P : ρ → Prop}

/-- The field keeps this property of the record. -/
def Field.Keeps (f : Field ρ) (P : ρ → Prop) : Prop :=
  ∀ v update, f.read v = .ok update → ∀ r, P r → P (update r)

/-- A field keeps what is kept by putting in any value that it can read. -/
theorem Field.keeps_of {α : Type} {d : Decoder α} {Q : α → Prop} (h : Yields d Q) (name : String)
    (presence : Presence) {put : α → ρ → ρ} (hput : ∀ a r, Q a → P r → P (put a r)) :
    (Field.of name presence d put).Keeps P := by
  intro v update hv r hr
  obtain ⟨a, ha, rfl⟩ := map_eq_ok_iff.mp hv
  exact hput a r (h v a ha) hr

theorem of_brings (hs : ∀ f ∈ s.fields, f.Keeps P) {check : Reading → Except ReadError Unit}
    {ms : List (Quoted × Reading)} {us : List (Update ρ)} (h : Brings s check ms us) {r : ρ}
    (hr : P r) : P (applyAll us r) := by
  induction h generalizing r with
  | nil => exact hr
  | unknown key field value tail ih => exact ih hr
  | known key field value tail ih => exact ih (hs _ (mem_fields_of_field? field) _ _ value r hr)

theorem of_readItems {fields : List (Field ρ)} (hfields : ∀ f ∈ fields, f.Keeps P)
    {ending : Option Flaw} {items : List Reading} {r r' : ρ} {index : Nat}
    (h : s.readItems ending r index fields items = .ok r') (hr : P r) : P r' := by
  induction fields generalizing r index items with
  | nil =>
    cases items with
    | nil =>
      obtain ⟨_, -, h⟩ := bind_eq_ok_iff.mp h
      exact Except.ok.inj h ▸ hr
    | cons v rest => exact absurd h (by simp [RecordShape.readItems])
  | cons f fields ih =>
    obtain ⟨hf, hfields⟩ := List.forall_mem_cons.mp hfields
    cases items with
    | nil =>
      obtain ⟨_, -, h⟩ := bind_eq_ok_iff.mp h
      split at h
      · exact ih hfields h hr
      all_goals exact absurd h (by simp [throw, throwThe, MonadExceptOf.throw])
    | cons v rest =>
      obtain ⟨update, hv, h⟩ := bind_eq_ok_iff.mp h
      exact ih hfields h (hf v update hv r hr)

/-- **What the blank record has and each field keeps is true of every record that is read**, as an
object or as an array. -/
theorem Yields.record (hblank : P s.blank) (hs : ∀ f ∈ s.fields, f.Keeps P) : Yields s.read P := by
  intro v r h
  cases v with
  | object members ending =>
    obtain ⟨answer, hmembers, h⟩ := bind_eq_ok_iff.mp h
    obtain ⟨_, -, h⟩ := bind_eq_ok_iff.mp h
    obtain ⟨us, hus, -, -, happly⟩ := brings_of_walk (walk_skim_iff.mpr ⟨_, hmembers⟩)
    have hanswer : answer.1 = r := by
      split at h
      · exact absurd h (by simp [throw, throwThe, MonadExceptOf.throw])
      · exact Except.ok.inj h
    rw [← hanswer, ← happly]
    exact of_brings hs hus hblank
  | array items ending => exact of_readItems hs h hblank
  | _ => exact absurd h (by simp [RecordShape.read])

/-- A record whose fields are listed one by one. -/
theorem Yields.listed (hblank : P s.blank) (hs : s.fields.Forall fun f => f.Keeps P) :
    Yields s.read P :=
  .record hblank (List.forall_iff_forall_mem.mp hs)

end Records
end Json
end TransferCost
