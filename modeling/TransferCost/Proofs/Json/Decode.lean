import TransferCost.Json.Record
import TransferCost.Proofs.Json.Written

/-!
# Decoders take back what was written

`Decodes d v a` says that the decoder `d` takes the value `a` from the document `v`, as it is read
from its text.  This file has one rule for each way to write a value, so that a round trip is proved
along the document, and never along its text.

## Records

A record is read member by member, and each member changes the record so far.  `Fills` follows the
fields of a shape and the members of an object side by side, from the record in front of the first
to the record behind the last.  If the names of the fields are distinct, every member finds its own
field and no field is met twice, so a record is read along `Fills` on both of the ways there are:
`Decodes.record` and `Decodes.kept`.
-/

namespace TransferCost
namespace Json

/-- The decoder takes this value from the document. -/
def Decodes {α : Type} (d : Decoder α) (v : Json) (a : α) : Prop :=
  d v.reading = .ok a

section Values

variable {α β : Type} {d : Decoder α} {v : Json} {a : α}

/-- **A document is decoded from its text.** -/
theorem Decodes.string (h : Decodes d v a) : decodeString d v.prettyText = .ok a := by
  unfold Decodes at h
  rw [decodeString, ofString_prettyText]
  dsimp only
  rw [h]
  rfl

/-! ## Values without parts -/

theorem Decodes.real {x : Float} (hx : x.isFinite = true) : Decodes decodeReal (.real x) x := by
  obtain ⟨n, hn, hread⟩ := exists_numeral? hx
  rw [Decodes, reading, quantityReading, hn]
  show decodeReal (.number n) = _
  rw [decodeReal, hread]

theorem Decodes.count {n bound : ℕ} (name : String) (hn : n < bound)
    (hbound : bound ≤ Nat.pow 2 64) :
    Decodes (decodeCount name bound) (.count n) n := by
  have hkind : Numeral.kind? ⟨false, n, 0, true⟩ = some (.unsigned n) := by
    have hfits : (true && !false && decide (n < Nat.pow 2 64)) = true :=
      decide_eq_true (hn.trans_le hbound)
    exact if_pos hfits
  rw [Decodes, reading, decodeCount, hkind]
  exact if_pos hn

/-- A string without flaws has its text. -/
theorem text_ofString (s : String) : (Quoted.ofString s).text = .ok s := by
  have hchars (cs : List Char) : Quoted.charsOf none (cs.map Piece.char) = .ok cs := by
    induction cs with
    | nil => rfl
    | cons c cs ih =>
      rw [List.map_cons, Quoted.charsOf, ih]
      rfl
  show (Quoted.charsOf none (s.toList.map Piece.char) >>= fun cs => pure (String.ofList cs)) = _
  rw [hchars]
  exact congrArg Except.ok String.ofList_toList

theorem read_ofString (s : String) : (Quoted.ofString s).read (α := Mismatch) = .ok s := by
  rw [Quoted.read, text_ofString]

theorem Decodes.text (s : String) : Decodes decodeText (.text s) s := by
  rw [Decodes, reading]
  exact read_ofString s

/-- A text that spells a value. -/
theorem Decodes.spelled {s : String} {parse : String → Option α} (expected what : String)
    (h : parse s = some a) : Decodes (decodeSpelled expected what parse) (.text s) a := by
  have htext : decodeTextAs expected (Json.text s).reading = .ok s := by
    rw [reading]
    exact read_ofString s
  rw [Decodes, decodeSpelled, htext]
  dsimp only [bind, Except.bind]
  rw [h]
  rfl

theorem variantNamed_of_lookup {known : List (String × α)} {name : String}
    (h : known.lookup name = some a) : variantNamed known name = .ok a := by
  rw [variantNamed, h]

/-- The name of a variant. -/
theorem Decodes.variant {known : List (String × α)} {name : String}
    (h : known.lookup name = some a) : Decodes (decodeVariant known) (.text name) a := by
  rw [Decodes, reading, decodeVariant, read_ofString]
  exact variantNamed_of_lookup h

theorem Decodes.count64 {n : ℕ} (hn : n < Nat.pow 2 64) : Decodes decodeCount64 (.count n) n :=
  Decodes.count "usize" hn le_rfl

theorem Decodes.count32 (n : UInt32) : Decodes decodeCount32 (.count n.toNat) n := by
  have h : decodeCount "u32" (Nat.pow 2 32) (Json.count n.toNat).reading = .ok n.toNat :=
    Decodes.count "u32" n.toNat_lt (by decide)
  rw [Decodes, decodeCount32, h]
  exact congrArg Except.ok UInt32.ofNat_toNat

/-! ## Values that may be missing -/

theorem Decodes.nullable (h : Decodes d v a) (hv : v.reading ≠ .null) :
    Decodes (decodeNullable d) v (some a) := by
  unfold Decodes at h ⊢
  cases hr : v.reading with
  | null => exact absurd hr hv
  | _ =>
    rw [hr] at h
    rw [decodeNullable, h]
    · rfl
    · simp

/-- A value that is there, or is not. -/
theorem Decodes.optional {f : α → Json} {a? : Option α}
    (h : ∀ a ∈ a?, Decodes d (f a) a ∧ (f a).reading ≠ .null) :
    Decodes (decodeNullable d) (Json.optional f a?) a? := by
  cases a? with
  | none =>
    rw [Decodes, Json.optional, reading]
    rfl
  | some a =>
    obtain ⟨ha, hnull⟩ := h a rfl
    exact ha.nullable hnull

theorem reading_real_ne_null {x : Float} (hx : x.isFinite = true) : (real x).reading ≠ .null := by
  obtain ⟨n, hn, -⟩ := exists_numeral? hx
  rw [reading, quantityReading, hn]
  simp

theorem reading_count_ne_null (n : ℕ) : (count n).reading ≠ .null := by
  rw [reading]
  simp

theorem reading_array_ne_null (vs : List Json) : (array vs).reading ≠ .null := by
  rw [reading]
  simp

theorem reading_object_ne_null (ms : List (String × Json)) : (object ms).reading ≠ .null := by
  rw [reading]
  simp

/-! ## Arrays -/

theorem Decodes.array {xs : List β} {f : β → Json} {g : β → α}
    (h : ∀ x ∈ xs, Decodes d (f x) (g x)) :
    Decodes (decodeArray d) (.array (xs.map f)) (xs.map g) := by
  have hitems : decodeItems d (itemReadings (xs.map f)) = .ok (xs.map g) := by
    induction xs with
    | nil => rw [List.map_nil, List.map_nil, itemReadings, decodeItems]
    | cons x xs ih =>
      have hx : d (f x).reading = .ok (g x) := h x List.mem_cons_self
      have hxs := ih fun x' hx' => h x' (List.mem_cons_of_mem x hx')
      rw [List.map_cons, List.map_cons, itemReadings, decodeItems, hx, hxs]
      rfl
  rw [Decodes, reading, decodeArray, hitems]
  rfl

/-- An array whose items are written as they are. -/
theorem Decodes.list {xs : List α} {f : α → Json} (h : ∀ x ∈ xs, Decodes d (f x) x) :
    Decodes (decodeArray d) (.array (xs.map f)) xs := by
  have harray := Decodes.array (g := id) h
  rwa [List.map_id] at harray

/-! ## Objects with keys from a closed set -/

/-- **Entries are read back**, each under the name of its key. -/
theorem Decodes.map {κ : Type} {known : List (String × κ)} {name : κ → String}
    {entries : List (κ × α)} {f : α → Json}
    (hnames : ∀ e ∈ entries, known.lookup (name e.1) = some e.1)
    (h : ∀ e ∈ entries, Decodes d (f e.2) e.2) :
    Decodes (decodeMap known d) (.object (entries.map fun e => (name e.1, f e.2))) entries := by
  have hentries : decodeEntries known d
      (memberReadings (entries.map fun e => (name e.1, f e.2))) = .ok entries := by
    induction entries with
    | nil => rw [List.map_nil, memberReadings, decodeEntries]
    | cons e entries ih =>
      have he : d (f e.2).reading = .ok e.2 := h e List.mem_cons_self
      have hname := variantNamed_of_lookup (hnames e List.mem_cons_self)
      have hrest := ih (fun e' he' => hnames e' (List.mem_cons_of_mem e he'))
        fun e' he' => h e' (List.mem_cons_of_mem e he')
      rw [List.map_cons, memberReadings, decodeEntries, read_ofString, hrest]
      dsimp only [bind, Except.bind]
      rw [hname]
      dsimp only
      rw [he]
      rfl
  rw [Decodes, reading, decodeMap, hentries]
  rfl

end Values

/-! ## Records -/

section Records

variable {ρ κ α : Type}

/-- The members of an object change a record, each through the field of its name. -/
inductive Fills : List (Field ρ) → List (String × Json) → ρ → ρ → Prop where
  | nil (r : ρ) : Fills [] [] r r
  | cons {f : Field ρ} {fs : List (Field ρ)} {v : Json} {ms : List (String × Json)}
      {update : ρ → ρ} {r r' : ρ} (head : Decodes f.read v update)
      (tail : Fills fs ms (update r) r') :
      Fills (f :: fs) ((f.name, v) :: ms) r r'

theorem Fills.field {d : Decoder α} {put : α → ρ → ρ} {v : Json} {a : α} {name : String}
    {presence : Presence} {fs : List (Field ρ)} {ms : List (String × Json)} {r r' : ρ}
    (head : Decodes d v a) (tail : Fills fs ms (put a r) r') :
    Fills (.of name presence d put :: fs) ((name, v) :: ms) r r' := by
  refine .cons (f := .of name presence d put) ?_ tail
  show put <$> d v.reading = _
  rw [show d v.reading = .ok a from head]
  rfl

/-- One field for each key. -/
theorem Fills.each {d : κ → Decoder α} {v : κ → Json} {a : κ → α}
    (h : ∀ k, Decodes (d k) (v k) (a k)) (name : κ → String) (presence : Presence)
    (put : κ → α → ρ → ρ) (ks : List κ) (r : ρ) :
    Fills (ks.map fun k => .of (name k) presence (d k) (put k)) (ks.map fun k => (name k, v k)) r
      (ks.foldl (fun r k => put k (a k) r) r) := by
  induction ks generalizing r with
  | nil => exact .nil r
  | cons k ks ih => exact .field (h k) (ih (put k (a k) r))

/-- Fields in front of other fields. -/
theorem Fills.append {fs fs' : List (Field ρ)} {ms ms' : List (String × Json)} {r r' r'' : ρ}
    (h : Fills fs ms r r') (h' : Fills fs' ms' r' r'') : Fills (fs ++ fs') (ms ++ ms') r r'' := by
  induction h with
  | nil r => exact h'
  | cons head _ ih => exact .cons head (ih h')

variable {s : RecordShape ρ}

/-- A member finds the field of its name, if no field in front has this name. -/
theorem find?_field {met fs : List (Field ρ)} {f : Field ρ} (hs : s.fields = met ++ f :: fs)
    (hf : f.name ∉ met.map (·.name)) : s.fields.find? (·.name = f.name) = some f := by
  have hnone : met.find? (·.name = f.name) = none := by
    rw [List.find?_eq_none]
    intro g hg hname
    exact hf (List.mem_map.mpr ⟨g, hg, of_decide_eq_true hname⟩)
  have hself : decide (f.name = f.name) = true := decide_eq_true rfl
  rw [hs, List.find?_append, hnone, Option.none_or, List.find?_cons, hself]

theorem name_notMem_met (hn : (s.fields.map (·.name)).Nodup) {met fs : List (Field ρ)} {f : Field ρ}
    (hs : s.fields = met ++ f :: fs) : f.name ∉ met.map (·.name) := by
  rw [hs, List.map_append, List.map_cons, List.nodup_middle, List.nodup_cons, List.mem_append,
    not_or] at hn
  exact hn.1.1

theorem contains_met {met : List (Field ρ)} {name : String} (h : name ∉ met.map (·.name)) :
    (met.map (·.name)).reverse.contains name = false := by
  rw [List.contains_eq_mem, decide_eq_false_iff_not, List.mem_reverse]
  exact h

theorem readMembers_of_fills (hn : (s.fields.map (·.name)).Nodup) {fs : List (Field ρ)}
    {ms : List (String × Json)} {r r' : ρ} (h : Fills fs ms r r') (met : List (Field ρ))
    (hs : s.fields = met ++ fs) :
    s.readMembers r (met.map (·.name)).reverse (memberReadings ms) =
      .ok (r', (s.fields.map (·.name)).reverse) := by
  induction h generalizing met with
  | nil r =>
    rw [hs, List.append_nil]
    rfl
  | @cons f fs v ms update r r' head tail ih =>
    have hf := name_notMem_met hn hs
    have htail := ih (met ++ [f]) (by rw [hs, List.append_assoc]; rfl)
    rw [List.map_append, List.map_singleton, List.reverse_append] at htail
    have hhead : f.read v.reading = .ok update := head
    rw [memberReadings, RecordShape.readMembers, read_ofString]
    dsimp only [bind, Except.bind]
    rw [find?_field hs hf]
    dsimp only
    rw [contains_met hf, hhead]
    exact htail

/-- **A record is read as its members fill it in.** -/
theorem Decodes.record {ms : List (String × Json)} {r : ρ} (hn : (s.fields.map (·.name)).Nodup)
    (h : Fills s.fields ms s.blank r) : Decodes s.read (.object ms) r := by
  have hmembers := readMembers_of_fills hn h [] rfl
  have hmissing : s.firstMissing (s.fields.map (·.name)).reverse = none := by
    rw [RecordShape.firstMissing, Option.map_eq_none_iff, List.find?_eq_none]
    intro f hf
    have hmet : (s.fields.map (·.name)).reverse.contains f.name = true := by
      rw [List.contains_iff_mem, List.mem_reverse]
      exact List.mem_map_of_mem hf
    rw [hmet, Bool.not_true, Bool.and_false]
    exact Bool.false_ne_true
  rw [List.map_nil, List.reverse_nil] at hmembers
  rw [Decodes, reading, RecordShape.read, hmembers]
  dsimp only [bind, Except.bind, checkEnding]
  rw [hmissing]
  rfl

theorem readKeptMembers_of_fills (hn : (s.fields.map (·.name)).Nodup) {fs : List (Field ρ)}
    {ms : List (String × Json)} {r r' : ρ} (h : Fills fs ms r r') (room : ℕ)
    (met : List (Field ρ)) (hs : s.fields = met ++ fs) :
    readKeptMembers s room ⟨r, []⟩ (met.map (·.name)).reverse (memberReadings ms) =
      .ok ⟨r', []⟩ := by
  induction h generalizing met with
  | nil r => rfl
  | @cons f fs v ms update r r' head tail ih =>
    have hf := name_notMem_met hn hs
    have htail := ih (met ++ [f]) (by rw [hs, List.append_assoc]; rfl)
    rw [List.map_append, List.map_singleton, List.reverse_append] at htail
    have hhead : f.read v.reading = .ok update := head
    rw [memberReadings, readKeptMembers, read_ofString]
    dsimp only [bind, Except.bind]
    rw [find?_field hs hf]
    dsimp only
    rw [contains_met hf, hhead]
    exact htail

/-- **A record that may hold further keys** is read as its members fill it in, and no key is
unknown. -/
theorem Decodes.kept {ms : List (String × Json)} {r : ρ} (hn : (s.fields.map (·.name)).Nodup)
    (h : Fills s.fields ms s.blank r) (room : ℕ) :
    Decodes (readKept s room) (.object ms) ⟨r, []⟩ := by
  have hmembers := readKeptMembers_of_fills hn h room [] rfl
  rw [List.map_nil, List.reverse_nil] at hmembers
  rw [Decodes, reading, readKept, hmembers]
  rfl

end Records

end Json
end TransferCost
