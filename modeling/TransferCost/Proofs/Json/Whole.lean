import TransferCost.Proofs.Json.Members

/-!
# What is taken has no flaws

The scanner and the builder never fail; a flaw of the text stands in the tree where the reading
stopped, and it is the decoder that meets it.  This file proves that no decoder gets around a flaw.
If a value is taken from a tree, the tree is whole, and so is the text.

## 1.  Whole trees

`Reading.IsWhole` says that a tree holds no flaw.  `Whole d` says that the decoder `d` takes values
from whole trees only.  There is one lemma for each decoder, and the two lenient ways to look at a
value, skipping and keeping, are among them.

## 2.  Whole texts

The builder consumes the tokens one by one.  `grow_isWhole` says that a whole tree, behind which
nothing stands, was made of whole tokens; so the scanner has met no flaw in its text.
-/

namespace TransferCost
namespace Json

/-! ## 1.  Whole trees -/

/-- The tree holds no flaw. -/
inductive Reading.IsWhole : Reading → Prop where
  | null : IsWhole .null
  | bool (b : Bool) : IsWhole (.bool b)
  | number (n : Numeral) : IsWhole (.number n)
  | text {q : Quoted} (h : q.ending = none) : IsWhole (.text q)
  | array {items : List Reading} (h : ∀ v ∈ items, IsWhole v) : IsWhole (.array items none)
  | object {members : List (Quoted × Reading)} (keys : ∀ m ∈ members, m.1.ending = none)
      (values : ∀ m ∈ members, IsWhole m.2) : IsWhole (.object members none)

section Lenient

variable {α : Type} {refusal : Flaw → Refusal α}

theorem eq_none_of_checkEnding {ending : Option Flaw}
    (h : checkEnding refusal ending = .ok ()) : ending = none := by
  cases ending with
  | none => rfl
  | some f => exact absurd h (by simp [checkEnding])

theorem ending_of_charsOf {ending : Option Flaw} {ps : List Piece} {cs : List Char}
    (h : Quoted.charsOf ending ps = .ok cs) : ending = none := by
  induction ps generalizing cs with
  | nil =>
    cases ending with
    | none => rfl
    | some f => exact absurd h (by simp [Quoted.charsOf])
  | cons p ps ih =>
    cases p with
    | char c =>
      obtain ⟨cs', hcs', -⟩ := bind_eq_ok_iff.mp h
      exact ih hcs'
    | lone => exact absurd h (by simp [Quoted.charsOf])

/-- A string that is read does not break off. -/
theorem ending_of_text {q : Quoted} {s : String} (h : q.text = .ok s) : q.ending = none := by
  obtain ⟨cs, hcs, -⟩ := bind_eq_ok_iff.mp h
  exact ending_of_charsOf hcs

theorem ending_of_read {q : Quoted} {s : String} (h : q.read (α := α) = .ok s) :
    q.ending = none :=
  ending_of_text (read_eq_ok_iff.mp h)

mutual

/-- What is skipped is whole. -/
theorem isWhole_of_skim : ∀ {v : Reading}, v.skim (α := α) = .ok () → v.IsWhole
  | .null, _ => .null
  | .bool b, _ => .bool b
  | .number n, _ => .number n
  | .text q, h => .text (eq_none_of_checkEnding (by rwa [Reading.skim] at h))
  | .array items ending, h => by
    rw [Reading.skim] at h
    obtain ⟨_, hitems, hending⟩ := bind_eq_ok_iff.mp h
    obtain rfl := eq_none_of_checkEnding hending
    exact .array (isWhole_of_skimItems hitems)
  | .object members ending, h => by
    rw [Reading.skim] at h
    obtain ⟨_, hmembers, hending⟩ := bind_eq_ok_iff.mp h
    obtain rfl := eq_none_of_checkEnding hending
    have hwhole := isWhole_of_skimMembers hmembers
    exact .object (fun m hm => (hwhole m hm).1) fun m hm => (hwhole m hm).2
  | .keyless, h => absurd h (by rw [Reading.skim]; simp)
  | .broken f, h => absurd h (by rw [Reading.skim]; simp)

theorem isWhole_of_skimItems : ∀ {items : List Reading}, skimItems (α := α) items = .ok () →
    ∀ v ∈ items, v.IsWhole
  | [], _ => List.forall_mem_nil _
  | v :: rest, h => by
    rw [skimItems] at h
    obtain ⟨_, hv, hrest⟩ := bind_eq_ok_iff.mp h
    exact List.forall_mem_cons.mpr ⟨isWhole_of_skim hv, isWhole_of_skimItems hrest⟩

theorem isWhole_of_skimMembers : ∀ {members : List (Quoted × Reading)},
    skimMembers (α := α) members = .ok () → ∀ m ∈ members, m.1.ending = none ∧ m.2.IsWhole
  | [], _ => List.forall_mem_nil _
  | (key, v) :: rest, h => by
    rw [skimMembers] at h
    obtain ⟨_, hkey, h⟩ := bind_eq_ok_iff.mp h
    obtain ⟨_, hv, hrest⟩ := bind_eq_ok_iff.mp h
    exact List.forall_mem_cons.mpr
      ⟨⟨eq_none_of_checkEnding hkey, isWhole_of_skim hv⟩, isWhole_of_skimMembers hrest⟩

end

mutual

/-- What is kept is whole. -/
theorem isWhole_of_keep : ∀ {v : Reading} {room : Nat}, v.keep (α := α) room = .ok () → v.IsWhole
  | .null, _, _ => .null
  | .bool b, _, _ => .bool b
  | .number n, _, _ => .number n
  | .text q, room, h => by
    rw [Reading.keep] at h
    obtain ⟨s, hs, -⟩ := bind_eq_ok_iff.mp h
    exact .text (ending_of_read hs)
  | .array items ending, room, h => by
    rw [Reading.keep] at h
    split_ifs at h
    obtain ⟨_, hitems, hending⟩ := bind_eq_ok_iff.mp h
    obtain rfl := eq_none_of_checkEnding hending
    exact .array (isWhole_of_keepItems hitems)
  | .object members ending, room, h => by
    rw [Reading.keep] at h
    split_ifs at h
    obtain ⟨_, hmembers, hending⟩ := bind_eq_ok_iff.mp h
    obtain rfl := eq_none_of_checkEnding hending
    have hwhole := isWhole_of_keepMembers hmembers
    exact .object (fun m hm => (hwhole m hm).1) fun m hm => (hwhole m hm).2
  | .keyless, room, h => by
    rw [Reading.keep] at h
    split_ifs at h
  | .broken f, room, h => absurd h (by rw [Reading.keep]; simp)

theorem isWhole_of_keepItems : ∀ {items : List Reading} {room : Nat},
    keepItems (α := α) room items = .ok () → ∀ v ∈ items, v.IsWhole
  | [], _, _ => List.forall_mem_nil _
  | v :: rest, room, h => by
    rw [keepItems] at h
    obtain ⟨_, hv, hrest⟩ := bind_eq_ok_iff.mp h
    exact List.forall_mem_cons.mpr ⟨isWhole_of_keep hv, isWhole_of_keepItems hrest⟩

theorem isWhole_of_keepMembers : ∀ {members : List (Quoted × Reading)} {room : Nat},
    keepMembers (α := α) room members = .ok () → ∀ m ∈ members, m.1.ending = none ∧ m.2.IsWhole
  | [], _, _ => List.forall_mem_nil _
  | (key, v) :: rest, room, h => by
    rw [keepMembers] at h
    obtain ⟨s, hkey, h⟩ := bind_eq_ok_iff.mp h
    obtain ⟨_, hv, hrest⟩ := bind_eq_ok_iff.mp h
    exact List.forall_mem_cons.mpr
      ⟨⟨ending_of_read hkey, isWhole_of_keep hv⟩, isWhole_of_keepMembers hrest⟩

end

end Lenient

section Limits

variable {α : Type}

mutual

/-- What is whole can be skipped. -/
theorem skim_of_isWhole : ∀ {v : Reading}, v.IsWhole → v.skim (α := α) = .ok ()
  | .null, _ | .bool _, _ | .number _, _ => by rw [Reading.skim]
  | .text q, h => by
    obtain _ | _ | _ | hq := h
    rw [Reading.skim, hq]
    rfl
  | .array items ending, h => by
    obtain _ | _ | _ | _ | hitems := h
    rw [Reading.skim, skimItems_of_isWhole hitems]
    rfl
  | .object members ending, h => by
    obtain _ | _ | _ | _ | _ | ⟨hkeys, hvalues⟩ := h
    rw [Reading.skim, skimMembers_of_isWhole hkeys hvalues]
    rfl
  | .keyless, h => nomatch h
  | .broken _, h => nomatch h

theorem skimItems_of_isWhole : ∀ {items : List Reading}, (∀ v ∈ items, v.IsWhole) →
    skimItems (α := α) items = .ok ()
  | [], _ => by rw [skimItems]
  | v :: rest, h => by
    obtain ⟨hv, hrest⟩ := List.forall_mem_cons.mp h
    rw [skimItems, skim_of_isWhole hv]
    exact skimItems_of_isWhole hrest

theorem skimMembers_of_isWhole : ∀ {members : List (Quoted × Reading)},
    (∀ m ∈ members, m.1.ending = none) → (∀ m ∈ members, m.2.IsWhole) →
      skimMembers (α := α) members = .ok ()
  | [], _, _ => by rw [skimMembers]
  | (key, v) :: rest, hkeys, hvalues => by
    obtain ⟨hkey, hkeys⟩ := List.forall_mem_cons.mp hkeys
    obtain ⟨hv, hvalues⟩ := List.forall_mem_cons.mp hvalues
    rw [skimMembers, hkey, skim_of_isWhole hv]
    exact skimMembers_of_isWhole hkeys hvalues

end

/-- A JSON value within limits: its numbers are in the range of doubles, its strings consist of
characters, and at most `room` arrays and objects are opened inside each other. -/
inductive Reading.Fits : Nat → Reading → Prop where
  | null (room : Nat) : Fits room .null
  | bool (room : Nat) (b : Bool) : Fits room (.bool b)
  | number (room : Nat) {n : Numeral} (h : n.toFloat?.isSome = true) : Fits room (.number n)
  | text (room : Nat) {q : Quoted} {s : String} (h : q.text = .ok s) : Fits room (.text q)
  | array {room : Nat} {items : List Reading} (h : ∀ v ∈ items, Fits room v) :
      Fits (room + 1) (.array items none)
  | object {room : Nat} {members : List (Quoted × Reading)}
      (keys : ∀ m ∈ members, ∃ s, m.1.text = .ok s) (values : ∀ m ∈ members, Fits room m.2) :
      Fits (room + 1) (.object members none)

theorem keepItems_of_forall {room : Nat} {items : List Reading}
    (h : ∀ v ∈ items, v.keep (α := α) room = .ok ()) : keepItems (α := α) room items = .ok () := by
  induction items with
  | nil => rw [keepItems]
  | cons v rest ih =>
    obtain ⟨hv, hrest⟩ := List.forall_mem_cons.mp h
    rw [keepItems, hv]
    exact ih hrest

theorem keepMembers_of_forall {room : Nat} {members : List (Quoted × Reading)}
    (hkeys : ∀ m ∈ members, ∃ s, m.1.text = .ok s)
    (h : ∀ m ∈ members, m.2.keep (α := α) room = .ok ()) :
    keepMembers (α := α) room members = .ok () := by
  induction members with
  | nil => rw [keepMembers]
  | cons m rest ih =>
    obtain ⟨key, v⟩ := m
    obtain ⟨⟨s, hkey⟩, hkeys⟩ := List.forall_mem_cons.mp hkeys
    obtain ⟨hv, hrest⟩ := List.forall_mem_cons.mp h
    rw [keepMembers, read_eq_ok_iff.mpr hkey]
    dsimp only [bind, Except.bind]
    rw [hv]
    exact ih hkeys hrest

/-- **What fits can be kept.** -/
theorem Reading.Fits.keep {room : Nat} {v : Reading} (h : v.Fits room) :
    v.keep (α := α) room = .ok () := by
  induction h with
  | null room => rw [Reading.keep]
  | bool room b => rw [Reading.keep]
  | number room h => rw [Reading.keep, if_pos h]
  | text room h =>
    rw [Reading.keep, read_eq_ok_iff.mpr h]
    rfl
  | @array room items h ih =>
    rw [Reading.keep, if_neg (Nat.succ_ne_zero room), Nat.add_sub_cancel, keepItems_of_forall ih]
    rfl
  | @object room members keys values ih =>
    rw [Reading.keep, if_neg (Nat.succ_ne_zero room), Nat.add_sub_cancel,
      keepMembers_of_forall keys ih]
    rfl

/-- What fits can be skipped. -/
theorem Reading.Fits.skim {room : Nat} {v : Reading} (h : v.Fits room) :
    v.skim (α := α) = .ok () :=
  skim_of_isWhole (isWhole_of_keep (α := α) h.keep)

end Limits

/-! ### Decoders -/

/-- The decoder takes values from whole trees only. -/
def Whole {α : Type} (d : Decoder α) : Prop :=
  ∀ v a, d v = .ok a → v.IsWhole

section Decoders

variable {α β : Type} {d : Decoder α}

theorem Whole.real : Whole decodeReal := by
  intro v x h
  cases v with
  | number n => exact .number n
  | _ => exact absurd h (by simp [decodeReal])

theorem Whole.count (name : String) (bound : Nat) : Whole (decodeCount name bound) := by
  intro v n h
  cases v with
  | number n => exact .number n
  | _ => exact absurd h (by simp [decodeCount])

theorem Whole.count32 : Whole decodeCount32 := by
  intro v n h
  obtain ⟨k, hk, -⟩ := bind_eq_ok_iff.mp h
  exact Whole.count "u32" (Nat.pow 2 32) v k hk

theorem Whole.map (h : Whole d) (f : α → β) : Whole fun v => f <$> d v := by
  intro v b hb
  dsimp only at hb
  cases hd : d v with
  | error e =>
    rw [hd] at hb
    exact absurd hb (by simp [Functor.map, Except.map])
  | ok a => exact h v a hd

theorem Whole.nullable (h : Whole d) : Whole (decodeNullable d) := by
  intro v a ha
  cases v with
  | null => exact .null
  | _ => exact h.map some _ a ha

theorem Whole.array (h : Whole d) : Whole (decodeArray d) := by
  have hitems : ∀ {items : List Reading} {as : List α}, decodeItems d items = .ok as →
      ∀ v ∈ items, v.IsWhole := by
    intro items
    induction items with
    | nil => exact fun _ => List.forall_mem_nil _
    | cons v rest ih =>
      intro as has
      obtain ⟨a, ha, has⟩ := bind_eq_ok_iff.mp has
      obtain ⟨as', has', -⟩ := bind_eq_ok_iff.mp has
      exact List.forall_mem_cons.mpr ⟨h v a ha, ih has'⟩
  intro v as has
  cases v with
  | array items ending =>
    obtain ⟨as', has', has⟩ := bind_eq_ok_iff.mp has
    obtain ⟨_, hending, -⟩ := bind_eq_ok_iff.mp has
    obtain rfl := eq_none_of_checkEnding hending
    exact .array (hitems has')
  | _ => exact absurd has (by simp [decodeArray])

end Decoders

section Records

variable {ρ : Type} {s : RecordShape ρ}

theorem Whole.field {α : Type} {d : Decoder α} (h : Whole d) (name : String) (presence : Presence)
    (put : α → ρ → ρ) : Whole (Field.of name presence d put).read :=
  h.map put

/-- Members that are accepted are whole. -/
theorem Brings.isWhole {check : Reading → Except ReadError Unit}
    (hcheck : ∀ v, check v = .ok () → v.IsWhole) (hs : ∀ f ∈ s.fields, Whole f.read)
    {ms : List (Quoted × Reading)} {us : List (Update ρ)} (h : Brings s check ms us) :
    (Reading.object ms none).IsWhole := by
  have hms : ∀ m ∈ ms, m.1.ending = none ∧ m.2.IsWhole := by
    induction h with
    | nil => exact List.forall_mem_nil _
    | unknown key field value tail ih =>
      exact List.forall_mem_cons.mpr ⟨⟨ending_of_text key, hcheck _ value⟩, ih⟩
    | known key field value tail ih =>
      have hwhole := hs _ (mem_fields_of_field? field) _ _ value
      exact List.forall_mem_cons.mpr ⟨⟨ending_of_text key, hwhole⟩, ih⟩
  exact .object (fun m hm => (hms m hm).1) fun m hm => (hms m hm).2

theorem isWhole_of_readItems (s : RecordShape ρ) {fields : List (Field ρ)}
    (hfields : ∀ f ∈ fields, Whole f.read) {ending : Option Flaw} {items : List Reading} {r r' : ρ}
    {index : Nat} (h : s.readItems ending r index fields items = .ok r') :
    ending = none ∧ ∀ v ∈ items, v.IsWhole := by
  induction fields generalizing r index items with
  | nil =>
    cases items with
    | nil =>
      obtain ⟨_, hending, -⟩ := bind_eq_ok_iff.mp h
      exact ⟨eq_none_of_checkEnding hending, List.forall_mem_nil _⟩
    | cons v rest => exact absurd h (by simp [RecordShape.readItems])
  | cons f fields ih =>
    obtain ⟨hf, hfields⟩ := List.forall_mem_cons.mp hfields
    cases items with
    | nil =>
      obtain ⟨_, hending, -⟩ := bind_eq_ok_iff.mp h
      exact ⟨eq_none_of_checkEnding hending, List.forall_mem_nil _⟩
    | cons v rest =>
      obtain ⟨update, hv, h⟩ := bind_eq_ok_iff.mp h
      obtain ⟨hending, hrest⟩ := ih hfields h
      exact ⟨hending, List.forall_mem_cons.mpr ⟨hf v update hv, hrest⟩⟩

/-- A record is read from a whole object or a whole array. -/
theorem Whole.record (hs : ∀ f ∈ s.fields, Whole f.read) : Whole s.read := by
  intro v r h
  cases v with
  | object members ending =>
    obtain ⟨answer, hmembers, h⟩ := bind_eq_ok_iff.mp h
    obtain ⟨_, hending, -⟩ := bind_eq_ok_iff.mp h
    obtain rfl := eq_none_of_checkEnding hending
    obtain ⟨us, hus, -⟩ := brings_of_walk (walk_skim_iff.mpr ⟨_, hmembers⟩)
    exact hus.isWhole (fun _ => isWhole_of_skim) hs
  | array items ending =>
    obtain ⟨hending, hitems⟩ := isWhole_of_readItems s hs h
    obtain rfl := hending
    exact .array hitems
  | _ => exact absurd h (by simp [RecordShape.read])

theorem Whole.kept (hs : ∀ f ∈ s.fields, Whole f.read) (room : Nat) : Whole (readKept s room) := by
  intro v r h
  cases v with
  | object members ending =>
    obtain ⟨answer, hmembers, h⟩ := bind_eq_ok_iff.mp h
    obtain ⟨_, hending, -⟩ := bind_eq_ok_iff.mp h
    obtain rfl := eq_none_of_checkEnding hending
    obtain ⟨us, hus, -⟩ := brings_of_walk (walk_keep_iff.mpr ⟨_, hmembers⟩)
    exact hus.isWhole (fun _ => isWhole_of_keep) hs
  | _ => exact absurd h (by simp [readKept])

end Records

/-! ## 2.  Whole texts -/

/-- A token without a flaw. -/
def Token.IsWhole : Token → Prop
  | .flaw _ => False
  | .string q => q.ending = none
  | _ => True

/-- The finished members of an object are whole. -/
def AreWhole (done : List (Quoted × Reading)) : Prop :=
  ∀ m ∈ done, m.1.ending = none ∧ m.2.IsWhole

/-- The finished parts of an array or object are whole. -/
def Frame.IsWhole : Frame → Prop
  | .array done => ∀ v ∈ done, v.IsWhole
  | .object done key => key.ending = none ∧ AreWhole done

/-- Everything that the builder has met so far is whole. -/
def Site.IsWhole : Site → Prop
  | .value outer | .firstItem outer | .firstKey outer => ∀ f ∈ outer, f.IsWhole
  | .nextKey done outer => AreWhole done ∧ ∀ f ∈ outer, f.IsWhole
  | .colon done key outer => key.ending = none ∧ AreWhole done ∧ ∀ f ∈ outer, f.IsWhole
  | .after v outer => v.IsWhole ∧ ∀ f ∈ outer, f.IsWhole

section Grow

variable {site next : Site} {t : Token} {v : Reading}

theorem isWhole_of_close {frame : Frame} {ending : Option Flaw}
    (h : (frame.close v ending).IsWhole) : ending = none ∧ v.IsWhole ∧ frame.IsWhole := by
  cases frame with
  | array done =>
    obtain _ | _ | _ | _ | h | _ := h
    refine ⟨rfl, h v (by simp), ?_⟩
    exact fun w hw => h w (by simp [hw])
  | object done key =>
    obtain _ | _ | _ | _ | _ | ⟨hkeys, hvalues⟩ := h
    refine ⟨rfl, hvalues (key, v) (by simp), hkeys (key, v) (by simp), ?_⟩
    exact fun m hm => ⟨hkeys m (by simp [hm]), hvalues m (by simp [hm])⟩

theorem not_isWhole_abandon (f : Flaw) (outer : List Frame) (h : ¬ v.IsWhole) :
    ¬ (abandon f v outer).IsWhole := by
  induction outer generalizing v with
  | nil => exact h
  | cons frame outer ih => exact ih fun hclose => h (isWhole_of_close hclose).2.1

/-- What is left inside a frame is not whole. -/
theorem not_isWhole_abandon_cons (f : Flaw) (v : Reading) (frame : Frame) (outer : List Frame) :
    ¬ (abandon f v (frame :: outer)).IsWhole :=
  not_isWhole_abandon f outer fun h => absurd (isWhole_of_close h).1 (by simp)

theorem not_isWhole_keyless : ¬ Reading.keyless.IsWhole := nofun

theorem not_isWhole_broken (f : Flaw) : ¬ (Reading.broken f).IsWhole := nofun

theorem isWhole_of_openValue {outer : List Frame} (h : openValue outer t = .ok next)
    (hnext : next.IsWhole) : t.IsWhole ∧ ∀ f ∈ outer, f.IsWhole := by
  cases t with
  | null | bool _ | number _ =>
    obtain rfl := Except.ok.inj h
    exact ⟨trivial, hnext.2⟩
  | string q =>
    obtain rfl := Except.ok.inj h
    obtain _ | _ | _ | hq := hnext.1
    exact ⟨hq, hnext.2⟩
  | openArray | openObject =>
    obtain rfl := Except.ok.inj h
    exact ⟨trivial, hnext⟩
  | closeArray | closeObject | comma | colon | flaw _ => exact absurd h (by simp [openValue])

theorem not_isWhole_of_openValue {outer : List Frame} (h : openValue outer t = .error v) :
    ¬ v.IsWhole := by
  cases t with
  | null | bool _ | number _ | string _ | openArray | openObject =>
    exact absurd h (by simp [openValue])
  | closeArray | closeObject | comma | colon =>
    obtain rfl := Except.error.inj h
    exact not_isWhole_abandon _ _ (not_isWhole_broken _)
  | flaw f =>
    obtain rfl := Except.error.inj h
    exact not_isWhole_abandon _ _ (not_isWhole_broken _)

/-- Behind a value, the next token separates it from the next one, or closes the frame. -/
theorem isWhole_of_separator {frame : Frame} {outer : List Frame}
    (h : (Site.after v (frame :: outer)).step t = .ok next) (hnext : next.IsWhole) :
    (Site.after v (frame :: outer)).IsWhole ∧ t.IsWhole := by
  cases frame with
  | array done =>
    cases t with
    | comma =>
      obtain rfl := Except.ok.inj h
      obtain ⟨hdone, houter⟩ := List.forall_mem_cons.mp hnext
      obtain ⟨hv, hdone⟩ := List.forall_mem_cons.mp hdone
      exact ⟨⟨hv, List.forall_mem_cons.mpr ⟨hdone, houter⟩⟩, trivial⟩
    | closeArray =>
      obtain rfl := Except.ok.inj h
      obtain ⟨-, hv, hframe⟩ := isWhole_of_close hnext.1
      exact ⟨⟨hv, List.forall_mem_cons.mpr ⟨hframe, hnext.2⟩⟩, trivial⟩
    | _ => exact absurd h (by simp [Site.step])
  | object done key =>
    cases t with
    | comma =>
      obtain rfl := Except.ok.inj h
      obtain ⟨⟨hkey, hv⟩, hdone⟩ := List.forall_mem_cons.mp hnext.1
      exact ⟨⟨hv, List.forall_mem_cons.mpr ⟨⟨hkey, hdone⟩, hnext.2⟩⟩, trivial⟩
    | closeObject =>
      obtain rfl := Except.ok.inj h
      obtain ⟨-, hv, hframe⟩ := isWhole_of_close hnext.1
      exact ⟨⟨hv, List.forall_mem_cons.mpr ⟨hframe, hnext.2⟩⟩, trivial⟩
    | _ => exact absurd h (by simp [Site.step])

/-- A step adds a whole token to what was whole before, if the result is whole. -/
theorem isWhole_of_step (h : site.step t = .ok next) (hnext : next.IsWhole) :
    site.IsWhole ∧ t.IsWhole := by
  cases site with
  | value outer =>
    obtain ⟨ht, houter⟩ := isWhole_of_openValue h hnext
    exact ⟨houter, ht⟩
  | firstItem outer =>
    rw [Site.step] at h
    split_ifs at h with hclose
    · obtain rfl := Except.ok.inj h
      subst hclose
      exact ⟨hnext.2, trivial⟩
    · obtain ⟨ht, houter⟩ := isWhole_of_openValue h hnext
      exact ⟨(List.forall_mem_cons.mp houter).2, ht⟩
  | firstKey outer =>
    cases t with
    | closeObject =>
      obtain rfl := Except.ok.inj h
      exact ⟨hnext.2, trivial⟩
    | string q =>
      obtain rfl := Except.ok.inj h
      exact ⟨hnext.2.2, hnext.1⟩
    | _ => exact absurd h (by simp [Site.step])
  | nextKey done outer =>
    cases t with
    | string q =>
      obtain rfl := Except.ok.inj h
      exact ⟨hnext.2, hnext.1⟩
    | _ => exact absurd h (by simp [Site.step])
  | colon done key outer =>
    rw [Site.step] at h
    split_ifs at h with hcolon
    obtain rfl := Except.ok.inj h
    subst hcolon
    obtain ⟨⟨hkey, hdone⟩, houter⟩ := List.forall_mem_cons.mp hnext
    exact ⟨⟨hkey, hdone, houter⟩, trivial⟩
  | after v outer =>
    cases outer with
    | nil => exact absurd h (by simp [Site.step])
    | cons frame outer => exact isWhole_of_separator h hnext

/-- A text that goes wrong leaves a tree with a flaw. -/
theorem not_isWhole_of_step (hsite : ∀ w, site ≠ .after w []) (h : site.step t = .error v) :
    ¬ v.IsWhole := by
  cases site with
  | value outer => exact not_isWhole_of_openValue h
  | firstItem outer =>
    rw [Site.step] at h
    split_ifs at h
    exact not_isWhole_of_openValue h
  | firstKey outer =>
    cases t with
    | closeObject | string _ => exact absurd h (by simp [Site.step])
    | _ =>
      obtain rfl := Except.error.inj h
      exact not_isWhole_abandon _ _ not_isWhole_keyless
  | nextKey done outer =>
    cases t with
    | string _ => exact absurd h (by simp [Site.step])
    | _ =>
      obtain rfl := Except.error.inj h
      exact not_isWhole_abandon _ _ nofun
  | colon done key outer =>
    rw [Site.step] at h
    split_ifs at h
    obtain rfl := Except.error.inj h
    exact not_isWhole_abandon_cons _ _ _ _
  | after w outer =>
    cases outer with
    | nil => exact absurd rfl (hsite w)
    | cons frame outer =>
      cases frame with
      | array done =>
        cases t with
        | comma | closeArray => exact absurd h (by simp [Site.step])
        | _ =>
          obtain rfl := Except.error.inj h
          exact not_isWhole_abandon_cons _ _ _ _
      | object done key =>
        cases t with
        | comma | closeObject => exact absurd h (by simp [Site.step])
        | _ =>
          obtain rfl := Except.error.inj h
          exact not_isWhole_abandon_cons _ _ _ _

/-- A text that ends too early leaves a tree with a flaw. -/
theorem not_isWhole_finish (hsite : ∀ w, site ≠ .after w []) : ¬ site.finish.IsWhole := by
  cases site with
  | value outer => exact not_isWhole_abandon _ _ (not_isWhole_broken _)
  | firstItem outer => exact not_isWhole_abandon _ _ nofun
  | firstKey outer => exact not_isWhole_abandon _ _ nofun
  | nextKey done outer => exact not_isWhole_abandon _ _ nofun
  | colon done key outer => exact not_isWhole_abandon_cons _ _ _ _
  | after w outer =>
    cases outer with
    | nil => exact absurd rfl (hsite w)
    | cons frame outer => exact not_isWhole_abandon_cons _ _ _ _

/-- **A whole tree is made of whole tokens.** -/
theorem grow_isWhole {ts : List Token} (h : grow site ts = (v, [])) (hv : v.IsWhole) :
    site.IsWhole ∧ ∀ t ∈ ts, t.IsWhole := by
  induction ts generalizing site with
  | nil =>
    refine ⟨?_, List.forall_mem_nil _⟩
    by_cases hsite : ∃ w, site = .after w []
    · obtain ⟨w, rfl⟩ := hsite
      obtain rfl : w = v := congrArg Prod.fst h
      exact ⟨hv, List.forall_mem_nil _⟩
    · rw [not_exists] at hsite
      rw [grow] at h
      · obtain rfl : site.finish = v := congrArg Prod.fst h
        exact absurd hv (not_isWhole_finish hsite)
      · exact hsite
  | cons t ts ih =>
    by_cases hsite : ∃ w, site = .after w []
    · obtain ⟨w, rfl⟩ := hsite
      have hnil : t :: ts = [] := congrArg Prod.snd h
      exact absurd hnil (by simp)
    · rw [not_exists] at hsite
      rw [grow] at h
      · cases hstep : site.step t with
        | error w =>
          rw [hstep] at h
          obtain rfl : w = v := congrArg Prod.fst h
          exact absurd hv (not_isWhole_of_step hsite hstep)
        | ok next =>
          rw [hstep] at h
          obtain ⟨hnext, hts⟩ := ih h
          obtain ⟨hwhole, ht⟩ := isWhole_of_step hstep hnext
          exact ⟨hwhole, List.forall_mem_cons.mpr ⟨ht, hts⟩⟩
      · exact hsite

end Grow

/-- **A text from which a value is taken is scanned without a flaw.** -/
theorem Whole.tokens {α : Type} {d : Decoder α} (h : Whole d) {text : String} {a : α}
    (ha : decodeString d text = .ok a) : ∀ t ∈ Token.scan text.toList, t.IsWhole := by
  unfold decodeString Reading.ofString Reading.ofTokens at ha
  generalize hgrow : grow (.value []) (Token.scan text.toList) = answer at ha
  obtain ⟨v, rest⟩ := answer
  obtain ⟨b, hb, ha⟩ := bind_eq_ok_iff.mp ha
  cases rest with
  | nil => exact (grow_isWhole hgrow (h v b hb)).2
  | cons t rest =>
    exact absurd ha (by simp [bind, Except.bind, throw, throwThe, MonadExceptOf.throw])

end Json
end TransferCost
