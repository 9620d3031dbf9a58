import Mathlib.Data.List.Nodup
import Mathlib.Tactic.SplitIfs
import TransferCost.Json.Record
import TransferCost.Proofs.Logged

/-!
# The order of members does not matter

A record is read member by member, and each member changes the record so far.  This file says what
is left of that order in a record that is read without a failure: nothing, if the fields of the
shape can be put in in any order.

## 1.  One walk for both readers

`RecordShape.readMembers` skips the value of an unknown key, `readKeptMembers` keeps it, and both
note more than the record.  `RecordShape.walk` is the recursion that they have in common, with the
look at an unknown value as a parameter.

## 2.  What a successful walk says

`Brings s check ms us` goes through the members one by one.  A member is unknown and passes the
check, or it is known and brings an update.  `walk_eq_ok_iff` says that a walk succeeds if the
members bring updates of which no two are for one field, and that the record is then the fold of the
updates.  No part of this depends on the order of the members, as long as updates of different
fields commute.

## 3.  Revised members

`MembersRevised` is the least that a tolerant reader should not mind: the members are permuted, an
unknown one is added, an absent one is made an explicit `null`, or the inside of a known one is
revised.  `Takes.revised` is the invariance, up to a relation on records for the sake of what is
revised inside.
-/

namespace TransferCost
namespace Json

variable {ρ : Type}

/-! ## 1.  One walk for both readers -/

/-- The field of a name. -/
def RecordShape.field? (s : RecordShape ρ) (name : String) : Option (Field ρ) :=
  s.fields.find? (·.name = name)

/-- The names of the fields. -/
def RecordShape.names (s : RecordShape ρ) : List String :=
  s.fields.map (·.name)

/-- Fills in the members of an object, where `check` looks at the value of an unknown key. -/
def RecordShape.walk (s : RecordShape ρ) (check : Reading → Except ReadError Unit) (r : ρ)
    (seen : List String) : List (Quoted × Reading) → Except ReadError ρ
  | [] => .ok r
  | (key, v) :: rest => do
    let name ← key.read
    match s.field? name with
    | none =>
      check v
      s.walk check r seen rest
    | some field =>
      if seen.contains name then throw (.mismatch (.duplicateField name))
      let update ← field.read v
      s.walk check (update r) (name :: seen) rest

/-- A reader that skips unknown values walks. -/
theorem fst_readMembers (s : RecordShape ρ) (r : ρ) (seen : List String)
    (ms : List (Quoted × Reading)) :
    Prod.fst <$> s.readMembers r seen ms = s.walk Reading.skim r seen ms := by
  induction ms generalizing r seen with
  | nil => rfl
  | cons m rest ih =>
    obtain ⟨key, v⟩ := m
    rw [RecordShape.readMembers, RecordShape.walk, map_bind]
    congr 1
    funext name
    unfold RecordShape.field?
    cases s.fields.find? (·.name = name) with
    | none =>
      dsimp only
      rw [map_bind]
      congr 1
      funext _
      exact ih r seen
    | some field =>
      dsimp only
      split_ifs
      · rfl
      · simp only [map_bind, ih]

/-- A reader that keeps unknown values walks. -/
theorem record_readKeptMembers (s : RecordShape ρ) (room : Nat) (r : Kept ρ) (seen : List String)
    (ms : List (Quoted × Reading)) :
    Kept.record <$> readKeptMembers s room r seen ms =
      s.walk (Reading.keep room) r.record seen ms := by
  induction ms generalizing r seen with
  | nil => rfl
  | cons m rest ih =>
    obtain ⟨key, v⟩ := m
    rw [readKeptMembers, RecordShape.walk, map_bind]
    congr 1
    funext name
    unfold RecordShape.field?
    cases s.fields.find? (·.name = name) with
    | none =>
      dsimp only
      rw [map_bind]
      congr 1
      funext _
      exact ih _ seen
    | some field =>
      dsimp only
      split_ifs
      · rfl
      · simp only [map_bind, ih]

theorem map_eq_ok_iff {ε β γ : Type} {x : Except ε β} {f : β → γ} {c : γ} :
    f <$> x = .ok c ↔ ∃ b, x = .ok b ∧ f b = c := by
  cases x <;> simp [Functor.map, Except.map]

theorem walk_skim_iff {s : RecordShape ρ} {r r' : ρ} {seen : List String}
    {ms : List (Quoted × Reading)} :
    s.walk Reading.skim r seen ms = .ok r' ↔
      ∃ seen', s.readMembers r seen ms = .ok (r', seen') := by
  rw [← fst_readMembers, map_eq_ok_iff]
  constructor
  · rintro ⟨⟨r', seen'⟩, h, rfl⟩
    exact ⟨seen', h⟩
  · rintro ⟨seen', h⟩
    exact ⟨_, h, rfl⟩

theorem walk_keep_iff {s : RecordShape ρ} {room : Nat} {r : Kept ρ} {r' : ρ} {seen : List String}
    {ms : List (Quoted × Reading)} :
    s.walk (Reading.keep room) r.record seen ms = .ok r' ↔
      ∃ unknown, readKeptMembers s room r seen ms = .ok ⟨r', unknown⟩ := by
  rw [← record_readKeptMembers, map_eq_ok_iff]
  constructor
  · rintro ⟨⟨r', unknown⟩, h, rfl⟩
    exact ⟨unknown, h⟩
  · rintro ⟨unknown, h⟩
    exact ⟨_, h, rfl⟩

/-! ## 2.  What a successful walk says -/

section Success

variable {s : RecordShape ρ} {check : Reading → Except ReadError Unit}

theorem read_eq_ok_iff {α : Type} {q : Quoted} {name : String} :
    q.read (α := α) = .ok name ↔ q.text = .ok name := by
  unfold Quoted.read
  cases q.text with
  | error f => simp
  | ok s' => simp

theorem mem_fields_of_field? {name : String} {f : Field ρ} (h : s.field? name = some f) :
    f ∈ s.fields :=
  List.mem_of_find?_eq_some h

theorem name_of_field? {name : String} {f : Field ρ} (h : s.field? name = some f) :
    f.name = name := by
  have hname := List.find?_some (p := fun f : Field ρ => decide (f.name = name)) h
  exact of_decide_eq_true hname

theorem field?_eq_none_iff {name : String} : s.field? name = none ↔ name ∉ s.names := by
  simp [RecordShape.field?, RecordShape.names]

/-- An update of a record, with the field that it is for. -/
abbrev Update (ρ : Type) := Field ρ × (ρ → ρ)

/-- The record behind some updates. -/
def applyAll (us : List (Update ρ)) (r : ρ) : ρ :=
  us.foldl (fun r u => u.2 r) r

/-- The names of the fields that are updated. -/
def updated (us : List (Update ρ)) : List String :=
  us.map (·.1.name)

/-- The members are accepted one by one, and bring these updates. -/
inductive Brings (s : RecordShape ρ) (check : Reading → Except ReadError Unit) :
    List (Quoted × Reading) → List (Update ρ) → Prop where
  | nil : Brings s check [] []
  | unknown {q : Quoted} {name : String} {v : Reading} {ms : List (Quoted × Reading)}
      {us : List (Update ρ)} (key : q.text = .ok name) (field : s.field? name = none)
      (value : check v = .ok ()) (tail : Brings s check ms us) : Brings s check ((q, v) :: ms) us
  | known {q : Quoted} {name : String} {f : Field ρ} {v : Reading} {u : ρ → ρ}
      {ms : List (Quoted × Reading)} {us : List (Update ρ)} (key : q.text = .ok name)
      (field : s.field? name = some f) (value : f.read v = .ok u) (tail : Brings s check ms us) :
      Brings s check ((q, v) :: ms) ((f, u) :: us)

/-- A known member is the first of its name, and its value is read. -/
theorem ok_of_known {γ : Type} {f : Field ρ} {name : String} {seen : List String} {v : Reading}
    {next : (ρ → ρ) → Except ReadError γ} {answer : γ}
    (h : (do
      if seen.contains name then throw (.mismatch (.duplicateField name))
      let update ← f.read v
      next update : Except ReadError γ) = .ok answer) :
    name ∉ seen ∧ ∃ update, f.read v = .ok update ∧ next update = .ok answer := by
  cases hseen : seen.contains name with
  | true =>
    rw [hseen] at h
    exact absurd h (by simp [bind, Except.bind, throw, throwThe, MonadExceptOf.throw])
  | false =>
    rw [hseen] at h
    obtain ⟨update, hupdate, hnext⟩ := bind_eq_ok_iff.mp h
    refine ⟨?_, update, hupdate, hnext⟩
    rwa [List.contains_eq_mem, decide_eq_false_iff_not] at hseen

theorem brings_of_walk {r r' : ρ} {seen : List String} {ms : List (Quoted × Reading)}
    (h : s.walk check r seen ms = .ok r') :
    ∃ us, Brings s check ms us ∧ (updated us).Nodup ∧ (∀ name ∈ updated us, name ∉ seen) ∧
      applyAll us r = r' := by
  induction ms generalizing r seen with
  | nil => exact ⟨[], .nil, List.nodup_nil, List.forall_mem_nil _, Except.ok.inj h⟩
  | cons m rest ih =>
    obtain ⟨key, v⟩ := m
    obtain ⟨name, hname, h⟩ := bind_eq_ok_iff.mp h
    rw [read_eq_ok_iff] at hname
    cases hf : s.field? name with
    | none =>
      rw [hf] at h
      obtain ⟨_, hv, hrest⟩ := bind_eq_ok_iff.mp h
      obtain ⟨us, hus, hnodup, hseen, happly⟩ := ih hrest
      exact ⟨us, .unknown hname hf hv hus, hnodup, hseen, happly⟩
    | some f =>
      rw [hf] at h
      obtain ⟨hfresh, update, hv, hrest⟩ := ok_of_known h
      obtain ⟨us, hus, hnodup, hseen, happly⟩ := ih hrest
      rw [← name_of_field? hf] at hfresh hseen
      refine ⟨(f, update) :: us, .known hname hf hv hus, ?_, ?_, happly⟩
      · refine List.nodup_cons.mpr ⟨?_, hnodup⟩
        exact fun hmem => hseen f.name hmem List.mem_cons_self
      · refine List.forall_mem_cons.mpr ⟨hfresh, ?_⟩
        exact fun n hn hmem => hseen n hn (List.mem_cons_of_mem _ hmem)

theorem walk_of_brings {ms : List (Quoted × Reading)} {us : List (Update ρ)}
    (h : Brings s check ms us) (r : ρ) (seen : List String) (hnodup : (updated us).Nodup)
    (hseen : ∀ name ∈ updated us, name ∉ seen) :
    s.walk check r seen ms = .ok (applyAll us r) := by
  induction h generalizing r seen with
  | nil => rfl
  | unknown key field value tail ih =>
    rw [RecordShape.walk, read_eq_ok_iff.mpr key]
    dsimp only [bind, Except.bind]
    rw [field]
    dsimp only
    rw [value]
    exact ih r seen hnodup hseen
  | @known q name f v u ms us key field value tail ih =>
    obtain ⟨hhead, htail⟩ := List.nodup_cons.mp hnodup
    obtain ⟨hfresh, hrest⟩ := List.forall_mem_cons.mp hseen
    have hname := name_of_field? field
    have hcontains : seen.contains name = false := by
      rw [List.contains_eq_mem, decide_eq_false_iff_not, ← hname]
      exact hfresh
    rw [RecordShape.walk, read_eq_ok_iff.mpr key]
    dsimp only [bind, Except.bind]
    rw [field]
    dsimp only
    rw [hcontains, value]
    refine ih (u r) (name :: seen) htail ?_
    intro n hn hmem
    rcases List.mem_cons.mp hmem with rfl | hmem
    · rw [← hname] at hn
      exact hhead hn
    · exact hrest n hn hmem

/-- A record is taken from the members of an object. -/
def Takes (s : RecordShape ρ) (check : Reading → Except ReadError Unit)
    (ms : List (Quoted × Reading)) (r : ρ) : Prop :=
  ∃ us, Brings s check ms us ∧ (updated us).Nodup ∧ applyAll us s.blank = r

/-- **A walk succeeds if each member is accepted for itself and no field is met twice.** -/
theorem walk_eq_ok_iff {r : ρ} {ms : List (Quoted × Reading)} :
    s.walk check s.blank [] ms = .ok r ↔ Takes s check ms r := by
  constructor
  · intro h
    obtain ⟨us, hus, hnodup, -, happly⟩ := brings_of_walk h
    exact ⟨us, hus, hnodup, happly⟩
  · rintro ⟨us, hus, hnodup, rfl⟩
    exact walk_of_brings hus s.blank [] hnodup fun _ _ => List.not_mem_nil

/-- An update is brought by a member of its name. -/
theorem Brings.exists_key {ms : List (Quoted × Reading)} {us : List (Update ρ)}
    (h : Brings s check ms us) {name : String} (hname : name ∈ updated us) :
    ∃ m ∈ ms, m.1.text = .ok name := by
  induction h with
  | nil => exact absurd hname List.not_mem_nil
  | unknown key field value tail ih =>
    obtain ⟨m, hm, htext⟩ := ih hname
    exact ⟨m, List.mem_cons_of_mem _ hm, htext⟩
  | known key field value tail ih =>
    rcases List.mem_cons.mp hname with hname | hname
    · refine ⟨_, List.mem_cons_self, ?_⟩
      rw [key, hname]
      exact congrArg Except.ok (name_of_field? field).symm
    · obtain ⟨m, hm, htext⟩ := ih hname
      exact ⟨m, List.mem_cons_of_mem _ hm, htext⟩

theorem Brings.mem_fields {ms : List (Quoted × Reading)} {us : List (Update ρ)}
    (h : Brings s check ms us) : ∀ u ∈ us, u.1 ∈ s.fields ∧ ∃ v, u.1.read v = .ok u.2 := by
  induction h with
  | nil => exact List.forall_mem_nil _
  | unknown key field value tail ih => exact ih
  | known key field value tail ih =>
    exact List.forall_mem_cons.mpr ⟨⟨mem_fields_of_field? field, _, value⟩, ih⟩

/-- Permuted members bring permuted updates. -/
theorem Brings.perm {ms ms' : List (Quoted × Reading)} (hp : ms.Perm ms')
    {us : List (Update ρ)} (h : Brings s check ms us) :
    ∃ us', us.Perm us' ∧ Brings s check ms' us' := by
  induction hp generalizing us with
  | nil => exact ⟨us, .refl us, h⟩
  | cons m _ ih =>
    cases h with
    | unknown key field value tail =>
      obtain ⟨us', hus, htail⟩ := ih tail
      exact ⟨us', hus, .unknown key field value htail⟩
    | known key field value tail =>
      obtain ⟨us', hus, htail⟩ := ih tail
      exact ⟨_, hus.cons _, .known key field value htail⟩
  | swap m m' ms =>
    cases h with
    | unknown key field value tail =>
      cases tail with
      | unknown key' field' value' tail =>
        exact ⟨us, .refl us, .unknown key' field' value' (.unknown key field value tail)⟩
      | known key' field' value' tail =>
        exact ⟨_, .refl _, .known key' field' value' (.unknown key field value tail)⟩
    | known key field value tail =>
      cases tail with
      | unknown key' field' value' tail =>
        exact ⟨_, .refl _, .unknown key' field' value' (.known key field value tail)⟩
      | known key' field' value' tail =>
        exact ⟨_, .swap _ _ _, .known key' field' value' (.known key field value tail)⟩
  | trans _ _ ih ih' =>
    obtain ⟨us', hus, h'⟩ := ih h
    obtain ⟨us'', hus', h''⟩ := ih' h'
    exact ⟨us'', hus.trans hus', h''⟩

end Success

/-! ## 3.  Revised members -/

/-- The fields of a shape can be put in in any order, and a `null` puts in what the blank record
has.  `same` is the relation up to which records are compared. -/
structure Unordered (s : RecordShape ρ) (same : ρ → ρ → Prop) : Prop where
  refl : ∀ r, same r r
  trans : ∀ {r r' r''}, same r r' → same r' r'' → same r r''
  congr : ∀ f ∈ s.fields, ∀ v u, f.read v = .ok u → ∀ r r', same r r' → same (u r) (u r')
  comm : ∀ f ∈ s.fields, ∀ g ∈ s.fields, f.name ≠ g.name → ∀ v w u u', f.read v = .ok u →
    g.read w = .ok u' → ∀ r, u' (u r) = u (u' r)
  null : ∀ f ∈ s.fields, ∃ u, f.read .null = .ok u ∧ u s.blank = s.blank

/-- How the members of an object may be revised.  `known` are the names of the fields, `admits` the
values of unknown members, and `inside` says how the value of a known member may be revised. -/
inductive MembersRevised (known : List String) (admits : Reading → Prop)
    (inside : String → Reading → Reading → Prop) :
    List (Quoted × Reading) → List (Quoted × Reading) → Prop where
  /-- The members are put into another order. -/
  | permuted {ms ms' : List (Quoted × Reading)} (h : ms.Perm ms') :
      MembersRevised known admits inside ms ms'
  /-- A member with an unknown key is added. -/
  | unknown {q : Quoted} {name : String} {v : Reading} (key : q.text = .ok name)
      (hname : name ∉ known) (value : admits v) (ms : List (Quoted × Reading)) :
      MembersRevised known admits inside ms ((q, v) :: ms)
  /-- A known member that is absent is added as `null`. -/
  | null {q : Quoted} {name : String} (key : q.text = .ok name) (hname : name ∈ known)
      {ms : List (Quoted × Reading)} (absent : ∀ m ∈ ms, m.1.text ≠ .ok name) :
      MembersRevised known admits inside ms ((q, .null) :: ms)
  /-- The value of a known member is revised. -/
  | inside {q : Quoted} {name : String} {v w : Reading} (key : q.text = .ok name)
      (hname : name ∈ known) (value : inside name v w) (ms : List (Quoted × Reading)) :
      MembersRevised known admits inside ((q, v) :: ms) ((q, w) :: ms)
  /-- One revision follows another. -/
  | trans {ms ms' ms'' : List (Quoted × Reading)} (h : MembersRevised known admits inside ms ms')
      (h' : MembersRevised known admits inside ms' ms'') :
      MembersRevised known admits inside ms ms''

section Revised

variable {s : RecordShape ρ} {check : Reading → Except ReadError Unit} {same : ρ → ρ → Prop}

/-- **Permuted updates give the same record**, if no two of them are for one field. -/
theorem Unordered.applyAll_perm (hs : Unordered s same) {us us' : List (Update ρ)}
    (hp : us.Perm us') (hnodup : (updated us).Nodup)
    (hus : ∀ u ∈ us, u.1 ∈ s.fields ∧ ∃ v, u.1.read v = .ok u.2) (r : ρ) :
    applyAll us r = applyAll us' r := by
  refine hp.foldl_eq' ?_ r
  intro u hu u' hu' r
  by_cases hname : u.1.name = u'.1.name
  · rw [List.inj_on_of_nodup_map hnodup hu hu' hname]
  · obtain ⟨hmem, v, hv⟩ := hus u hu
    obtain ⟨hmem', v', hv'⟩ := hus u' hu'
    exact hs.comm u.1 hmem u'.1 hmem' hname v v' u.2 u'.2 hv hv' r

theorem Unordered.applyAll_congr (hs : Unordered s same) {us : List (Update ρ)}
    (hus : ∀ u ∈ us, u.1 ∈ s.fields ∧ ∃ v, u.1.read v = .ok u.2) {r r' : ρ} (h : same r r') :
    same (applyAll us r) (applyAll us r') := by
  induction us generalizing r r' with
  | nil => exact h
  | cons u us ih =>
    obtain ⟨⟨hmem, v, hv⟩, hus⟩ := List.forall_mem_cons.mp hus
    exact ih hus (hs.congr u.1 hmem v u.2 hv r r' h)

namespace Takes

variable {ms ms' : List (Quoted × Reading)} {q : Quoted} {name : String} {r : ρ}

/-- The order of the members does not matter. -/
theorem permuted (hs : Unordered s same) (hp : ms.Perm ms') (h : Takes s check ms r) :
    Takes s check ms' r := by
  obtain ⟨us, hus, hnodup, rfl⟩ := h
  obtain ⟨us', hperm, hus'⟩ := hus.perm hp
  have happly := hs.applyAll_perm hperm hnodup hus.mem_fields s.blank
  exact ⟨us', hus', (hperm.map _).nodup_iff.mp hnodup, happly.symm⟩

/-- A member with an unknown key puts in nothing. -/
theorem unknown {v : Reading} (key : q.text = .ok name) (hname : name ∉ s.names)
    (hv : check v = .ok ()) (h : Takes s check ms r) : Takes s check ((q, v) :: ms) r := by
  obtain ⟨us, hus, hnodup, happly⟩ := h
  exact ⟨us, .unknown key (field?_eq_none_iff.mpr hname) hv hus, hnodup, happly⟩

/-- A `null` puts in what is there anyway. -/
theorem null (hs : Unordered s same) (key : q.text = .ok name) (hname : name ∈ s.names)
    (absent : ∀ m ∈ ms, m.1.text ≠ .ok name) (h : Takes s check ms r) :
    Takes s check ((q, .null) :: ms) r := by
  obtain ⟨us, hus, hnodup, rfl⟩ := h
  obtain ⟨f, hf⟩ : ∃ f, s.field? name = some f := by
    rw [← Option.ne_none_iff_exists', Ne, field?_eq_none_iff, not_not]
    exact hname
  obtain ⟨u, hu, hblank⟩ := hs.null f (mem_fields_of_field? hf)
  have hfresh : f.name ∉ updated us := by
    intro hmem
    obtain ⟨m, hm, htext⟩ := hus.exists_key hmem
    exact absent m hm (name_of_field? hf ▸ htext)
  refine ⟨(f, u) :: us, .known key hf hu hus, List.nodup_cons.mpr ⟨hfresh, hnodup⟩, ?_⟩
  show applyAll us (u s.blank) = applyAll us s.blank
  rw [hblank]

/-- The value of a known member may be revised as its field allows. -/
theorem inside (hs : Unordered s same) {v w : Reading} (key : q.text = .ok name)
    (hname : name ∈ s.names)
    (hvalue : ∀ f ∈ s.fields, f.name = name → ∀ u, f.read v = .ok u →
      ∃ u', f.read w = .ok u' ∧ ∀ r, same (u r) (u' r))
    (h : Takes s check ((q, v) :: ms) r) :
    ∃ r', Takes s check ((q, w) :: ms) r' ∧ same r r' := by
  obtain ⟨us, hus, hnodup, rfl⟩ := h
  cases hus with
  | unknown key' field value tail =>
    rw [key, Except.ok.injEq] at key'
    subst key'
    exact absurd hname (field?_eq_none_iff.mp field)
  | @known _ _ f _ u _ us key' field value tail =>
    rw [key, Except.ok.injEq] at key'
    subst key'
    obtain ⟨u', hu', hsame⟩ := hvalue f (mem_fields_of_field? field) (name_of_field? field) u value
    refine ⟨_, ⟨(f, u') :: us, .known key field hu' tail, hnodup, rfl⟩, ?_⟩
    exact hs.applyAll_congr tail.mem_fields (hsame s.blank)

/-- **Revised members give the same record.** -/
theorem revised (hs : Unordered s same) {admits : Reading → Prop}
    {inside : String → Reading → Reading → Prop} (hadmits : ∀ v, admits v → check v = .ok ())
    (hinside : ∀ f ∈ s.fields, ∀ v w u, inside f.name v w → f.read v = .ok u →
      ∃ u', f.read w = .ok u' ∧ ∀ r, same (u r) (u' r))
    (h : MembersRevised s.names admits inside ms ms') (hr : Takes s check ms r) :
    ∃ r', Takes s check ms' r' ∧ same r r' := by
  induction h generalizing r with
  | permuted hp => exact ⟨r, hr.permuted hs hp, hs.refl r⟩
  | unknown key hname value ms => exact ⟨r, hr.unknown key hname (hadmits _ value), hs.refl r⟩
  | null key hname absent => exact ⟨r, hr.null hs key hname absent, hs.refl r⟩
  | inside key hname value ms =>
    refine Takes.inside hs key hname ?_ hr
    rintro f hf rfl u hu
    exact hinside f hf _ _ u value hu
  | trans _ _ ih ih' =>
    obtain ⟨r', hr', hsame⟩ := ih hr
    obtain ⟨r'', hr'', hsame'⟩ := ih' hr'
    exact ⟨r'', hr'', hs.trans hsame hsame'⟩

end Takes

end Revised

end Json
end TransferCost
