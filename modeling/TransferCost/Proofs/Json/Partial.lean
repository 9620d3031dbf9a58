import Mathlib.Data.List.Forall2
import Mathlib.Data.List.Perm.Basic
import TransferCost.Proofs.Forward

/-!
# Objects that mention some of the fields of a record

A record may be given in part.  `Mentions` says which of its fields are given, and how the value of
each may be written; `IsObject` are the objects that do so, with their members in any order.  This
file says what is read from such an object, when the value of each field is known to be read, or
known to fail.

## 1.  Offers

A member of an object *offers* an update of a field, or the failure to read one.  Members that offer
to distinct fields are walked through to the end, unless one of them fails:
`readMembers_of_offers`.

## 2.  The fields of a shape

`Covers` goes through the fields of a shape and what is mentioned of them side by side.
`Covers.read` says what is read.  It does not depend on the order of the members, but for the one
that fails first.

## 3.  What comes of it

The offers are an intermediate step.  `Gives` and `Fails` say the same without them, one field after
the other: how the mentioned values change a record if all of them are read, and which failures are
possible if not.
-/

namespace TransferCost
namespace Json

variable {ρ α β : Type}

/-- What is said of the fields of a record, in the order of their declaration: whether a field is
mentioned, and if so, how its value may be written. -/
abbrev Mentions :=
  List (String × Option (Reading → Prop))

/-- The fields that are mentioned. -/
def mentioned (mentions : Mentions) : List (String × (Reading → Prop)) :=
  mentions.filterMap fun m => m.2.map fun spells => (m.1, spells)

/-- The fields that are not mentioned. -/
def unmentioned (mentions : Mentions) : List String :=
  (mentions.filter fun m => m.2.isNone).map (·.1)

/-- A member with this name, and with a value that is written in this way. -/
def IsMember (entry : String × (Reading → Prop)) (m : Quoted × Reading) : Prop :=
  m.1.text = .ok entry.1 ∧ entry.2 m.2

/-- An object with the mentioned fields and no others, each of them once, in any order. -/
def IsObject (mentions : Mentions) (v : Reading) : Prop :=
  ∃ ms ms', v = .object ms none ∧ ms.Perm ms' ∧
    List.Forall₂ IsMember (mentioned mentions) ms'

/-- Whatever is mentioned can be written, if each value can. -/
theorem exists_isObject {mentions : Mentions}
    (h : ∀ m ∈ mentions, ∀ spells ∈ m.2, ∃ v : Json, spells v.reading) :
    ∃ v : Json, IsObject mentions v.reading := by
  have hmembers : ∃ ms, List.Forall₂ IsMember (mentioned mentions) (memberReadings ms) := by
    induction mentions with
    | nil => exact ⟨[], .nil⟩
    | cons m rest ih =>
      obtain ⟨hm, hrest⟩ := List.forall_mem_cons.mp h
      obtain ⟨ms, hms⟩ := ih hrest
      obtain ⟨name, spells?⟩ := m
      cases spells? with
      | none => exact ⟨ms, hms⟩
      | some spells =>
        obtain ⟨v, hv⟩ := hm spells rfl
        exact ⟨(name, v) :: ms, .cons ⟨text_ofString name, hv⟩ hms⟩
  obtain ⟨ms, hms⟩ := hmembers
  exact ⟨.object ms, _, _, by rw [reading], .refl _, hms⟩

/-- A mentioned value is some value, and the object is one that mentions just this value. -/
theorem IsObject.exists_eq {front rest : Mentions} {name : String} {spells : Reading → Prop}
    {v : Reading} (h : IsObject (front ++ (name, some spells) :: rest) v) :
    ∃ w, spells w ∧ IsObject (front ++ (name, some fun w' => w' = w) :: rest) v := by
  obtain ⟨ms, ms', rfl, hp, hms⟩ := h
  have hpinned : ∃ w, spells w ∧
      List.Forall₂ IsMember (mentioned (front ++ (name, some fun w' => w' = w) :: rest)) ms' := by
    clear hp
    induction front generalizing ms' with
    | nil =>
      cases hms with
      | cons hm hms => exact ⟨_, hm.2, .cons ⟨hm.1, rfl⟩ hms⟩
    | cons m front ih =>
      obtain ⟨name', spells'?⟩ := m
      cases spells'? with
      | none => exact ih _ hms
      | some spells' =>
        cases hms with
        | cons hm hms =>
          obtain ⟨w, hw, hrest⟩ := ih _ hms
          exact ⟨w, hw, .cons hm hrest⟩
  obtain ⟨w, hw, hms⟩ := hpinned
  exact ⟨w, hw, ms, ms', rfl, hp, hms⟩

/-! ## 1.  Offers -/

/-- What a member offers to a record: an update of a field, or the failure to read one. -/
abbrev Offer (ρ : Type) :=
  Field ρ × Except ReadError (ρ → ρ)

/-- What the member offers to a record of the shape. -/
def Offers (s : RecordShape ρ) (m : Quoted × Reading) (o : Offer ρ) : Prop :=
  ∃ name, m.1.text = .ok name ∧ s.field? name = some o.1 ∧ o.1.read m.2 = o.2

/-- The fields to which something is offered. -/
def offered (os : List (Offer ρ)) : List String :=
  os.map (·.1.name)

/-- The updates that are offered. -/
def updatesOf (os : List (Offer ρ)) : List (Update ρ) :=
  os.filterMap fun o => o.2.toOption.map fun u => (o.1, u)

section Offers

variable {s : RecordShape ρ} {ms : List (Quoted × Reading)} {os os' : List (Offer ρ)}

/-- **Members that offer to distinct fields** are read one after the other, up to a failure. -/
theorem readMembers_of_offers (h : List.Forall₂ (Offers s) ms os) (r : ρ) (seen : List String)
    (hnodup : (offered os).Nodup) (hseen : ∀ name ∈ offered os, name ∉ seen) :
    (∃ o ∈ os, ∃ e, o.2 = .error e ∧ s.readMembers r seen ms = .error e) ∨
      (∀ o ∈ os, ∃ u, o.2 = .ok u) ∧
        s.readMembers r seen ms =
          .ok (applyAll (updatesOf os) r, (offered os).reverse ++ seen) := by
  induction h generalizing r seen with
  | nil => exact .inr ⟨List.forall_mem_nil _, rfl⟩
  | @cons m o ms os hm _ ih =>
    obtain ⟨f, outcome⟩ := o
    obtain ⟨name, htext, hfield, houtcome⟩ := hm
    obtain ⟨hhead, htail⟩ := List.nodup_cons.mp hnodup
    obtain ⟨hfresh, hrest⟩ := List.forall_mem_cons.mp hseen
    obtain rfl : f.name = name := name_of_field? hfield
    have hcontains : seen.contains f.name = false := by
      rwa [List.contains_eq_mem, decide_eq_false_iff_not]
    have hread : s.readMembers r seen (m :: ms) =
        (do let update ← outcome; s.readMembers (update r) (f.name :: seen) ms) := by
      rw [RecordShape.readMembers, read_eq_ok_iff.mpr htext]
      dsimp only [bind, Except.bind]
      rw [show s.fields.find? (·.name = f.name) = some f from hfield]
      dsimp only
      rw [hcontains, show f.read m.2 = outcome from houtcome]
      rfl
    cases outcome with
    | error e => exact .inl ⟨_, List.mem_cons_self, e, rfl, hread⟩
    | ok u =>
      have hseen' : ∀ name ∈ offered os, name ∉ f.name :: seen := by
        intro name hname hmem
        rcases List.mem_cons.mp hmem with rfl | hmem
        · exact hhead hname
        · exact hrest name hname hmem
      rcases ih (u r) (f.name :: seen) htail hseen' with ⟨o, ho, e, he, hfail⟩ | ⟨hok, hdone⟩
      · exact .inl ⟨o, List.mem_cons_of_mem _ ho, e, he, hread.trans hfail⟩
      · refine .inr ⟨List.forall_mem_cons.mpr ⟨⟨u, rfl⟩, hok⟩, hread.trans (hdone.trans ?_)⟩
        have hreverse : (offered ((f, .ok u) :: os)).reverse ++ seen =
            (offered os).reverse ++ f.name :: seen := by
          simp [offered]
        rw [hreverse]
        rfl

/-- Permuted members make the same offers. -/
theorem exists_offers_of_perm {ms' : List (Quoted × Reading)} (hp : ms.Perm ms')
    (h : List.Forall₂ (Offers s) ms' os) : ∃ os', os'.Perm os ∧ List.Forall₂ (Offers s) ms os' := by
  obtain ⟨os', hoffers, hperm⟩ := List.perm_comp_forall₂ hp h
  exact ⟨os', hperm, hoffers⟩

theorem mem_updatesOf {u : Update ρ} : u ∈ updatesOf os ↔ (u.1, .ok u.2) ∈ os := by
  simp only [updatesOf, List.mem_filterMap]
  constructor
  · rintro ⟨⟨f, outcome⟩, ho, hu⟩
    cases outcome with
    | error e => exact absurd hu (by simp [Except.toOption])
    | ok update =>
      obtain rfl : (f, update) = u := Option.some.inj hu
      exact ho
  · exact fun h => ⟨_, h, rfl⟩

/-- **The order of the offers does not matter**, if no two of them are to one field. -/
theorem applyAll_updatesOf_perm (hs : s.fields.Pairwise Field.Commutes) (hp : os'.Perm os)
    (hnodup : (offered os).Nodup) (h : List.Forall₂ (Offers s) ms os') (r : ρ) :
    applyAll (updatesOf os') r = applyAll (updatesOf os) r := by
  have hread : ∀ u ∈ updatesOf os', u.1 ∈ s.fields ∧ ∃ v, u.1.read v = .ok u.2 := by
    intro u hu
    have hmem := mem_updatesOf.mp hu
    clear hu hp hnodup
    induction h with
    | nil => exact absurd hmem List.not_mem_nil
    | cons hm _ ih =>
      rcases List.mem_cons.mp hmem with rfl | hmem
      · obtain ⟨name, -, hfield, houtcome⟩ := hm
        exact ⟨mem_fields_of_field? hfield, _, houtcome⟩
      · exact ih hmem
  refine (hp.filterMap _).foldl_eq' ?_ r
  intro u hu u' hu' r
  by_cases hname : u.1.name = u'.1.name
  · have hoffer := List.inj_on_of_nodup_map ((hp.map _).nodup_iff.mpr hnodup)
      (mem_updatesOf.mp hu) (mem_updatesOf.mp hu') hname
    obtain ⟨hfield, houtcome⟩ := Prod.mk.inj hoffer
    rw [Except.ok.inj houtcome]
  · obtain ⟨hmem, v, hv⟩ := hread u hu
    obtain ⟨hmem', v', hv'⟩ := hread u' hu'
    exact commutes_of_pairwise hs u.1 hmem u'.1 hmem' hname v v' u.2 u'.2 hv hv' r

end Offers

/-! ## 2.  The fields of a shape -/

/-- The fields of a shape, and what is mentioned of them.  A mentioned value is known to be read, or
known to fail, in whatever way it is written. -/
inductive Covers : List (Field ρ) → Mentions → List (Offer ρ) → Prop where
  | nil : Covers [] [] []
  | absent {f : Field ρ} {fs : List (Field ρ)} {mentions : Mentions} {os : List (Offer ρ)}
      (tail : Covers fs mentions os) : Covers (f :: fs) ((f.name, none) :: mentions) os
  | present {f : Field ρ} {spells : Reading → Prop} {outcome : Except ReadError (ρ → ρ)}
      {fs : List (Field ρ)} {mentions : Mentions} {os : List (Offer ρ)}
      (head : ∀ v, spells v → f.read v = outcome) (tail : Covers fs mentions os) :
      Covers (f :: fs) ((f.name, some spells) :: mentions) ((f, outcome) :: os)

section Covers

variable {s : RecordShape ρ} {fs : List (Field ρ)} {mentions : Mentions} {os : List (Offer ρ)}

theorem Covers.sublist (h : Covers fs mentions os) :
    (offered os).Sublist (fs.map (·.name)) := by
  induction h with
  | nil => exact .slnil
  | absent _ ih => exact ih.cons _
  | present _ _ ih => exact ih.cons_cons _

/-- Members that are as mentioned make the offers. -/
theorem Covers.offers (h : Covers fs mentions os)
    (hfields : ∀ f ∈ fs, s.field? f.name = some f) {ms : List (Quoted × Reading)}
    (hms : List.Forall₂ IsMember (mentioned mentions) ms) :
    List.Forall₂ (Offers s) ms os := by
  induction h generalizing ms with
  | nil =>
    cases hms
    exact .nil
  | absent _ ih => exact ih (List.forall_mem_cons.mp hfields).2 hms
  | present head _ ih =>
    obtain ⟨hf, hfs⟩ := List.forall_mem_cons.mp hfields
    cases hms with
    | cons hm hms => exact .cons ⟨_, hm.1, hf, head _ hm.2⟩ (ih hfs hms)

theorem field?_of_mem (hnames : s.names.Nodup) {f : Field ρ} (hf : f ∈ s.fields) :
    s.field? f.name = some f := by
  obtain ⟨met, fs, hs⟩ := List.append_of_mem hf
  exact find?_field hs (name_notMem_met hnames hs)

/-- What is read from an object with what is mentioned: the failure of one of the offers, or all
updates, if no field is missing. -/
theorem Covers.read (h : Covers s.fields mentions os) (hnames : s.names.Nodup)
    (hcommute : s.fields.Pairwise Field.Commutes) {v : Reading} (hv : IsObject mentions v) :
    (∃ o ∈ os, ∃ e, o.2 = .error e ∧ s.read v = .error e) ∨
      (∀ o ∈ os, ∃ u, o.2 = .ok u) ∧ ∃ seen, seen.Perm (offered os) ∧
        s.read v = match s.firstMissing seen with
          | some name => .error (.mismatch (.missingField name))
          | none => .ok (applyAll (updatesOf os) s.blank) := by
  obtain ⟨ms, ms', rfl, hp, hms⟩ := hv
  obtain ⟨os', hperm, hoffers⟩ :=
    exists_offers_of_perm hp (h.offers (fun f hf => field?_of_mem hnames hf) hms)
  have hnodup : (offered os).Nodup := hnames.sublist h.sublist
  have hnodup' : (offered os').Nodup := (hperm.map _).nodup_iff.mpr hnodup
  have happly := applyAll_updatesOf_perm hcommute hperm hnodup hoffers s.blank
  rcases readMembers_of_offers hoffers s.blank [] hnodup' fun _ _ => List.not_mem_nil with
    ⟨o, ho, e, he, hfail⟩ | ⟨hok, hdone⟩
  · refine .inl ⟨o, hperm.mem_iff.mp ho, e, he, ?_⟩
    rw [RecordShape.read, hfail]
    rfl
  · refine .inr ⟨fun o ho => hok o (hperm.mem_iff.mpr ho), (offered os').reverse ++ [], ?_, ?_⟩
    · rw [List.append_nil]
      exact (List.reverse_perm _).trans (hperm.map _)
    · rw [RecordShape.read, hdone, happly]
      rfl

theorem firstMissing_eq_none (hs : ∀ f ∈ s.fields, f.presence ≠ .required) (seen : List String) :
    s.firstMissing seen = none := by
  rw [RecordShape.firstMissing, Option.map_eq_none_iff, List.find?_eq_none]
  intro f hf
  simp [hs f hf]

theorem Covers.unmentioned_eq (h : Covers fs mentions os) (hnames : (fs.map (·.name)).Nodup) :
    unmentioned mentions = (fs.map (·.name)).filter fun name => !(offered os).contains name := by
  induction h with
  | nil => rfl
  | @absent f fs mentions os tail ih =>
    obtain ⟨hf, hfs⟩ := List.nodup_cons.mp hnames
    have hfresh : (!(offered os).contains f.name) = true := by
      simpa using fun hmem => hf (tail.sublist.subset hmem)
    rw [List.map_cons, List.filter_cons, if_pos hfresh, ← ih hfs]
    rfl
  | @present f spells outcome fs mentions os head tail ih =>
    obtain ⟨hf, hfs⟩ := List.nodup_cons.mp hnames
    have hrest : ∀ name ∈ fs.map (·.name),
        (!(offered ((f, outcome) :: os)).contains name) = !(offered os).contains name := by
      rintro name hname
      have hne : name ≠ f.name := by
        rintro rfl
        exact hf hname
      rw [offered, List.map_cons, List.contains_cons, beq_eq_false_iff_ne.mpr hne, Bool.false_or]
      rfl
    have hmet : ¬ (!(offered ((f, outcome) :: os)).contains f.name) = true := by
      simp [offered]
    rw [List.map_cons, List.filter_cons, if_neg hmet, List.filter_congr hrest, ← ih hfs]
    rfl

/-- **The first missing field is the first one that is not mentioned**, if all are required. -/
theorem Covers.firstMissing (h : Covers s.fields mentions os) (hnames : s.names.Nodup)
    (hs : ∀ f ∈ s.fields, f.presence = .required) {seen : List String}
    (hseen : seen.Perm (offered os)) :
    s.firstMissing seen = (unmentioned mentions).head? := by
  have hmissing : ∀ f ∈ s.fields, (decide (f.presence = .required) && !seen.contains f.name) =
      !(offered os).contains f.name := by
    intro f hf
    rw [hs f hf, List.contains_eq_mem, List.contains_eq_mem, decide_eq_decide.mpr hseen.mem_iff]
    rfl
  rw [h.unmentioned_eq hnames, List.head?_filter, List.find?_map, RecordShape.firstMissing,
    List.find?_congr hmissing]
  rfl

/-- A record without required fields. -/
theorem Covers.read_defaulted (h : Covers s.fields mentions os) (hnames : s.names.Nodup)
    (hcommute : s.fields.Pairwise Field.Commutes) (hs : ∀ f ∈ s.fields, f.presence ≠ .required)
    {v : Reading} (hv : IsObject mentions v) :
    (∃ o ∈ os, ∃ e, o.2 = .error e ∧ s.read v = .error e) ∨
      (∀ o ∈ os, ∃ u, o.2 = .ok u) ∧ s.read v = .ok (applyAll (updatesOf os) s.blank) := by
  refine (h.read hnames hcommute hv).imp_right ?_
  rintro ⟨hok, seen, -, hread⟩
  rw [firstMissing_eq_none hs] at hread
  exact ⟨hok, hread⟩

/-- A record all of whose fields are required. -/
theorem Covers.read_required (h : Covers s.fields mentions os) (hnames : s.names.Nodup)
    (hcommute : s.fields.Pairwise Field.Commutes) (hs : ∀ f ∈ s.fields, f.presence = .required)
    (hok : ∀ o ∈ os, ∃ u, o.2 = .ok u) {v : Reading} (hv : IsObject mentions v) :
    s.read v = match (unmentioned mentions).head? with
      | some name => .error (.mismatch (.missingField name))
      | none => .ok (applyAll (updatesOf os) s.blank) := by
  rcases h.read hnames hcommute hv with ⟨o, ho, e, he, -⟩ | ⟨-, seen, hseen, hread⟩
  · obtain ⟨u, hu⟩ := hok o ho
    rw [he] at hu
    exact absurd hu (by simp)
  · rwa [h.firstMissing hnames hs hseen] at hread

end Covers

/-! ## 3.  What comes of it -/

section Fields

variable {s : RecordShape ρ} {fs : List (Field ρ)} {mentions : Mentions} {os : List (Offer ρ)}
  {name : String} {presence : Presence} {d : Decoder β} {put : β → ρ → ρ}
  {spells : α → Reading → Prop}

/-- What a field offers, if a value of it is mentioned. -/
def offersOf (f : Field ρ) (put : β → ρ → ρ) (outcome : α → Except ReadError β) (a? : Option α) :
    List (Offer ρ) :=
  a?.toList.map fun a => (f, put <$> outcome a)

theorem Covers.field (outcome : α → Except ReadError β) (a? : Option α)
    (head : ∀ a ∈ a?, ∀ v, spells a v → d v = outcome a) (tail : Covers fs mentions os) :
    Covers (.of name presence d put :: fs) ((name, a?.map spells) :: mentions)
      (offersOf (.of name presence d put) put outcome a? ++ os) := by
  cases a? with
  | none => exact .absent (f := .of name presence d put) tail
  | some a =>
    refine .present (f := .of name presence d put) (fun v hv => ?_) tail
    exact congrArg (put <$> ·) (head a rfl v hv)

/-- A record with one of its values replaced, if there is a value to replace it with. -/
def overwrite (put : β → ρ → ρ) (get : ρ → β) (b? : Option β) (r : ρ) : ρ :=
  put (b?.getD (get r)) r

/-- Each mentioned value is read, and all of them together change a record in this way. -/
def Gives (fs : List (Field ρ)) (mentions : Mentions) (change : ρ → ρ) : Prop :=
  ∃ os, Covers fs mentions os ∧ (∀ o ∈ os, ∃ u, o.2 = .ok u) ∧
    ∀ r, applyAll (updatesOf os) r = change r

namespace Gives

theorem nil : Gives ([] : List (Field ρ)) [] id :=
  ⟨[], .nil, List.forall_mem_nil _, fun _ => rfl⟩

/-- A value that is mentioned replaces the one that is there. -/
theorem field {change : ρ → ρ} (value : α → β) (get : ρ → β) (a? : Option α)
    (head : ∀ a ∈ a?, ∀ v, spells a v → d v = .ok (value a))
    (hput : ∀ r, put (get r) r = r) (tail : Gives fs mentions change) :
    Gives (.of name presence d put :: fs) ((name, a?.map spells) :: mentions)
      (change ∘ overwrite put get (a?.map value)) := by
  obtain ⟨os, hcovers, hok, happly⟩ := tail
  refine ⟨_, hcovers.field (fun a => .ok (value a)) a? head, ?_, fun r => ?_⟩
  · refine List.forall_mem_append.mpr ⟨List.forall_mem_map.mpr fun a _ => ?_, hok⟩
    exact ⟨put (value a), rfl⟩
  · rw [Function.comp_apply, ← happly]
    cases a? with
    | none =>
      rw [overwrite, Option.map_none, Option.getD_none, hput]
      rfl
    | some a => rfl

/-- The same for a value that is mentioned as it is. -/
theorem leaf {change : ρ → ρ} {spells : β → Reading → Prop} (get : ρ → β) (b? : Option β)
    (head : ∀ b v, spells b v → d v = .ok b) (hput : ∀ r, put (get r) r = r)
    (tail : Gives fs mentions change) :
    Gives (.of name presence d put :: fs) ((name, b?.map spells) :: mentions)
      (change ∘ overwrite put get b?) := by
  have hsame : overwrite put get b? = overwrite put get (b?.map id) := by
    rw [Option.map_id_apply]
  rw [hsame]
  exact tail.field id get b? (fun b _ => head b) hput

variable {change : ρ → ρ}

theorem read_defaulted (h : Gives s.fields mentions change) (hnames : s.names.Nodup)
    (hcommute : s.fields.Pairwise Field.Commutes) (hs : ∀ f ∈ s.fields, f.presence ≠ .required)
    {v : Reading} (hv : IsObject mentions v) : s.read v = .ok (change s.blank) := by
  obtain ⟨os, hcovers, hok, happly⟩ := h
  rcases hcovers.read_defaulted hnames hcommute hs hv with ⟨o, ho, e, he, -⟩ | ⟨-, hread⟩
  · obtain ⟨u, hu⟩ := hok o ho
    rw [he] at hu
    exact absurd hu (by simp)
  · rw [hread, happly]

theorem read_required (h : Gives s.fields mentions change) (hnames : s.names.Nodup)
    (hcommute : s.fields.Pairwise Field.Commutes) (hs : ∀ f ∈ s.fields, f.presence = .required)
    {v : Reading} (hv : IsObject mentions v) :
    s.read v = match (unmentioned mentions).head? with
      | some name => .error (.mismatch (.missingField name))
      | none => .ok (change s.blank) := by
  obtain ⟨os, hcovers, hok, happly⟩ := h
  rw [hcovers.read_required hnames hcommute hs hok hv, happly]

end Gives

/-- The failures that the mentioned values make. -/
def Fails (fs : List (Field ρ)) (mentions : Mentions) (fails : ReadError → Prop) : Prop :=
  ∃ os, Covers fs mentions os ∧ ∀ e, (∃ o ∈ os, o.2 = .error e) ↔ fails e

namespace Fails

variable {fails : ReadError → Prop}

theorem nil : Fails ([] : List (Field ρ)) [] fun _ => False :=
  ⟨[], .nil, by simp⟩

theorem field (outcome : α → Except ReadError β) (a? : Option α)
    (head : ∀ a ∈ a?, ∀ v, spells a v → d v = outcome a) (tail : Fails fs mentions fails) :
    Fails (.of name presence d put :: fs) ((name, a?.map spells) :: mentions)
      fun e => (∃ a ∈ a?, outcome a = .error e) ∨ fails e := by
  obtain ⟨os, hcovers, hfails⟩ := tail
  refine ⟨_, hcovers.field outcome a? head, fun e => ?_⟩
  have hmap (a : α) : put <$> outcome a = .error e ↔ outcome a = .error e := by
    cases outcome a <;> simp
  simp [offersOf, or_and_right, exists_or, hmap, ← hfails e]

/-- A value that is read makes no failure. -/
theorem leaf {spells : β → Reading → Prop} (b? : Option β)
    (head : ∀ b v, spells b v → d v = .ok b) (tail : Fails fs mentions fails) :
    Fails (.of name presence d put :: fs) ((name, b?.map spells) :: mentions) fails := by
  have hfield : Fails (.of name presence d put :: fs) ((name, b?.map spells) :: mentions) fun e =>
      (∃ b ∈ b?, Except.ok b = .error e) ∨ fails e :=
    tail.field .ok b? fun b _ => head b
  simpa using hfield

/-- **If there is a failure, one of them is read.** -/
theorem read (h : Fails s.fields mentions fails) (hnames : s.names.Nodup)
    (hcommute : s.fields.Pairwise Field.Commutes) (hsome : ∃ e, fails e) {v : Reading}
    (hv : IsObject mentions v) : ∃ e, fails e ∧ s.read v = .error e := by
  obtain ⟨os, hcovers, hfails⟩ := h
  rcases hcovers.read hnames hcommute hv with ⟨o, ho, e, he, hfail⟩ | ⟨hok, -⟩
  · exact ⟨e, (hfails e).mp ⟨o, ho, he⟩, hfail⟩
  · obtain ⟨e, he⟩ := hsome
    obtain ⟨o, ho, herror⟩ := (hfails e).mpr he
    obtain ⟨u, hu⟩ := hok o ho
    rw [herror] at hu
    exact absurd hu (by simp)

end Fails

end Fields

end Json
end TransferCost
