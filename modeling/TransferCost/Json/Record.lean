import TransferCost.Json.Decode

/-!
# Reading records

A record is written as an object whose members are its fields, in any order, or as an array of the
fields in the order of their declaration.  A `RecordShape` lists the fields.  Each field reads its
value into an *update* of the record, so the record is filled in while the text is walked, and no
second pass can change which problem is reported first.

## The rules

* A member with an unknown key is skipped.
* A field that occurs twice is refused at its second key, before its second value is looked at.
* What a missing field means is its `Presence`.  In an array, a nullable field must be there as
  well.
* Behind the last field of an array only the end of the array may stand.
-/

namespace TransferCost
namespace Json

/-- What it means that a field is missing. -/
inductive Presence where
  /-- The text is refused. -/
  | required
  /-- The field stays as in the blank record, but an array must not be so short. -/
  | nullable
  /-- The field stays as in the blank record. -/
  | defaulted
deriving DecidableEq

/-- A field of a record `ρ`. -/
structure Field (ρ : Type) where
  name : String
  presence : Presence
  read : Decoder (ρ → ρ)

/-- A field whose value is put into the record by `put`. -/
def Field.of {ρ α : Type} (name : String) (presence : Presence) (d : Decoder α)
    (put : α → ρ → ρ) : Field ρ where
  name
  presence
  read v := put <$> d v

/-- The fields of a record, in the order of their declaration, and the record in which none is
filled in.  Messages call the record by `title`. -/
structure RecordShape (ρ : Type) where
  title : String
  fields : List (Field ρ)
  blank : ρ

namespace RecordShape

variable {ρ : Type}

/-- The record's name in a message. -/
def expected (s : RecordShape ρ) : String :=
  s!"struct {s.title}"

/-- The record's name and size in a message. -/
def expectedLength (s : RecordShape ρ) : String :=
  s!"struct {s.title} with {s.fields.length} elements"

/-- Fills in the members of an object.  `seen` holds the fields met so far. -/
def readMembers (s : RecordShape ρ) (r : ρ) (seen : List String) :
    List (Quoted × Reading) → Except ReadError (ρ × List String)
  | [] => .ok (r, seen)
  | (key, v) :: rest => do
    let name ← key.read
    match s.fields.find? (·.name = name) with
    | none =>
      v.skim
      s.readMembers r seen rest
    | some field =>
      if seen.contains name then throw (.mismatch (.duplicateField name))
      let update ← field.read v
      s.readMembers (update r) (name :: seen) rest

/-- Fills in the items of an array, of which `index` are used up. -/
def readItems (s : RecordShape ρ) (ending : Option Flaw) (r : ρ) (index : Nat) :
    List (Field ρ) → List Reading → Except ReadError ρ
  | [], [] => do
    checkEnding Refusal.ofFlaw ending
    return r
  | [], _ :: _ => .error (.malformed .surplusText)
  | field :: fields, [] => do
    checkEnding Refusal.ofFlaw ending
    match field.presence with
    | .defaulted => s.readItems ending r (index + 1) fields []
    | .required | .nullable => throw (.mismatch (.invalidLength index s.expectedLength))
  | field :: fields, v :: rest => do
    let update ← field.read v
    s.readItems ending (update r) (index + 1) fields rest

/-- The first required field that was not met. -/
def firstMissing (s : RecordShape ρ) (seen : List String) : Option String :=
  (s.fields.find? fun f => f.presence = .required && !seen.contains f.name).map (·.name)

/-- A record, as an object or as an array. -/
def read (s : RecordShape ρ) : Decoder ρ
  | .object members ending => do
    let (r, seen) ← s.readMembers s.blank [] members
    checkEnding Refusal.ofFlaw ending
    match s.firstMissing seen with
    | some name => throw (.mismatch (.missingField name))
    | none => return r
  | .keyless => .error (.malformed .keyExpected)
  | .array items ending => s.readItems ending s.blank 0 s.fields items
  | v => .error (v.refuse s.expected)

end RecordShape

/-! ## Records that keep what they do not know -/

/-- A record together with the unknown keys of its object, in the order of the text. -/
structure Kept (ρ : Type) where
  record : ρ
  unknown : List String

/-- Fills in the members of an object.  The value of an unknown key is kept, and `room` further
arrays and objects may be opened inside it. -/
def readKeptMembers {ρ : Type} (s : RecordShape ρ) (room : Nat) (r : Kept ρ)
    (seen : List String) : List (Quoted × Reading) → Except ReadError (Kept ρ)
  | [] => .ok r
  | (key, v) :: rest => do
    let name ← key.read
    match s.fields.find? (·.name = name) with
    | none =>
      v.keep room
      readKeptMembers s room { r with unknown := r.unknown ++ [name] } seen rest
    | some field =>
      if seen.contains name then throw (.mismatch (.duplicateField name))
      let update ← field.read v
      readKeptMembers s room { r with record := update r.record } (name :: seen) rest

/-- A record of which every field may be missing, as an object that may hold further keys. -/
def readKept {ρ : Type} (s : RecordShape ρ) (room : Nat) : Decoder (Kept ρ)
  | .object members ending => do
    let r ← readKeptMembers s room ⟨s.blank, []⟩ [] members
    checkEnding Refusal.ofFlaw ending
    return r
  | .keyless => .error (.malformed .keyExpected)
  | v => .error (v.refuse s.expected)

end Json
end TransferCost
