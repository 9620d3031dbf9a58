import TransferCost.Json.Basic
import TransferCost.Json.Reading
import TransferCost.Text

/-!
# Reading values of a known shape

A `Decoder α` looks at a `Reading` and either takes an `α` from it or says what it met first: a flaw
of the text, or a value of another shape.  The order is that of the text.  A decoder looks at an
array or object item by item, so a wrong item in front of a flaw is reported, and a flaw in front of
a wrong item as well.

## Where a wrong shape is not called one

Before a value can be called one of the wrong shape it has to be read: a number too large for a
double, or a string with half a surrogate pair, is then malformed text.  And where a named variant
must stand, any value that begins neither with a quote nor with a brace is malformed text too, and
so is an object with anything but a string for its key or with more than one member.
-/

namespace TransferCost
namespace Json

/-! ## What was met -/

/-- A value of the wrong shape, as far as a message names it. -/
inductive Found where
  | null
  | bool (b : Bool)
  | integer (n : Int)
  | real (x : Float)
  | text (s : String)
  | sequence
  | map

/-- The words for a value of the wrong shape. -/
def Found.describe : Found → String
  | null => "null"
  | bool b => s!"boolean `{b}`"
  | integer n => s!"integer `{n}`"
  | real x => s!"floating point `{numberLayout.text x}`"
  | text s => s!"string {Text.literal s}"
  | sequence => "sequence"
  | map => "map"

/-- How a grammatical text fails to have the shape that was asked for. -/
inductive Mismatch where
  | invalidType (found : Found) (expected : String)
  | invalidValue (found : Found) (expected : String)
  | invalidLength (found : Nat) (expected : String)
  | unknownVariant (name : String) (known : List String)
  | missingField (name : String)
  | duplicateField (name : String)
  /-- A string of the right kind whose text spells nothing of that kind. -/
  | unreadable (what : String)

/-- The known names in a row: one, two with an "or", or a list. -/
def oneOf : List String → String
  | [a] => s!"`{a}`"
  | [a, b] => s!"`{a}` or `{b}`"
  | names => "one of " ++ String.intercalate ", " (names.map fun a => s!"`{a}`")

/-- A wrong shape in words. -/
def Mismatch.message : Mismatch → String
  | invalidType found expected => s!"invalid type: {found.describe}, expected {expected}"
  | invalidValue found expected => s!"invalid value: {found.describe}, expected {expected}"
  | invalidLength n expected => s!"invalid length {n}, expected {expected}"
  | unknownVariant name known => s!"unknown variant `{name}`, expected {oneOf known}"
  | missingField name => s!"missing field `{name}`"
  | duplicateField name => s!"duplicate field `{name}`"
  | unreadable what => s!"this is not {what}"

/-- Why a text is not taken as a value. -/
abbrev ReadError := Refusal Mismatch

/-- The reason in words. -/
def readErrorMessage : ReadError → String
  | .ended f | .malformed f => f.message
  | .mismatch m => m.message

/-- Takes a value from the reading of a text. -/
abbrev Decoder (α : Type) := Reading → Except ReadError α

/-! ## Numbers -/

/-- What a number is to a reader of numbers. -/
inductive NumberKind where
  | unsigned (n : Nat)
  /-- The negative number `-n`. -/
  | negative (n : Nat)
  | real (x : Float)

/-- A number written whole is an integer if it fits into 64 bits, with or without a sign; a negative
zero and every other number is a double. -/
def Numeral.kind? (n : Numeral) : Option NumberKind :=
  if n.isWhole && !n.negative && n.coefficient < Nat.pow 2 64 then some (.unsigned n.coefficient)
  else if n.isWhole && n.negative && 0 < n.coefficient && n.coefficient ≤ Nat.pow 2 63 then
    some (.negative n.coefficient)
  else n.toFloat?.map .real

/-- The name of a number in a message. -/
def NumberKind.found : NumberKind → Found
  | unsigned n => .integer n
  | negative n => .integer (-n)
  | real x => .real x

/-- The refusal of a reading that should have been something else. -/
def Reading.refuse (expected : String) : Reading → ReadError
  | .null => .mismatch (.invalidType .null expected)
  | .bool b => .mismatch (.invalidType (.bool b) expected)
  | .number n =>
    match n.kind? with
    | some k => .mismatch (.invalidType k.found expected)
    | none => .malformed .numberOutOfRange
  | .text q =>
    match q.read (α := Mismatch) with
    | .ok s => .mismatch (.invalidType (.text s) expected)
    | .error e => e
  | .array _ _ => .mismatch (.invalidType .sequence expected)
  | .object _ _ | .keyless => .mismatch (.invalidType .map expected)
  | .broken f => Refusal.ofFlaw f

/-! ## Values without parts -/

/-- A quantity: any number within range. -/
def decodeReal : Decoder Float
  | .number n =>
    match n.toFloat? with
    | some x => .ok x
    | none => .error (.malformed .numberOutOfRange)
  | v => .error (v.refuse "f64")

/-- A count below `bound`, which the messages call `name`. -/
def decodeCount (name : String) (bound : Nat) : Decoder Nat
  | .number n =>
    match n.kind? with
    | some (.unsigned k) =>
      if k < bound then .ok k else .error (.mismatch (.invalidValue (.integer k) name))
    | some (.negative k) => .error (.mismatch (.invalidValue (.integer (-k)) name))
    | some (.real x) => .error (.mismatch (.invalidType (.real x) name))
    | none => .error (.malformed .numberOutOfRange)
  | v => .error (v.refuse name)

/-- A count of 32 bits. -/
def decodeCount32 : Decoder UInt32 := fun v => do
  return UInt32.ofNat (← decodeCount "u32" (Nat.pow 2 32) v)

/-- A count of 64 bits. -/
def decodeCount64 : Decoder Nat :=
  decodeCount "usize" (Nat.pow 2 64)

/-- A string, which the messages call `expected`. -/
def decodeTextAs (expected : String) : Decoder String
  | .text q => q.read
  | v => .error (v.refuse expected)

/-- A string. -/
def decodeText : Decoder String :=
  decodeTextAs "a string"

/-- A string that spells a value. -/
def decodeSpelled {α : Type} (expected what : String) (parse : String → Option α) : Decoder α :=
  fun v => do
    let s ← decodeTextAs expected v
    match parse s with
    | some a => return a
    | none => throw (.mismatch (.unreadable what))

/-- A value or `null`. -/
def decodeNullable {α : Type} (d : Decoder α) : Decoder (Option α)
  | .null => .ok none
  | v => some <$> d v

/-! ## Named variants -/

/-- The variant of this name. -/
def variantNamed {α : Type} (known : List (String × α)) (name : String) : Except ReadError α :=
  match known.lookup name with
  | some a => .ok a
  | none => .error (.mismatch (.unknownVariant name (known.map (·.1))))

/-- The refusal of a flaw that stands behind the value of a variant.  Only the end of the object may
stand there, so a comma is wrong whatever follows it. -/
def refuseBehindVariant : Flaw → ReadError
  | .membersCutShort => .malformed .valueExpected
  | f => Refusal.ofFlaw f

/-- A variant without content: its name as a string, or an object whose only key is the name and
whose only value is `null`. -/
def decodeVariant {α : Type} (known : List (String × α)) : Decoder α
  | .text q => do
    variantNamed known (← q.read)
  | .object [] (some f) => .error (Refusal.ofFlaw f)
  | .object [] none => .error (.malformed .valueExpected)
  | .object ((key, v) :: rest) ending => do
    let a ← variantNamed known (← key.read)
    match v with
    | .null => pure ()
    | _ => throw (v.refuse "unit")
    match rest, ending with
    | [], none => return a
    | [], some f => throw (refuseBehindVariant f)
    | _ :: _, _ => throw (.malformed .valueExpected)
  | .keyless => .error (.malformed .keyExpected)
  | .broken .textEnded => .error (.ended .textEnded)
  | _ => .error (.malformed .valueExpected)

/-! ## Arrays -/

/-- The items one after the other. -/
def decodeItems {α : Type} (d : Decoder α) : List Reading → Except ReadError (List α)
  | [] => .ok []
  | v :: rest => do
    let a ← d v
    return a :: (← decodeItems d rest)

/-- An array of values of one shape. -/
def decodeArray {α : Type} (d : Decoder α) : Decoder (List α)
  | .array items ending => do
    let as ← decodeItems d items
    checkEnding Refusal.ofFlaw ending
    return as
  | v => .error (v.refuse "a sequence")

/-! ## Objects with keys from a closed set -/

/-- The members one after the other. -/
def decodeEntries {κ α : Type} (known : List (String × κ)) (d : Decoder α) :
    List (Quoted × Reading) → Except ReadError (List (κ × α))
  | [] => .ok []
  | (key, v) :: rest => do
    let k ← variantNamed known (← key.read)
    let a ← d v
    return (k, a) :: (← decodeEntries known d rest)

/-- An object whose keys are names of variants, as a list of entries in the order of the text. -/
def decodeMap {κ α : Type} (known : List (String × κ)) (d : Decoder α) : Decoder (List (κ × α))
  | .object members ending => do
    let entries ← decodeEntries known d members
    checkEnding Refusal.ofFlaw ending
    return entries
  | .keyless => .error (.malformed .keyExpected)
  | v => .error (v.refuse "a map")

/-! ## Whole texts -/

/-- Reads a whole text: one value, and nothing behind it. -/
def decodeString {α : Type} (d : Decoder α) (s : String) : Except ReadError α := do
  let (v, surplus) := Reading.ofString s
  let a ← d v
  if surplus then throw (.malformed .surplusText)
  return a

end Json
end TransferCost
