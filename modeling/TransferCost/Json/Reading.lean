import TransferCost.Json.Token

/-!
# What a JSON text says, as far as it can be read

A `Reading` is the tree of values that the tokens of a text spell.  Where the text breaks off or
goes wrong, the tree holds the flaw at that very place: as a `broken` value where a value should
stand, or as the `ending` of the array or object that was never closed.  So walking the tree from
left to right meets values and flaws in the order in which a reader of the text meets them, and
everything in front of a flaw can still be looked at.

`grow` is a machine like the scanner.  It takes one token at a time and keeps the arrays and objects
under construction in a list of frames, so a deeper text needs no deeper recursion.

## The two lenient ways to look at a value

A value that no one wants is *skipped* (`skim`): it has to be grammatical, and no more.  A value
that is kept without a known shape (`keep`) must in addition have numbers within range and whole
characters, and may be nested only so deep.
-/

namespace TransferCost
namespace Json

/-! ## The tree -/

/-- The reading of a text, flaws included. -/
inductive Reading where
  | null
  | bool (b : Bool)
  | number (n : Numeral)
  | text (q : Quoted)
  | array (items : List Reading) (ending : Option Flaw)
  | object (members : List (Quoted × Reading)) (ending : Option Flaw)
  /-- An object in which something else than a string stands in the place of the first key. -/
  | keyless
  | broken (f : Flaw)

/-! ## Building the tree -/

/-- An array or object under construction, its finished parts in reverse. -/
inductive Frame where
  | array (done : List Reading)
  | object (done : List (Quoted × Reading)) (key : Quoted)

/-- Where the builder stands between two tokens, inside the frames of the list. -/
inductive Site where
  /-- A value must follow. -/
  | value (outer : List Frame)
  /-- An array has just been opened: a value or its end. -/
  | firstItem (outer : List Frame)
  /-- An object has just been opened: a key or its end. -/
  | firstKey (outer : List Frame)
  /-- After a comma in an object: a key. -/
  | nextKey (done : List (Quoted × Reading)) (outer : List Frame)
  /-- After a key: a colon. -/
  | colon (done : List (Quoted × Reading)) (key : Quoted) (outer : List Frame)
  /-- A value is complete. -/
  | after (v : Reading) (outer : List Frame)

/-- A frame closed around its last value. -/
def Frame.close (v : Reading) (ending : Option Flaw) : Frame → Reading
  | .array done => .array (v :: done).reverse ending
  | .object done key => .object ((key, v) :: done).reverse ending

/-- The tree of a text that stops inside the frames, with the innermost value given. -/
def abandon (f : Flaw) : Reading → List Frame → Reading
  | v, [] => v
  | v, frame :: outer => abandon f (frame.close v (some f)) outer

/-- The tree of a text that ends here. -/
def Site.finish : Site → Reading
  | .value outer => abandon .textEnded (.broken .textEnded) outer
  | .firstItem outer => abandon .textEnded (.array [] (some .textEnded)) outer
  | .firstKey outer => abandon .textEnded (.object [] (some .textEnded)) outer
  | .nextKey done outer => abandon .textEnded (.object done.reverse (some .membersCutShort)) outer
  | .colon done key outer =>
    abandon .textEnded (.broken .textEnded) (.object done key :: outer)
  | .after v outer => abandon .textEnded v outer

/-- The first token of a value, or else the tree of a text that goes wrong there. -/
def openValue (outer : List Frame) : Token → Except Reading Site
  | .null => .ok (.after .null outer)
  | .bool b => .ok (.after (.bool b) outer)
  | .number n => .ok (.after (.number n) outer)
  | .string q => .ok (.after (.text q) outer)
  | .openArray => .ok (.firstItem outer)
  | .openObject => .ok (.firstKey outer)
  | .flaw f => .error (abandon f (.broken f) outer)
  | .closeArray | .closeObject | .comma | .colon =>
    .error (abandon .valueExpected (.broken .valueExpected) outer)

/-- One token: where the builder stands after it, or the tree of a text that goes wrong there. -/
def Site.step (site : Site) (t : Token) : Except Reading Site :=
  match site with
  | .value outer => openValue outer t
  | .firstItem outer =>
    if t = .closeArray then .ok (.after (.array [] none) outer)
    else openValue (.array [] :: outer) t
  | .firstKey outer =>
    match t with
    | .closeObject => .ok (.after (.object [] none) outer)
    | .string q => .ok (.colon [] q outer)
    | _ => .error (abandon .keyExpected .keyless outer)
  | .nextKey done outer =>
    match t with
    | .string q => .ok (.colon done q outer)
    | .closeObject =>
      .error (abandon .trailingComma (.object done.reverse (some .trailingComma)) outer)
    | _ => .error (abandon .keyExpected (.object done.reverse (some .keyExpected)) outer)
  | .colon done key outer =>
    if t = .colon then .ok (.value (.object done key :: outer))
    else .error (abandon .colonExpected (.broken .colonExpected) (.object done key :: outer))
  | .after v [] => .error v
  | .after v (.array done :: outer) =>
    match t with
    | .comma => .ok (.value (.array (v :: done) :: outer))
    | .closeArray => .ok (.after ((Frame.array done).close v none) outer)
    | _ => .error (abandon .separatorExpected v (.array done :: outer))
  | .after v (.object done key :: outer) =>
    match t with
    | .comma => .ok (.nextKey ((key, v) :: done) outer)
    | .closeObject => .ok (.after ((Frame.object done key).close v none) outer)
    | _ => .error (abandon .separatorExpected v (.object done key :: outer))

/-- The tree from a site on, and the tokens behind it. -/
def grow : Site → List Token → Reading × List Token
  | .after v [], ts => (v, ts)
  | site, [] => (site.finish, [])
  | site, t :: ts =>
    match site.step t with
    | .ok next => grow next ts
    | .error v => (v, ts)

/-- The tree of a text. -/
def Reading.ofTokens (ts : List Token) : Reading × List Token :=
  grow (.value []) ts

/-- The tree of a text, and whether anything stands behind it. -/
def Reading.ofString (s : String) : Reading × Bool :=
  let (v, rest) := Reading.ofTokens (Token.scan s.toList)
  (v, !rest.isEmpty)

/-! ## Looking at a value without a shape in mind -/

/-- The nearest double, unless the number is too large for one. -/
def Numeral.toFloat? (n : Numeral) : Option Float :=
  let x := (Decimal.mk n.coefficient n.exponent).toFloat
  if x.isInf then none else some (if n.negative then -x else x)

/-- Why a text is not taken: it ends too early, or it is not JSON, or it is JSON of another shape,
which `α` describes. -/
inductive Refusal (α : Type) where
  | ended (f : Flaw)
  | malformed (f : Flaw)
  | mismatch (m : α)

/-- A flaw met by a reader that wants the value. -/
def Refusal.ofFlaw {α : Type} (f : Flaw) : Refusal α :=
  if f.isEnd then .ended f else .malformed f

/-- A flaw met by a reader that skips the value. -/
def Refusal.ofSkippedFlaw {α : Type} (f : Flaw) : Refusal α :=
  if f.isEndWhenSkipped then .ended f else .malformed f

section Lenient

variable {α : Type}

/-- The end of an array or object. -/
def checkEnding (refusal : Flaw → Refusal α) : Option Flaw → Except (Refusal α) Unit
  | none => .ok ()
  | some f => .error (refusal f)

/-- A string that is wanted. -/
def Quoted.read (q : Quoted) : Except (Refusal α) String :=
  match q.text with
  | .ok s => .ok s
  | .error f => .error (Refusal.ofFlaw f)

mutual

/-- Skips a value. -/
def Reading.skim : Reading → Except (Refusal α) Unit
  | .null | .bool _ | .number _ => .ok ()
  | .text q => checkEnding Refusal.ofSkippedFlaw q.ending
  | .array items ending => do
    skimItems items
    checkEnding Refusal.ofSkippedFlaw ending
  | .object members ending => do
    skimMembers members
    checkEnding Refusal.ofSkippedFlaw ending
  | .keyless => .error (.malformed .keyExpected)
  | .broken f => .error (Refusal.ofSkippedFlaw f)

/-- Skips the values of an array. -/
def skimItems : List Reading → Except (Refusal α) Unit
  | [] => .ok ()
  | v :: rest => do
    v.skim
    skimItems rest

/-- Skips the members of an object. -/
def skimMembers : List (Quoted × Reading) → Except (Refusal α) Unit
  | [] => .ok ()
  | (key, v) :: rest => do
    checkEnding Refusal.ofSkippedFlaw key.ending
    v.skim
    skimMembers rest

end

mutual

/-- Keeps a value, inside which `room` further arrays and objects may be opened. -/
def Reading.keep (room : Nat) : Reading → Except (Refusal α) Unit
  | .null | .bool _ => .ok ()
  | .number n => if n.toFloat?.isSome then .ok () else .error (.malformed .numberOutOfRange)
  | .text q => do
    let _ ← q.read
  | .array items ending =>
    if room = 0 then .error (.malformed .nestedTooDeeply)
    else do
      keepItems (room - 1) items
      checkEnding Refusal.ofFlaw ending
  | .object members ending =>
    if room = 0 then .error (.malformed .nestedTooDeeply)
    else do
      keepMembers (room - 1) members
      checkEnding Refusal.ofFlaw ending
  | .keyless =>
    if room = 0 then .error (.malformed .nestedTooDeeply) else .error (.malformed .keyExpected)
  | .broken f => .error (Refusal.ofFlaw f)

/-- Keeps the values of an array. -/
def keepItems (room : Nat) : List Reading → Except (Refusal α) Unit
  | [] => .ok ()
  | v :: rest => do
    v.keep room
    keepItems room rest

/-- Keeps the members of an object. -/
def keepMembers (room : Nat) : List (Quoted × Reading) → Except (Refusal α) Unit
  | [] => .ok ()
  | (key, v) :: rest => do
    let _ ← key.read (α := α)
    v.keep room
    keepMembers room rest

end

end Lenient

end Json
end TransferCost
