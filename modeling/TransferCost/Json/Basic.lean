import TransferCost.Decimal.Layout

/-!
# JSON documents to be written

A `Json` is a document that the program writes.  It has two kinds of numbers, counts and measured
quantities, because the two are spelled differently: a count has no point, a quantity always has one
or an exponent.  A quantity that is no finite number is written as `null`, which JSON leaves no
other word for.

## The two renderings

`compact` writes no blank at all.  `pretty` writes every item and every member on a line of its own,
indented by two spaces per level, and leaves an empty array or object on one line.
-/

namespace TransferCost

/-- A JSON document. -/
inductive Json where
  | null
  | bool (b : Bool)
  | count (n : Nat)
  | real (x : Float)
  | text (s : String)
  | array (items : List Json)
  | object (members : List (String × Json))

namespace Json

/-- A value that may be missing. -/
def optional {α : Type} (f : α → Json) : Option α → Json
  | none => .null
  | some a => f a

/-- Quantities are positional from `10 ^ -5` up to `10 ^ 16`, and of two equally near digits the
even one is written. -/
def numberLayout : Decimal.Layout where
  isPositional e := -5 ≤ e && e < 16
  keepsPoint := true
  signsExponent := true
  tie := .toEven

/-- The digits of a control character's escape. -/
def hexPair (n : Nat) : List Char :=
  [Nat.digitChar (n / 16), Nat.digitChar (n % 16)]

/-- One character inside a string. -/
def escape (c : Char) : List Char :=
  if c = '"' then ['\\', '"']
  else if c = '\\' then ['\\', '\\']
  else if c = '\x08' then ['\\', 'b']
  else if c = '\x0c' then ['\\', 'f']
  else if c = '\n' then ['\\', 'n']
  else if c = '\r' then ['\\', 'r']
  else if c = '\t' then ['\\', 't']
  else if c.toNat < 0x20 then ['\\', 'u', '0', '0'] ++ hexPair c.toNat
  else [c]

/-- A string between quotes. -/
def quote (s : String) : List Char :=
  '"' :: s.toList.flatMap escape ++ ['"']

/-- A quantity. -/
def quantity (x : Float) : List Char :=
  if x.isFinite then numberLayout.chars x else ['n', 'u', 'l', 'l']

/-- The values that hold no others. -/
def boolChars (b : Bool) : List Char :=
  if b then ['t', 'r', 'u', 'e'] else ['f', 'a', 'l', 's', 'e']

/-! ## Without blanks -/

mutual

/-- A document without blanks. -/
def compact : Json → List Char
  | .null => ['n', 'u', 'l', 'l']
  | .bool b => boolChars b
  | .count n => Decimal.digits n
  | .real x => quantity x
  | .text s => quote s
  | .array [] => ['[', ']']
  | .array (v :: rest) => '[' :: compact v ++ compactItems rest
  | .object [] => ['\x7b', '\x7d']
  | .object ((k, v) :: rest) => '\x7b' :: quote k ++ ':' :: compact v ++ compactMembers rest

/-- The further items of an array, and its end. -/
def compactItems : List Json → List Char
  | [] => [']']
  | v :: rest => ',' :: compact v ++ compactItems rest

/-- The further members of an object, and its end. -/
def compactMembers : List (String × Json) → List Char
  | [] => ['\x7d']
  | (k, v) :: rest => ',' :: quote k ++ ':' :: compact v ++ compactMembers rest

end

/-! ## One value a line -/

/-- A new line, indented by the level. -/
def newline (level : Nat) : List Char :=
  '\n' :: List.replicate (2 * level) ' '

mutual

/-- A document with one value a line, at the level of its own line. -/
def prettyAt (level : Nat) : Json → List Char
  | .null => ['n', 'u', 'l', 'l']
  | .bool b => boolChars b
  | .count n => Decimal.digits n
  | .real x => quantity x
  | .text s => quote s
  | .array [] => ['[', ']']
  | .array (v :: rest) =>
    '[' :: newline (level + 1) ++ prettyAt (level + 1) v ++ prettyItems level rest
  | .object [] => ['\x7b', '\x7d']
  | .object ((k, v) :: rest) =>
    '\x7b' :: newline (level + 1) ++ quote k ++ ':' :: ' ' :: prettyAt (level + 1) v ++
      prettyMembers level rest

/-- The further items of an array, and its end. -/
def prettyItems (level : Nat) : List Json → List Char
  | [] => newline level ++ [']']
  | v :: rest => ',' :: newline (level + 1) ++ prettyAt (level + 1) v ++ prettyItems level rest

/-- The further members of an object, and its end. -/
def prettyMembers (level : Nat) : List (String × Json) → List Char
  | [] => newline level ++ ['\x7d']
  | (k, v) :: rest =>
    ',' :: newline (level + 1) ++ quote k ++ ':' :: ' ' :: prettyAt (level + 1) v ++
      prettyMembers level rest

end

/-- The text of a document without blanks. -/
def compactText (v : Json) : String :=
  String.ofList v.compact

/-- The text of a document with one value a line. -/
def prettyText (v : Json) : String :=
  String.ofList (v.prettyAt 0)

end Json
end TransferCost
