/-!
# Names of runs

Each run has a 128-bit name, which is written in 32 hexadecimal digits in groups of 8, 4, 4, 4 and
12.  It may also be read without the hyphens, between braces or behind the scheme of a URN, and in
upper case.
-/

namespace TransferCost

/-- The name of a run. -/
structure RunId where
  number : Nat
  inRange : number < Nat.pow 2 128
deriving DecidableEq

namespace RunId

/-- The name with this number, of which 128 bits count. -/
def ofNat (n : Nat) : RunId :=
  ⟨n % Nat.pow 2 128, Nat.mod_lt _ (by decide)⟩

/-- A number with some of its bits, from the given one on, replaced. -/
def withBits (n low width value : Nat) : Nat :=
  let step := Nat.pow 2 low
  let next := Nat.pow 2 (low + width)
  n / next * next + value * step + n % step

/-- A name made of random bits.  Six of them say that it is. -/
def ofRandom (bits : Nat) : RunId :=
  ofNat (withBits (withBits bits 76 4 4) 62 2 2)

/-! ## Writing -/

/-- The last `count` hexadecimal digits of a number. -/
def hexDigits : Nat → Nat → List Char
  | 0, _ => []
  | count + 1, n => hexDigits count (n / 16) ++ [Nat.digitChar (n % 16)]

/-- The lengths of the groups of digits but for the last. -/
def groups : List Nat :=
  [8, 4, 4, 4]

/-- Digits with a hyphen behind each group. -/
def hyphenated : List Nat → List Char → List Char
  | [], ds => ds
  | n :: rest, ds => ds.take n ++ '-' :: hyphenated rest (ds.drop n)

/-- The text of a name. -/
def text (r : RunId) : String :=
  String.ofList (hyphenated groups (hexDigits 32 r.number))

/-! ## Reading -/

/-- The value of a hexadecimal digit. -/
def digit? (c : Char) : Option Nat :=
  if c.isDigit then some (c.toNat - '0'.toNat)
  else if 'a' ≤ c && c ≤ 'f' then some (c.toNat - 'a'.toNat + 10)
  else if 'A' ≤ c && c ≤ 'F' then some (c.toNat - 'A'.toNat + 10)
  else none

/-- The name with these 32 digits. -/
def ofDigits? (ds : List Char) : Option RunId := do
  if ds.length ≠ 32 then none
  return ofNat (← ds.foldlM (fun n c => (digit? c).map (16 * n + ·)) 0)

/-- Digits without the hyphens behind their groups. -/
def unhyphenated : List Nat → List Char → Option (List Char)
  | [], cs => some cs
  | n :: rest, cs =>
    match cs.drop n with
    | '-' :: cs' => (unhyphenated rest cs').map (cs.take n ++ ·)
    | _ => none

/-- The name with these hyphenated digits. -/
def ofHyphenated? (cs : List Char) : Option RunId :=
  (unhyphenated groups cs).bind ofDigits?

/-- The scheme of a URN, in which upper and lower case are the same. -/
def scheme : List Char :=
  "urn:uuid:".toList

/-- The name that a text spells. -/
def ofString? (s : String) : Option RunId :=
  let cs := s.toList
  if cs.length = 32 then ofDigits? cs
  else if cs.length = 36 then ofHyphenated? cs
  else if cs.length = 38 && cs.head? = some '\x7b' && cs.getLast? = some '\x7d' then
    ofHyphenated? (cs.drop 1).dropLast
  else if cs.length = 45 && scheme.isPrefixOf (cs.map Char.toLower) then
    ofHyphenated? (cs.drop scheme.length)
  else none

end RunId
end TransferCost
