import TransferCost.Decimal.Basic

/-!
# The tokens of a JSON text, and what can be wrong with it

A JSON text is read in two steps.  The first, here, cuts it into tokens; the second, in
`TransferCost.Json.Reading`, builds nested values from them.  Neither step fails.  Whatever is wrong
with the text becomes a `Flaw` that stands where the reading stopped, because a reader that expects
a certain shape may find that shape violated *before* the flaw, and must report what comes first.

## Three things a token keeps although they may be wrong

* A number keeps its exact decimal value, so that "too large for a double" is decided only by a
  reader that wants the number, not by one that skips it.
* A string keeps a surrogate that stands alone as a piece of its own, for the same reason.
* A string that breaks off keeps the pieces before the break.

## The scanner

`Token.scan` is a machine that takes one character at a time.  Its states say where it stands:
between tokens, inside a word, inside a number, inside a string.  A number has no closing mark, so
the first character that cannot extend it ends it and is then looked at again as the start of what
follows.
-/

namespace TransferCost
namespace Json

/-! ## Flaws -/

/-- What may be wrong with a JSON text. -/
inductive Flaw where
  /-- The text ends where something must still follow. -/
  | textEnded
  /-- The text ends where a comma promises another member of an object. -/
  | membersCutShort
  | wordCutShort
  | numberCutShort
  | stringCutShort
  /-- A character that begins no value. -/
  | strayCharacter
  | misspeltWord
  | malformedNumber
  | malformedEscape
  | controlCharacter
  | loneSurrogate
  | valueExpected
  | keyExpected
  | colonExpected
  | separatorExpected
  | trailingComma
  | surplusText
  | numberOutOfRange
  | nestedTooDeeply
deriving DecidableEq

namespace Flaw

/-- A reader that wants the value takes this for an early end of the text. -/
def isEnd : Flaw → Bool
  | textEnded | membersCutShort | wordCutShort | numberCutShort | stringCutShort => true
  | _ => false

/-- A reader that skips the value takes this for an early end of the text.  It looks at a number
only to see where it ends, and so calls one without digits malformed wherever it breaks off. -/
def isEndWhenSkipped : Flaw → Bool
  | textEnded | membersCutShort | wordCutShort | stringCutShort => true
  | _ => false

/-- A flaw in words. -/
def message : Flaw → String
  | textEnded => "the text ends too early"
  | membersCutShort => "the text ends behind a comma"
  | wordCutShort => "the text ends inside a word"
  | numberCutShort => "the text ends inside a number"
  | stringCutShort => "the text ends inside a string"
  | strayCharacter => "expected value"
  | misspeltWord => "expected null, true or false"
  | malformedNumber => "invalid number"
  | malformedEscape => "invalid escape"
  | controlCharacter => "control character inside a string"
  | loneSurrogate => "lone surrogate in an escape"
  | valueExpected => "expected value"
  | keyExpected => "key must be a string"
  | colonExpected => "expected a colon"
  | separatorExpected => "expected a comma or the end of the list"
  | trailingComma => "trailing comma"
  | surplusText => "trailing characters"
  | numberOutOfRange => "number out of range"
  | nestedTooDeeply => "nested too deeply"

end Flaw

/-! ## Numbers and strings -/

/-- A number as it was written: its exact decimal value, and whether it was written as a whole
number, without point and without exponent. -/
structure Numeral where
  negative : Bool
  coefficient : Nat
  exponent : Int
  isWhole : Bool
deriving DecidableEq

/-- A piece of a string: a character, or an escaped surrogate without its partner. -/
inductive Piece where
  | char (c : Char)
  | lone
deriving DecidableEq

/-- The inside of a string: its pieces, and the flaw at which it breaks off. -/
structure Quoted where
  pieces : List Piece
  ending : Option Flaw
deriving DecidableEq

namespace Quoted

/-- The characters of some pieces up to an ending, or the first flaw among them. -/
def charsOf (ending : Option Flaw) : List Piece → Except Flaw (List Char)
  | [] =>
    match ending with
    | none => .ok []
    | some f => .error f
  | .char c :: rest => do return c :: (← charsOf ending rest)
  | .lone :: _ => .error .loneSurrogate

/-- The text of a string, or its first flaw. -/
def text (q : Quoted) : Except Flaw String := do
  return String.ofList (← charsOf q.ending q.pieces)

/-- A string without flaws. -/
def ofString (s : String) : Quoted :=
  ⟨s.toList.map .char, none⟩

end Quoted

/-- A token of a JSON text.  A flaw is the last token there is. -/
inductive Token where
  | openArray
  | closeArray
  | openObject
  | closeObject
  | comma
  | colon
  | null
  | bool (b : Bool)
  | number (n : Numeral)
  | string (q : Quoted)
  | flaw (f : Flaw)
deriving DecidableEq

/-! ## Inside a string -/

/-- Where a scan stands inside a string. -/
inductive Place where
  | plain
  /-- After a backslash. -/
  | escape
  /-- Inside four hexadecimal digits, of which `seen` are read with this value.  `lead` is the
  leading surrogate that stands before them. -/
  | hex (lead : Option Nat) (seen value : Nat)
  /-- After a leading surrogate. -/
  | afterLead (lead : Nat)
  /-- After a leading surrogate and a backslash. -/
  | afterLeadEscape (lead : Nat)
deriving DecidableEq

/-- What one character does to a scan inside a string. -/
inductive Move where
  | go (pieces : List Piece) (next : Place)
  | close (pieces : List Piece)
  | breakOff (pieces : List Piece) (f : Flaw)

/-- The value of a hexadecimal digit. -/
def hexValue? (c : Char) : Option Nat :=
  if '0' ≤ c ∧ c ≤ '9' then some (c.toNat - '0'.toNat)
  else if 'a' ≤ c ∧ c ≤ 'f' then some (c.toNat - 'a'.toNat + 10)
  else if 'A' ≤ c ∧ c ≤ 'F' then some (c.toNat - 'A'.toNat + 10)
  else none

/-- A character that stands for itself, or one that ends or escapes. -/
def plainMove (c : Char) : Move :=
  if c = '"' then .close []
  else if c = '\\' then .go [] .escape
  else if c.toNat < 0x20 then .breakOff [] .controlCharacter
  else .go [.char c] .plain

/-- The character after a backslash. -/
def escapeMove (c : Char) : Move :=
  match c with
  | '"' => .go [.char '"'] .plain
  | '\\' => .go [.char '\\'] .plain
  | '/' => .go [.char '/'] .plain
  | 'b' => .go [.char '\x08'] .plain
  | 'f' => .go [.char '\x0c'] .plain
  | 'n' => .go [.char '\n'] .plain
  | 'r' => .go [.char '\r'] .plain
  | 't' => .go [.char '\t'] .plain
  | 'u' => .go [] (.hex none 0 0)
  | _ => .breakOff [] .malformedEscape

/-- The first half of a surrogate pair. -/
def isLead (n : Nat) : Bool :=
  0xD800 ≤ n && n < 0xDC00

/-- The second half of a surrogate pair. -/
def isTrail (n : Nat) : Bool :=
  0xDC00 ≤ n && n < 0xE000

/-- The code unit written by four hexadecimal digits. -/
def unitMove (lead : Option Nat) (n : Nat) : Move :=
  match lead with
  | none =>
    if isLead n then .go [] (.afterLead n)
    else if isTrail n then .go [.lone] .plain
    else .go [.char (Char.ofNat n)] .plain
  | some first =>
    if isTrail n then
      .go [.char (Char.ofNat (0x10000 + (first - 0xD800) * 0x400 + (n - 0xDC00)))] .plain
    else .go [.lone] .plain

/-- The number of bytes of a text, counted no further than four. -/
def fewBytes (cs : List Char) : Nat :=
  (cs.take 4).foldl (fun n c => n + c.utf8Size) 0

/-- A piece put in front of what a move yields. -/
def Move.after (p : Piece) : Move → Move
  | .go ps next => .go (p :: ps) next
  | .close ps => .close (p :: ps)
  | .breakOff ps f => .breakOff (p :: ps) f

/-- One character inside a string.  `rest` is the text behind it, of which only the length
matters: a bad digit with fewer than four bytes left is the end of the text. -/
def Place.move (p : Place) (c : Char) (rest : List Char) : Move :=
  match p with
  | .plain => plainMove c
  | .escape => escapeMove c
  | .hex lead seen value =>
    match hexValue? c with
    | some d =>
      if seen = 3 then unitMove lead (16 * value + d)
      else .go [] (.hex lead (seen + 1) (16 * value + d))
    | none =>
      .breakOff []
        (if seen + fewBytes (c :: rest) < 4 then .stringCutShort else .malformedEscape)
  | .afterLead lead =>
    if c = '\\' then .go [] (.afterLeadEscape lead) else (plainMove c).after .lone
  | .afterLeadEscape lead =>
    if c = 'u' then .go [] (.hex (some lead) 0 0) else (escapeMove c).after .lone

/-! ## Inside a number -/

/-- Where a scan stands inside a number. -/
inductive Digits where
  /-- After the minus: a digit must follow. -/
  | sign
  /-- After a leading zero: no digit may follow. -/
  | zero
  | whole
  /-- After the point: a digit must follow. -/
  | point
  | fraction
  /-- After the `e`: a sign or a digit must follow. -/
  | mark
  /-- After the sign of the exponent: a digit must follow. -/
  | markSign
  | power
deriving DecidableEq

/-- The parts of a number read so far: the digits before and behind the point as one coefficient,
the number of those behind it, and the exponent. -/
structure Partial where
  negative : Bool := false
  coefficient : Nat := 0
  places : Nat := 0
  powerNegative : Bool := false
  power : Nat := 0
  isWhole : Bool := true
deriving DecidableEq

/-- The number that the parts spell. -/
def Partial.numeral (p : Partial) : Numeral where
  negative := p.negative
  coefficient := p.coefficient
  exponent := (if p.powerNegative then -(p.power : Int) else p.power) - p.places
  isWhole := p.isWhole

/-- A number may end here. -/
def Digits.mayEnd : Digits → Bool
  | .zero | .whole | .fraction | .power => true
  | _ => false

/-- The value of a decimal digit. -/
def digitValue? (c : Char) : Option Nat :=
  if '0' ≤ c ∧ c ≤ '9' then some (c.toNat - '0'.toNat) else none

/-- One character of a number, if it extends the number. -/
def Digits.extend? (d : Digits) (p : Partial) (c : Char) : Option (Digits × Partial) :=
  match d, digitValue? c with
  | .sign, some 0 => some (.zero, p)
  | .sign, some n => some (.whole, { p with coefficient := n })
  | .whole, some n => some (.whole, { p with coefficient := 10 * p.coefficient + n })
  | .point, some n | .fraction, some n =>
    some (.fraction, { p with coefficient := 10 * p.coefficient + n, places := p.places + 1 })
  | .mark, some n | .markSign, some n | .power, some n =>
    some (.power, { p with power := 10 * p.power + n })
  | .zero, some _ => none
  | .zero, none | .whole, none =>
    if c = '.' then some (.point, { p with isWhole := false })
    else if c = 'e' ∨ c = 'E' then some (.mark, { p with isWhole := false })
    else none
  | .fraction, none => if c = 'e' ∨ c = 'E' then some (.mark, p) else none
  | .mark, none =>
    if c = '+' then some (.markSign, p)
    else if c = '-' then some (.markSign, { p with powerNegative := true })
    else none
  | .sign, none | .point, none | .markSign, none | .power, none => none

/-! ## Between the tokens -/

/-- Where the scanner stands. -/
inductive State where
  | between
  /-- Inside a word, of which these characters are still to come. -/
  | word (left : List Char) (token : Token)
  | number (d : Digits) (p : Partial)
  /-- Inside a string, with the pieces so far in reverse. -/
  | string (p : Place) (done : List Piece)
  /-- After a flaw nothing more is read. -/
  | halted

/-- The characters that stand between tokens. -/
def isBlank (c : Char) : Bool :=
  c = ' ' || c = '\n' || c = '\t' || c = '\r'

/-- The first character of a token. -/
def begin (c : Char) : List Token × State :=
  if isBlank c then ([], .between)
  else
    match c with
    | '[' => ([.openArray], .between)
    | ']' => ([.closeArray], .between)
    | '\x7b' => ([.openObject], .between)
    | '\x7d' => ([.closeObject], .between)
    | ',' => ([.comma], .between)
    | ':' => ([.colon], .between)
    | '"' => ([], .string .plain [])
    | 'n' => ([], .word ['u', 'l', 'l'] .null)
    | 't' => ([], .word ['r', 'u', 'e'] (.bool true))
    | 'f' => ([], .word ['a', 'l', 's', 'e'] (.bool false))
    | '-' => ([], .number .sign { negative := true })
    | _ =>
      match Digits.sign.extend? {} c with
      | some (d, p) => ([], .number d p)
      | none => ([.flaw .strayCharacter], .halted)

/-- One character.  It may end a number and begin the next token, so more than one token may come of
it. -/
def State.step (s : State) (c : Char) (rest : List Char) : List Token × State :=
  match s with
  | .between => begin c
  | .word (x :: left) t =>
    if c = x then (if left = [] then ([t], .between) else ([], .word left t))
    else ([.flaw .misspeltWord], .halted)
  | .word [] t => (t :: (begin c).1, (begin c).2)
  | .number d p =>
    match d.extend? p c with
    | some (d', p') => ([], .number d' p')
    | none =>
      -- a digit after a leading zero, or a mark without the digit it needs
      if d.mayEnd ∧ (digitValue? c).isNone then (.number p.numeral :: (begin c).1, (begin c).2)
      else ([.flaw .malformedNumber], .halted)
  | .string p done =>
    match p.move c rest with
    | .go ps next => ([], .string next (ps.reverse ++ done))
    | .close ps => ([.string ⟨done.reverse ++ ps, none⟩], .between)
    | .breakOff ps f => ([.string ⟨done.reverse ++ ps, some f⟩], .halted)
  | .halted => ([], .halted)

/-- What the end of the text makes of the state. -/
def State.finish : State → List Token
  | .between | .halted => []
  | .word [] t => [t]
  | .word _ _ => [.flaw .wordCutShort]
  | .number d p => if d.mayEnd then [.number p.numeral] else [.flaw .numberCutShort]
  | .string _ done => [.string ⟨done.reverse, some .stringCutShort⟩]

/-- The tokens from a state on, put behind those found so far, which are given in reverse. -/
def scanFrom (found : List Token) : State → List Char → List Token
  | s, [] => found.reverse ++ s.finish
  | s, c :: rest => scanFrom ((s.step c rest).1.reverse ++ found) (s.step c rest).2 rest

/-- The tokens of a text. -/
def Token.scan (cs : List Char) : List Token :=
  scanFrom [] .between cs

/-- The tokens found so far only stand in front. -/
theorem scanFrom_eq_append (found : List Token) (s : State) (cs : List Char) :
    scanFrom found s cs = found.reverse ++ scanFrom [] s cs := by
  induction cs generalizing found s with
  | nil => simp [scanFrom]
  | cons c rest ih =>
    rw [scanFrom, scanFrom, ih, ih ((s.step c rest).1.reverse ++ [])]
    simp

/-- One character of a scan. -/
theorem scanFrom_cons (s : State) (c : Char) (rest : List Char) :
    scanFrom [] s (c :: rest) = (s.step c rest).1 ++ scanFrom [] (s.step c rest).2 rest := by
  rw [scanFrom, scanFrom_eq_append]
  simp

/-- **Blanks between tokens do not matter.** -/
theorem scanFrom_blank {c : Char} (h : isBlank c = true) (rest : List Char) :
    scanFrom [] .between (c :: rest) = scanFrom [] .between rest := by
  rw [scanFrom_cons]
  simp [State.step, begin, h]

end Json
end TransferCost
