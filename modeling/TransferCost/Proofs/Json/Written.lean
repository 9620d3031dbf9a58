import TransferCost.Proofs.Json.Number

/-!
# A written document is read back

Every document, written with one value a line, is read as a tree without flaws, and this tree is the
document again.  Only its numbers have become decimals, and a quantity that is no finite number has
become a `null`.

## 1.  The tokens

`Json.tokens` are the tokens of a document.  `scanFrom_prettyAt` says that the scanner finds them.
What stands behind a value matters to the scanner, since a number has no closing mark.  So each
statement is about a document *in front of further text*, and that text must end a number.

## 2.  The tree

`Json.reading` is the tree of a document.  `grow_tokens` says that the builder makes it of the
tokens, inside any arrays and objects that are still open.

The three inductions of each part run over documents, over the further items of an array, and over
the further members of an object.
-/

namespace TransferCost
namespace Json

open Decimal (digits)

/-! ## 1.  The tokens -/

mutual

/-- The tokens of a document. -/
def tokens : Json → List Token
  | .null => [.null]
  | .bool b => [.bool b]
  | .count n => [.number ⟨false, n, 0, true⟩]
  | .real x => [quantityToken x]
  | .text s => [.string (.ofString s)]
  | .array [] => [.openArray, .closeArray]
  | .array (v :: rest) => .openArray :: (tokens v ++ itemTokens rest)
  | .object [] => [.openObject, .closeObject]
  | .object ((k, v) :: rest) =>
    .openObject :: .string (.ofString k) :: .colon :: (tokens v ++ memberTokens rest)

/-- The tokens of the further items of an array, and of its end. -/
def itemTokens : List Json → List Token
  | [] => [.closeArray]
  | v :: rest => .comma :: (tokens v ++ itemTokens rest)

/-- The tokens of the further members of an object, and of its end. -/
def memberTokens : List (String × Json) → List Token
  | [] => [.closeObject]
  | (k, v) :: rest =>
    .comma :: .string (.ofString k) :: .colon :: (tokens v ++ memberTokens rest)

end

section Scan

variable {c : Char} {rest : List Char}

theorem scanFrom_token {t : Token} (h : begin c = ([t], .between)) (rest : List Char) :
    scanFrom [] .between (c :: rest) = t :: scanFrom [] .between rest := by
  rw [scanFrom_cons, State.step, h, List.singleton_append]

theorem scanFrom_newline (level : ℕ) (rest : List Char) :
    scanFrom [] .between (newline level ++ rest) = scanFrom [] .between rest := by
  have hblanks (n : ℕ) :
      scanFrom [] .between (List.replicate n ' ' ++ rest) = scanFrom [] .between rest := by
    induction n with
    | zero => rfl
    | succ n ih => rw [List.replicate_succ, List.cons_append, scanFrom_blank rfl, ih]
  rw [newline, List.cons_append, scanFrom_blank rfl, hblanks]

theorem scanFrom_bool (b : Bool) (rest : List Char) :
    scanFrom [] .between (boolChars b ++ rest) = .bool b :: scanFrom [] .between rest := by
  cases b <;> simp [boolChars, scanFrom_cons, State.step, begin, isBlank]

/-! ### Strings -/

theorem scanFrom_go {place next : Place} {ps : List Piece} (h : place.move c rest = .go ps next)
    (done : List Piece) : scanFrom [] (.string place done) (c :: rest) =
      scanFrom [] (.string next (ps.reverse ++ done)) rest := by
  rw [scanFrom_cons, State.step, h, List.nil_append]

theorem hexValue?_digitChar : ∀ n < 16, hexValue? (Nat.digitChar n) = some n := by
  decide

/-- A control character is escaped by its number. -/
theorem scanFrom_control (hc : c.toNat < 0x20) (done : List Piece) (rest : List Char) :
    scanFrom [] (.string .plain done) (['\\', 'u', '0', '0'] ++ hexPair c.toNat ++ rest) =
      scanFrom [] (.string .plain (.char c :: done)) rest := by
  have hhigh := hexValue?_digitChar (c.toNat / 16) (by omega)
  have hlow := hexValue?_digitChar (c.toNat % 16) (by omega)
  have hnumber : 16 * (16 * 0 + c.toNat / 16) + c.toNat % 16 = c.toNat := by omega
  have hlead : isLead c.toNat = false := by
    rw [isLead, Bool.and_eq_false_iff, decide_eq_false_iff_not]
    omega
  have htrail : isTrail c.toNat = false := by
    rw [isTrail, Bool.and_eq_false_iff, decide_eq_false_iff_not]
    omega
  have hfirst (cs : List Char) : (Place.hex none 0 0).move '0' cs = .go [] (.hex none 1 0) := rfl
  have hsecond (cs : List Char) : (Place.hex none 1 0).move '0' cs = .go [] (.hex none 2 0) := rfl
  have hthird (cs : List Char) : (Place.hex none 2 0).move (Nat.digitChar (c.toNat / 16)) cs =
      .go [] (.hex none 3 (16 * 0 + c.toNat / 16)) := by
    rw [Place.move, hhigh]
    rfl
  have hfourth (cs : List Char) :
      (Place.hex none 3 (16 * 0 + c.toNat / 16)).move (Nat.digitChar (c.toNat % 16)) cs =
        .go [.char c] .plain := by
    rw [Place.move, hlow]
    show unitMove none _ = _
    rw [hnumber, unitMove, hlead, htrail, Char.ofNat_toNat]
    rfl
  show scanFrom [] _ ('\\' :: 'u' :: '0' :: '0' :: Nat.digitChar _ :: Nat.digitChar _ :: rest) = _
  rw [scanFrom_go rfl, scanFrom_go rfl, scanFrom_go (hfirst _), scanFrom_go (hsecond _),
    scanFrom_go (hthird _), scanFrom_go (hfourth _)]
  rfl

/-- **Every character is read back from its escape.** -/
theorem scanFrom_escape (c : Char) (done : List Piece) (rest : List Char) :
    scanFrom [] (.string .plain done) (escape c ++ rest) =
      scanFrom [] (.string .plain (.char c :: done)) rest := by
  unfold escape
  split_ifs with hquote hback hb hf hn hr ht hcontrol
  · subst hquote
    rfl
  · subst hback
    rfl
  · subst hb
    rfl
  · subst hf
    rfl
  · subst hn
    rfl
  · subst hr
    rfl
  · subst ht
    rfl
  · exact scanFrom_control hcontrol done rest
  · have hmove : Place.plain.move c rest = .go [.char c] .plain := by
      rw [Place.move, plainMove, if_neg hquote, if_neg hback, if_neg hcontrol]
    rw [List.singleton_append, scanFrom_go hmove]
    rfl

theorem scanFrom_escapes (cs : List Char) (done : List Piece) (rest : List Char) :
    scanFrom [] (.string .plain done) (cs.flatMap escape ++ '"' :: rest) =
      .string ⟨done.reverse ++ cs.map .char, none⟩ :: scanFrom [] .between rest := by
  induction cs generalizing done with
  | nil =>
    show scanFrom [] _ ('"' :: rest) = _
    rw [scanFrom_cons]
    rfl
  | cons c cs ih =>
    rw [List.flatMap_cons, List.append_assoc, scanFrom_escape, ih, List.reverse_cons,
      List.append_assoc, List.map_cons, List.singleton_append]

/-- A string between quotes. -/
theorem scanFrom_quote (s : String) (rest : List Char) :
    scanFrom [] .between (quote s ++ rest) =
      .string (.ofString s) :: scanFrom [] .between rest := by
  show scanFrom [] _ ('"' :: (s.toList.flatMap escape ++ ['"']) ++ rest) = _
  rw [List.cons_append, List.append_assoc, scanFrom_cons]
  exact scanFrom_escapes s.toList [] rest

end Scan

/-! ### Arrays and objects -/

theorem endsNumber_newline (level : ℕ) (rest : List Char) : EndsNumber (newline level ++ rest) :=
  endsNumber_cons (by decide) _

theorem endsNumber_prettyItems (level : ℕ) (vs : List Json) (rest : List Char) :
    EndsNumber (prettyItems level vs ++ rest) := by
  cases vs with
  | nil =>
    rw [prettyItems, List.append_assoc]
    exact endsNumber_newline level _
  | cons v vs =>
    rw [prettyItems]
    exact endsNumber_cons (by decide) _

theorem endsNumber_prettyMembers (level : ℕ) (ms : List (String × Json)) (rest : List Char) :
    EndsNumber (prettyMembers level ms ++ rest) := by
  cases ms with
  | nil =>
    rw [prettyMembers, List.append_assoc]
    exact endsNumber_newline level _
  | cons m ms =>
    rw [prettyMembers]
    exact endsNumber_cons (by decide) _

mutual

/-- **The scanner finds the tokens of a document** in front of any text that ends a number. -/
theorem scanFrom_prettyAt : ∀ (v : Json) (level : ℕ) {rest : List Char}, EndsNumber rest →
    scanFrom [] .between (v.prettyAt level ++ rest) = v.tokens ++ scanFrom [] .between rest
  | .null, level, rest, _ => by
    rw [prettyAt, tokens]
    exact scanFrom_null rest
  | .bool b, level, rest, _ => by
    rw [prettyAt, tokens]
    exact scanFrom_bool b rest
  | .count n, level, rest, hrest => by
    rw [prettyAt, tokens]
    exact scanFrom_count n hrest
  | .real x, level, rest, hrest => by
    rw [prettyAt, tokens]
    exact scanFrom_quantity x hrest
  | .text s, level, rest, _ => by
    rw [prettyAt, tokens]
    exact scanFrom_quote s rest
  | .array [], level, rest, _ => by
    rw [prettyAt, tokens]
    show scanFrom [] .between ('[' :: ']' :: rest) = _
    rw [scanFrom_token rfl, scanFrom_token rfl]
    rfl
  | .array (v :: vs), level, rest, _ => by
    have hv := scanFrom_prettyAt v (level + 1) (endsNumber_prettyItems level vs rest)
    rw [prettyAt, tokens]
    simp only [List.cons_append, List.append_assoc]
    rw [scanFrom_token rfl, scanFrom_newline, hv, scanFrom_prettyItems vs level rest]
  | .object [], level, rest, _ => by
    rw [prettyAt, tokens]
    show scanFrom [] .between ('\x7b' :: '\x7d' :: rest) = _
    rw [scanFrom_token rfl, scanFrom_token rfl]
    rfl
  | .object ((k, v) :: ms), level, rest, _ => by
    have hv := scanFrom_prettyAt v (level + 1) (endsNumber_prettyMembers level ms rest)
    rw [prettyAt, tokens]
    simp only [List.cons_append, List.append_assoc]
    rw [scanFrom_token rfl, scanFrom_newline, scanFrom_quote, scanFrom_token rfl,
      scanFrom_blank rfl, hv, scanFrom_prettyMembers ms level rest]

theorem scanFrom_prettyItems : ∀ (vs : List Json) (level : ℕ) (rest : List Char),
    scanFrom [] .between (prettyItems level vs ++ rest) =
      itemTokens vs ++ scanFrom [] .between rest
  | [], level, rest => by
    rw [prettyItems, itemTokens, List.append_assoc, scanFrom_newline]
    exact scanFrom_token rfl rest
  | v :: vs, level, rest => by
    have hv := scanFrom_prettyAt v (level + 1) (endsNumber_prettyItems level vs rest)
    rw [prettyItems, itemTokens]
    simp only [List.cons_append, List.append_assoc]
    rw [scanFrom_token rfl, scanFrom_newline, hv, scanFrom_prettyItems vs level rest]

theorem scanFrom_prettyMembers : ∀ (ms : List (String × Json)) (level : ℕ) (rest : List Char),
    scanFrom [] .between (prettyMembers level ms ++ rest) =
      memberTokens ms ++ scanFrom [] .between rest
  | [], level, rest => by
    rw [prettyMembers, memberTokens, List.append_assoc, scanFrom_newline]
    exact scanFrom_token rfl rest
  | (k, v) :: ms, level, rest => by
    have hv := scanFrom_prettyAt v (level + 1) (endsNumber_prettyMembers level ms rest)
    rw [prettyMembers, memberTokens]
    simp only [List.cons_append, List.append_assoc]
    rw [scanFrom_token rfl, scanFrom_newline, scanFrom_quote, scanFrom_token rfl,
      scanFrom_blank rfl, hv, scanFrom_prettyMembers ms level rest]

end

/-! ## 2.  The tree -/

/-- The reading of a quantity. -/
def quantityReading (x : Float) : Reading :=
  match numeral? x with
  | some n => .number n
  | none => .null

mutual

/-- The tree of a document. -/
def reading : Json → Reading
  | .null => .null
  | .bool b => .bool b
  | .count n => .number ⟨false, n, 0, true⟩
  | .real x => quantityReading x
  | .text s => .text (.ofString s)
  | .array vs => .array (itemReadings vs) none
  | .object ms => .object (memberReadings ms) none

/-- The trees of the items of an array. -/
def itemReadings : List Json → List Reading
  | [] => []
  | v :: vs => reading v :: itemReadings vs

/-- The trees of the members of an object. -/
def memberReadings : List (String × Json) → List (Quoted × Reading)
  | [] => []
  | (k, v) :: ms => (.ofString k, reading v) :: memberReadings ms

end

section Grow

variable {site next : Site} {t : Token}

theorem grow_cons (h : site.step t = .ok next) (ts : List Token) :
    grow site (t :: ts) = grow next ts := by
  have hopen : ∀ v, site = .after v [] → False := by
    rintro v rfl
    exact absurd h (by simp [Site.step])
  rw [grow, h]
  exact hopen

/-- No value begins with the end of an array. -/
theorem exists_tokens (v : Json) : ∃ t ts, v.tokens = t :: ts ∧ t ≠ .closeArray := by
  match v with
  | .null => exact ⟨_, _, by rw [tokens], by simp⟩
  | .bool b => exact ⟨_, _, by rw [tokens], by simp⟩
  | .count n => exact ⟨_, _, by rw [tokens], by simp⟩
  | .real x =>
    refine ⟨_, _, by rw [tokens], ?_⟩
    unfold quantityToken
    cases numeral? x <;> simp
  | .text s => exact ⟨_, _, by rw [tokens], by simp⟩
  | .array [] => exact ⟨_, _, by rw [tokens], by simp⟩
  | .array (_ :: _) => exact ⟨_, _, by rw [tokens], by simp⟩
  | .object [] => exact ⟨_, _, by rw [tokens], by simp⟩
  | .object ((_, _) :: _) => exact ⟨_, _, by rw [tokens], by simp⟩

/-- The first item of an array is read like any other value. -/
theorem grow_firstItem (v : Json) (outer : List Frame) (ts : List Token) :
    grow (.firstItem outer) (v.tokens ++ ts) =
      grow (.value (.array [] :: outer)) (v.tokens ++ ts) := by
  obtain ⟨t, ts', htokens, ht⟩ := exists_tokens v
  rw [htokens, List.cons_append, grow, grow, Site.step, Site.step, if_neg ht]
  all_goals exact fun _ h => Site.noConfusion h

theorem grow_quantity (x : Float) (outer : List Frame) (ts : List Token) :
    grow (.value outer) (quantityToken x :: ts) = grow (.after (quantityReading x) outer) ts := by
  unfold quantityToken quantityReading
  cases numeral? x with
  | none => exact grow_cons rfl ts
  | some n => exact grow_cons rfl ts

mutual

/-- **The builder makes the tree of a document**, inside whatever is still open. -/
theorem grow_tokens : ∀ (v : Json) (outer : List Frame) (ts : List Token),
    grow (.value outer) (v.tokens ++ ts) = grow (.after v.reading outer) ts
  | .null, outer, ts => by
    rw [tokens, reading]
    exact grow_cons rfl ts
  | .bool b, outer, ts => by
    rw [tokens, reading]
    exact grow_cons rfl ts
  | .count n, outer, ts => by
    rw [tokens, reading]
    exact grow_cons rfl ts
  | .real x, outer, ts => by
    rw [tokens, reading]
    exact grow_quantity x outer ts
  | .text s, outer, ts => by
    rw [tokens, reading]
    exact grow_cons rfl ts
  | .array [], outer, ts => by
    rw [tokens, reading, itemReadings]
    exact (grow_cons rfl _).trans (grow_cons rfl ts)
  | .array (v :: vs), outer, ts => by
    rw [tokens, reading, itemReadings, List.cons_append, List.append_assoc, grow_cons rfl,
      grow_firstItem, grow_tokens v (.array [] :: outer), grow_itemTokens vs v.reading [] outer ts]
    rfl
  | .object [], outer, ts => by
    rw [tokens, reading, memberReadings]
    exact (grow_cons rfl _).trans (grow_cons rfl ts)
  | .object ((k, v) :: ms), outer, ts => by
    rw [tokens, reading, memberReadings]
    simp only [List.cons_append, List.append_assoc]
    rw [grow_cons rfl, grow_cons rfl, grow_cons rfl,
      grow_tokens v (.object [] (.ofString k) :: outer),
      grow_memberTokens ms v.reading [] (.ofString k) outer ts]
    rfl

theorem grow_itemTokens : ∀ (vs : List Json) (w : Reading) (done : List Reading)
    (outer : List Frame) (ts : List Token),
    grow (.after w (.array done :: outer)) (itemTokens vs ++ ts) =
      grow (.after (.array ((w :: done).reverse ++ itemReadings vs) none) outer) ts
  | [], w, done, outer, ts => by
    rw [itemTokens, itemReadings, List.append_nil]
    exact grow_cons rfl ts
  | v :: vs, w, done, outer, ts => by
    rw [itemTokens, itemReadings, List.cons_append, List.append_assoc, grow_cons rfl,
      grow_tokens v (.array (w :: done) :: outer),
      grow_itemTokens vs v.reading (w :: done) outer ts, List.reverse_cons, List.append_assoc]
    rfl

theorem grow_memberTokens : ∀ (ms : List (String × Json)) (w : Reading)
    (done : List (Quoted × Reading)) (key : Quoted) (outer : List Frame) (ts : List Token),
    grow (.after w (.object done key :: outer)) (memberTokens ms ++ ts) =
      grow (.after (.object (((key, w) :: done).reverse ++ memberReadings ms) none) outer) ts
  | [], w, done, key, outer, ts => by
    rw [memberTokens, memberReadings, List.append_nil]
    exact grow_cons rfl ts
  | (k, v) :: ms, w, done, key, outer, ts => by
    rw [memberTokens, memberReadings]
    simp only [List.cons_append, List.append_assoc]
    rw [grow_cons rfl, grow_cons rfl, grow_cons rfl,
      grow_tokens v (.object ((key, w) :: done) (.ofString k) :: outer),
      grow_memberTokens ms v.reading ((key, w) :: done) (.ofString k) outer ts,
      List.reverse_cons, List.append_assoc]
    rfl

end

end Grow

/-- **A written document is read as the tree of the document**, and nothing stands behind it. -/
theorem ofString_prettyText (v : Json) : Reading.ofString v.prettyText = (v.reading, false) := by
  have hscan := scanFrom_prettyAt v 0 endsNumber_nil
  have hgrow := grow_tokens v [] []
  have hend : scanFrom [] .between [] = [] := rfl
  have hdone : grow (.after v.reading []) [] = (v.reading, []) := rfl
  rw [hend, List.append_nil, List.append_nil] at hscan
  rw [List.append_nil, hdone] at hgrow
  rw [Reading.ofString, Reading.ofTokens, prettyText, String.toList_ofList, Token.scan, hscan,
    hgrow]
  rfl

end Json
end TransferCost
