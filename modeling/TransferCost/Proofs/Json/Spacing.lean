import TransferCost.Proofs.Json.Number
import TransferCost.Proofs.Json.Whole

/-!
# Blanks between tokens do not matter

A blank may be put into a text, or taken out of it, wherever it stands neither inside a string nor
between two characters that belong to one word or number.  This is said here without the scanner.

## 1.  Gaps

`Side` follows a text only as far as to know whether it is inside a string, and `marks` lists the
characters that cannot belong to a word or number.  A `Gap` is a place outside of strings that has a
mark, or nothing, on one side.

## 2.  The scanner at a gap

`State.Agrees` says what a state of the scanner has to do with the side and with the last character.
Every step keeps it, as long as no flaw is met.  So at a gap the scanner stands between two tokens
or behind a number that ends there, and `scan_gap` follows.
-/

namespace TransferCost
namespace Json

/-! ## 1.  Gaps -/

/-- Where a text stands with respect to its strings. -/
inductive Side where
  | outside
  | inside
  /-- Inside a string, after a backslash. -/
  | escaped
deriving DecidableEq

/-- One more character. -/
def Side.next : Side → Char → Side
  | outside, c => if c = '"' then inside else outside
  | inside, c => if c = '"' then outside else if c = '\\' then escaped else inside
  | escaped, _ => inside

/-- The characters that belong to no word and no number. -/
def marks : List Char :=
  [' ', '\n', '\t', '\r', '[', ']', '\x7b', '\x7d', ',', ':', '"']

/-- Between the two parts of a text a blank may stand or not. -/
structure Gap (front back : List Char) : Prop where
  outside : front.foldl Side.next .outside = .outside
  apart : (∀ c ∈ front.getLast?, c ∈ marks) ∨ ∀ c ∈ back.head?, c ∈ marks

/-! ## 2.  The scanner at a gap -/

/-- The side on which a scan inside a string stands. -/
def Place.side : Place → Side
  | plain | hex _ _ _ | afterLead _ => .inside
  | escape | afterLeadEscape _ => .escaped

/-- What the state of the scanner has to do with the side and with the last character. -/
def State.Agrees : State → Side → Option Char → Prop
  | .between, side, _ => side = .outside
  | .word left _, side, last =>
    side = .outside ∧ left ≠ [] ∧ (∀ c ∈ left, c ∉ marks) ∧ ∃ c ∈ last, c ∉ marks
  | .number _ _, side, last => side = .outside ∧ ∃ c ∈ last, c ∉ marks
  | .string p _, side, _ => side = p.side
  | .halted, _, _ => False

/-- All the tokens are whole. -/
def AllWhole (ts : List Token) : Prop :=
  ∀ t ∈ ts, t.IsWhole

theorem not_isWhole_flaw (f : Flaw) : ¬ (Token.flaw f).IsWhole :=
  id

theorem not_isWhole_broken_string {ps : List Piece} (f : Flaw) :
    ¬ (Token.string ⟨ps, some f⟩).IsWhole :=
  fun h => absurd h (by simp [Token.IsWhole])

section Step

variable {c : Char} {rest : List Char}

theorem mem_marks_of_isBlank (h : isBlank c = true) : c ∈ marks := by
  unfold isBlank at h
  simp only [Bool.or_eq_true, decide_eq_true_eq] at h
  rcases h with ((rfl | rfl) | rfl) | rfl <;> decide

theorem next_outside (h : c ∉ marks) : Side.outside.next c = .outside := by
  refine if_neg ?_
  rintro rfl
  exact h (by decide)

/-- A mark ends a number. -/
theorem ends_of_mem_marks (h : c ∈ marks) :
    digitValue? c = none ∧ c ≠ '.' ∧ c ≠ 'e' ∧ c ≠ 'E' ∧ c ≠ '+' ∧ c ≠ '-' := by
  simp only [marks, List.mem_cons, List.not_mem_nil, or_false] at h
  rcases h with rfl | rfl | rfl | rfl | rfl | rfl | rfl | rfl | rfl | rfl | rfl <;> decide

theorem extend?_mark (hc : c ∈ marks) (d : Digits) (p : Partial) : d.extend? p c = none := by
  obtain ⟨hdigit, hpoint, he, hE, hplus, hminus⟩ := ends_of_mem_marks hc
  unfold Digits.extend?
  rw [hdigit]
  cases d <;> simp [hpoint, he, hE, hplus, hminus]

theorem endsNumber_of_marks (h : ∀ c ∈ rest.head?, c ∈ marks) : EndsNumber rest := by
  intro c hc
  obtain ⟨hdigit, hpoint, he, hE, -, -⟩ := ends_of_mem_marks (h c hc)
  exact ⟨hdigit, hpoint, he, hE⟩

theorem notMem_marks_of_extend? {d : Digits} {p : Partial} {answer : Digits × Partial}
    (h : d.extend? p c = some answer) : c ∉ marks := by
  intro hc
  rw [extend?_mark hc] at h
  exact absurd h (by simp)

theorem next_inside (hquote : c ≠ '"') (hback : c ≠ '\\') : Side.inside.next c = .inside := by
  rw [Side.next, if_neg hquote, if_neg hback]

/-- The first character of a token. -/
theorem agrees_begin (hwhole : AllWhole (begin c).1) :
    (begin c).2.Agrees (Side.outside.next c) (some c) := by
  unfold begin at hwhole ⊢
  by_cases hblank : isBlank c = true
  · have hquote : c ≠ '"' := by
      rintro rfl
      exact absurd hblank (by decide)
    rw [if_pos hblank]
    exact if_neg hquote
  · rw [if_neg hblank] at hwhole ⊢
    split at hwhole
    · rfl
    · rfl
    · rfl
    · rfl
    · rfl
    · rfl
    · rfl
    · exact ⟨rfl, by simp, by simp [marks], 'n', rfl, by decide⟩
    · exact ⟨rfl, by simp, by simp [marks], 't', rfl, by decide⟩
    · exact ⟨rfl, by simp, by simp [marks], 'f', rfl, by decide⟩
    · exact ⟨rfl, '-', rfl, by decide⟩
    · cases hdigit : Digits.sign.extend? {} c with
      | some answer =>
        have hmark := notMem_marks_of_extend? hdigit
        exact ⟨next_outside hmark, c, rfl, hmark⟩
      | none =>
        simp only [hdigit] at hwhole
        exact absurd (hwhole _ List.mem_cons_self) (not_isWhole_flaw _)

/-- What a move inside a string has to do with the side behind it. -/
def Move.Agrees : Move → Side → Prop
  | .go _ next, side => side = next.side
  | .close _, side => side = .outside
  | .breakOff _ _, _ => True

theorem Move.Agrees.after {m : Move} {side : Side} (h : m.Agrees side) (piece : Piece) :
    (m.after piece).Agrees side := by
  cases m <;> exact h

theorem agrees_plainMove (c : Char) : (plainMove c).Agrees (Side.inside.next c) := by
  unfold plainMove
  split_ifs with hquote hback hcontrol
  · exact if_pos hquote
  · rw [Side.next, if_neg hquote, if_pos hback]
    rfl
  · trivial
  · exact next_inside hquote hback

theorem agrees_escapeMove (c : Char) : (escapeMove c).Agrees .inside := by
  unfold escapeMove
  split <;> trivial

theorem agrees_unitMove (lead : Option ℕ) (n : ℕ) : (unitMove lead n).Agrees .inside := by
  unfold unitMove
  cases lead with
  | none => dsimp only; split_ifs <;> rfl
  | some first => dsimp only; split_ifs <;> rfl

theorem next_of_hexValue? {n : ℕ} (h : hexValue? c = some n) : Side.inside.next c = .inside := by
  have hquote : hexValue? '"' = none := by decide
  have hback : hexValue? '\\' = none := by decide
  apply next_inside
  · rintro rfl
    rw [hquote] at h
    exact absurd h (by simp)
  · rintro rfl
    rw [hback] at h
    exact absurd h (by simp)

/-- **A scan inside a string knows on which side it is.** -/
theorem agrees_move (p : Place) (c : Char) (rest : List Char) :
    (p.move c rest).Agrees (p.side.next c) := by
  cases p with
  | plain => exact agrees_plainMove c
  | escape => exact agrees_escapeMove c
  | hex lead seen value =>
    rw [Place.move]
    cases hd : hexValue? c with
    | none => trivial
    | some d =>
      have hside : (Place.hex lead seen value).side.next c = .inside := next_of_hexValue? hd
      dsimp only
      rw [hside]
      split_ifs
      · exact agrees_unitMove lead _
      · rfl
  | afterLead lead =>
    rw [Place.move]
    split_ifs with hback
    · subst hback
      rfl
    · exact (agrees_plainMove c).after .lone
  | afterLeadEscape lead =>
    rw [Place.move]
    split_ifs
    · rfl
    · exact (agrees_escapeMove c).after .lone

/-- What is behind a character matters to a flaw only. -/
theorem move_congr (p : Place) (c : Char) (rest rest' : List Char) :
    p.move c rest = p.move c rest' ∨ ∃ ps f, p.move c rest = .breakOff ps f := by
  cases p with
  | hex lead seen value =>
    unfold Place.move
    cases hexValue? c with
    | none => exact .inr ⟨_, _, rfl⟩
    | some d => exact .inl rfl
  | plain | escape | afterLead _ | afterLeadEscape _ => exact .inl rfl

variable {s : State} {side : Side} {last : Option Char}

theorem step_congr (hwhole : AllWhole (s.step c rest).1) (rest' : List Char) :
    s.step c rest = s.step c rest' := by
  cases s with
  | string p done =>
    rcases move_congr p c rest rest' with hmove | ⟨ps, f, hmove⟩
    · rw [State.step, State.step, hmove]
    · rw [State.step, hmove] at hwhole
      exact absurd (hwhole _ List.mem_cons_self) (not_isWhole_broken_string f)
  | word left t => cases left <;> rfl
  | between | number _ _ | halted => rfl

/-- **Every step without a flaw keeps the agreement.** -/
theorem State.Agrees.step (hs : s.Agrees side last) (hwhole : AllWhole (s.step c rest).1) :
    (s.step c rest).2.Agrees (side.next c) (some c) := by
  cases s with
  | between =>
    obtain rfl : side = .outside := hs
    exact agrees_begin hwhole
  | word left t =>
    obtain ⟨rfl, hleft, hplain, -⟩ := hs
    cases left with
    | nil => exact absurd rfl hleft
    | cons x left =>
      obtain ⟨hx, hrest⟩ := List.forall_mem_cons.mp hplain
      rw [State.step] at hwhole ⊢
      by_cases hc : c = x
      · subst hc
        rw [if_pos rfl]
        split_ifs with hnil
        · exact next_outside hx
        · exact ⟨next_outside hx, hnil, hrest, c, rfl, hx⟩
      · rw [if_neg hc] at hwhole
        exact absurd (hwhole _ List.mem_cons_self) (not_isWhole_flaw _)
  | number d p =>
    obtain ⟨rfl, -⟩ := hs
    rw [State.step] at hwhole ⊢
    cases hextend : d.extend? p c with
    | some answer =>
      have hmark := notMem_marks_of_extend? hextend
      exact ⟨next_outside hmark, c, rfl, hmark⟩
    | none =>
      rw [hextend] at hwhole
      dsimp only at hwhole ⊢
      split_ifs at hwhole ⊢
      · exact agrees_begin fun t ht => hwhole t (List.mem_cons_of_mem _ ht)
      · exact absurd (hwhole _ List.mem_cons_self) (not_isWhole_flaw _)
  | string p done =>
    obtain rfl : side = p.side := hs
    have hmove := agrees_move p c rest
    rw [State.step] at hwhole ⊢
    cases hm : p.move c rest with
    | go ps next =>
      rw [hm] at hmove
      exact hmove
    | close ps =>
      rw [hm] at hmove
      exact hmove
    | breakOff ps f =>
      rw [hm] at hwhole
      exact absurd (hwhole _ List.mem_cons_self) (not_isWhole_broken_string f)
  | halted => exact hs.elim

end Step

section Gaps

variable {c z : Char} {back rest : List Char}

/-- A word that is not complete cannot go on with a mark. -/
theorem not_allWhole_word {x : Char} {left : List Char} {t : Token} (hx : x ∉ marks)
    (hz : z ∈ marks) : ¬ AllWhole (scanFrom [] (.word (x :: left) t) (z :: rest)) := by
  intro h
  have hne : z ≠ x := fun heq => hx (heq ▸ hz)
  rw [scanFrom_cons, State.step, if_neg hne] at h
  exact not_isWhole_flaw _ (h _ List.mem_cons_self)

/-- A number that is not complete cannot go on with a mark. -/
theorem not_allWhole_number {d : Digits} {p : Partial} (hd : d.mayEnd = false) (hz : z ∈ marks) :
    ¬ AllWhole (scanFrom [] (.number d p) (z :: rest)) := by
  intro h
  rw [scanFrom_cons, State.step, extend?_mark hz] at h
  dsimp only at h
  rw [hd, if_neg (by simp)] at h
  exact not_isWhole_flaw _ (h _ List.mem_cons_self)

/-- What cannot go on with a mark, and cannot end either, has no gap behind it. -/
theorem not_allWhole_of_incomplete {s : State} (hnil : ¬ AllWhole (scanFrom [] s []))
    (hflaw : ∀ z ∈ marks, ∀ rest, ¬ AllWhole (scanFrom [] s (z :: rest))) (hc : c ∈ marks)
    (hback : ∀ x ∈ back.head?, x ∈ marks) :
    ¬ (AllWhole (scanFrom [] s back) ∨ AllWhole (scanFrom [] s (c :: back))) := by
  rintro (h | h)
  · cases back with
    | nil => exact hnil h
    | cons z rest => exact hflaw z (hback z rfl) rest h
  · exact hflaw c hc back h

/-- At a gap the scanner stands between tokens, or behind a number that ends there. -/
theorem scan_blank {s : State} {last : Option Char} (hc : isBlank c = true)
    (hs : s.Agrees .outside last)
    (hapart : (∀ x ∈ last, x ∈ marks) ∨ ∀ x ∈ back.head?, x ∈ marks)
    (hwhole : AllWhole (scanFrom [] s back) ∨ AllWhole (scanFrom [] s (c :: back))) :
    scanFrom [] s (c :: back) = scanFrom [] s back := by
  have hmark := mem_marks_of_isBlank hc
  cases s with
  | between => exact scanFrom_blank hc back
  | word left t =>
    obtain ⟨-, hleft, hplain, x, hx, hnot⟩ := hs
    obtain ⟨y, left, rfl⟩ := List.exists_cons_of_ne_nil hleft
    have hy := (List.forall_mem_cons.mp hplain).1
    have hback := hapart.resolve_left fun h => hnot (h x hx)
    have hnil : ¬ AllWhole (scanFrom [] (.word (y :: left) t) []) := fun h =>
      not_isWhole_flaw _ (h _ List.mem_cons_self)
    exact absurd hwhole
      (not_allWhole_of_incomplete hnil (fun _ hz _ => not_allWhole_word hy hz) hmark hback)
  | number d p =>
    obtain ⟨-, x, hx, hnot⟩ := hs
    have hback := hapart.resolve_left fun h => hnot (h x hx)
    have hend := endsNumber_of_marks hback
    have hend' : EndsNumber (c :: back) := endsNumber_of_marks (by simpa using hmark)
    cases hd : d.mayEnd with
    | true =>
      rw [scanFrom_numberEnd hd p hend, scanFrom_numberEnd hd p hend', scanFrom_blank hc]
    | false =>
      have hnil : ¬ AllWhole (scanFrom [] (.number d p) []) := by
        intro h
        rw [scanFrom, State.finish, hd] at h
        exact not_isWhole_flaw _ (h _ List.mem_cons_self)
      exact absurd hwhole
        (not_allWhole_of_incomplete hnil (fun _ hz _ => not_allWhole_number hd hz) hmark hback)
  | string p done =>
    have hside : Side.outside = p.side := hs
    exact absurd hside (by cases p <;> simp [Place.side])
  | halted => exact hs.elim

end Gaps

/-- **A blank at a gap changes no token**, if either text is without a flaw. -/
theorem scanFrom_gap {s : State} {side : Side} {last : Option Char} {c : Char}
    {front back : List Char} (hc : isBlank c = true) (hs : s.Agrees side last)
    (houtside : front.foldl Side.next side = .outside)
    (hapart : (∀ x ∈ front.getLast?.or last, x ∈ marks) ∨ ∀ x ∈ back.head?, x ∈ marks)
    (hwhole : AllWhole (scanFrom [] s (front ++ back)) ∨
      AllWhole (scanFrom [] s (front ++ c :: back))) :
    scanFrom [] s (front ++ c :: back) = scanFrom [] s (front ++ back) := by
  induction front generalizing s side last with
  | nil =>
    obtain rfl : side = .outside := houtside
    exact scan_blank hc hs hapart hwhole
  | cons x front ih =>
    have hlast : (x :: front).getLast?.or last = front.getLast?.or (some x) := by
      rw [List.getLast?_cons]
      cases front.getLast? <;> rfl
    rw [hlast] at hapart
    simp only [List.cons_append, scanFrom_cons] at hwhole ⊢
    have hsame : s.step x (front ++ back) = s.step x (front ++ c :: back) := by
      rcases hwhole with hwhole | hwhole
      · exact step_congr (fun t ht => hwhole t (List.mem_append_left _ ht)) _
      · exact (step_congr (fun t ht => hwhole t (List.mem_append_left _ ht)) _).symm
    rw [← hsame] at hwhole ⊢
    have hstep : AllWhole (s.step x (front ++ back)).1 := by
      rcases hwhole with hwhole | hwhole
      · exact fun t ht => hwhole t (List.mem_append_left _ ht)
      · exact fun t ht => hwhole t (List.mem_append_left _ ht)
    have hrest := ih (hs.step hstep) houtside hapart
      (hwhole.imp (fun h t ht => h t (List.mem_append_right _ ht))
        fun h t ht => h t (List.mem_append_right _ ht))
    rw [hrest]

/-- The same for a whole text. -/
theorem scan_gap {c : Char} {front back : List Char} (hc : isBlank c = true)
    (hgap : Gap front back) (hwhole : AllWhole (Token.scan (front ++ back)) ∨
      AllWhole (Token.scan (front ++ c :: back))) :
    Token.scan (front ++ c :: back) = Token.scan (front ++ back) := by
  have hstart : State.between.Agrees .outside none := rfl
  refine scanFrom_gap hc hstart hgap.outside ?_ hwhole
  rw [Option.or_none]
  exact hgap.apart

end Json
end TransferCost
