import TransferCost.Markdown
import TransferCost.Proofs.Decimal
import TransferCost.Proofs.Lines

/-!
# Markdown that is read back

`Block.textOf` writes a document, and this file reads one.  The reader sees the text alone.  It cuts
the text at empty lines, tells what a block is from the beginning of its first line, and accepts no
line in it that such a block cannot have.  So nothing in a text that is read can hide in a block of
another kind.

`Block.read?_textOf` says that a written document is read as it was meant, if its blocks are made of
texts without line feeds or bars.  `Block.IsMadeOf` asks for more than that: a paragraph must not
begin like another block, and what is a list or a row must have something in it.
-/

namespace TransferCost
namespace Block

open Decimal (digits)

/-! ## Reading -/

/-- What the beginning of a line announces. -/
inductive Opening where
  | heading
  | row
  | bullet
  | number
  | prose
deriving DecidableEq

/-- What a line begins with. -/
def opening : List Char → Opening
  | [] => .prose
  | c :: rest =>
    if c = '#' then .heading
    else if c = '|' then .row
    else if c = '*' ∧ rest.head? = some ' ' then .bullet
    else if c.isDigit then .number
    else .prose

/-- What stands between the bars of a line. -/
def fieldsOf (line : List Char) : List (List Char) :=
  (line.splitOn '|').tail.dropLast

/-- The cells of a row, without the blank on either side. -/
def cellsOf (line : List Char) : List String :=
  (fieldsOf line).map fun field => String.ofList (field.drop 1).dropLast

/-- The line under a header of this width. -/
def isRule (width : ℕ) (line : List Char) : Bool :=
  (fieldsOf line).length = width && (fieldsOf line).all fun field => field.all (· = '-')

/-- The table that some lines are. -/
def tableOf? : List (List Char) → Option Block
  | header :: line :: rows =>
    if isRule (cellsOf header).length line && rows.all fun row => opening row = .row then
      some (.table ⟨cellsOf header, rows.map cellsOf⟩)
    else none
  | _ => none

/-- The heading that a line is. -/
def headingOf (line : List Char) : Block :=
  .heading (line.takeWhile (· = '#')).length (String.ofList ((line.dropWhile (· = '#')).drop 1))

/-- What stands behind a bullet. -/
def bulletOf? : List Char → Option String
  | '*' :: ' ' :: item => some (String.ofList item)
  | _ => none

/-- What stands behind a number. -/
def numberOf? (line : List Char) : Option String :=
  match line.dropWhile Char.isDigit with
  | '.' :: ' ' :: item => some (String.ofList item)
  | _ => none

/-- The block that some lines are.  A heading and a paragraph are one line. -/
def ofLines? : List (List Char) → Option Block
  | [] => none
  | first :: rest =>
    match opening first with
    | .heading => if rest = [] then some (headingOf first) else none
    | .row => tableOf? (first :: rest)
    | .bullet => .bullets <$> (first :: rest).mapM bulletOf?
    | .number => .numbered <$> (first :: rest).mapM numberOf?
    | .prose => if rest = [] then some (.paragraph (String.ofList first)) else none

/-- The blocks of a text. -/
def read? (text : String) : Option (List Block) :=
  ((Lines.linesOf text.toList).splitOn []).mapM ofLines?

/-! ## Blocks that can be read -/

/-- The text stays in its line and in its cell. -/
def IsInline (s : String) : Prop :=
  '\n' ∉ s.toList ∧ '|' ∉ s.toList

/-- The text begins like a paragraph, whatever stands behind it. -/
def StartsProse (s : String) : Prop :=
  2 ≤ s.toList.length ∧ opening s.toList = .prose

/-- There is a text, and all texts satisfy `P`. -/
def AreAll (P : String → Prop) (texts : List String) : Prop :=
  texts ≠ [] ∧ ∀ s ∈ texts, P s

/-- The block has the shape of its kind, and its texts satisfy `P`. -/
def IsMadeOf (P : String → Prop) : Block → Prop
  | heading level text => 0 < level ∧ P text
  | paragraph text => StartsProse text ∧ P text
  | table t => AreAll P t.header ∧ ∀ cells ∈ t.rows, AreAll P cells
  | bullets items => AreAll P items
  | numbered items => AreAll P items

section Monotone

variable {P Q : String → Prop} {texts : List String} {b : Block}

theorem AreAll.mono (h : AreAll P texts) (hPQ : ∀ s, P s → Q s) : AreAll Q texts :=
  ⟨h.1, fun s hs => hPQ s (h.2 s hs)⟩

theorem areAll_cons {s : String} : AreAll P (s :: texts) ↔ P s ∧ ∀ t ∈ texts, P t := by
  rw [AreAll, List.forall_mem_cons]
  exact and_iff_right (List.cons_ne_nil _ _)

theorem IsMadeOf.mono (h : b.IsMadeOf P) (hPQ : ∀ s, P s → Q s) : b.IsMadeOf Q := by
  cases b with
  | heading level text => exact ⟨h.1, hPQ text h.2⟩
  | paragraph text => exact ⟨h.1, hPQ text h.2⟩
  | table t => exact ⟨h.1.mono hPQ, fun cells hcells => (h.2 cells hcells).mono hPQ⟩
  | bullets items => exact AreAll.mono h hPQ
  | numbered items => exact AreAll.mono h hPQ

end Monotone

section Texts

variable {cs : List Char} {s t : String}

theorem IsInline.append (hs : IsInline s) (ht : IsInline t) : IsInline (s ++ t) := by
  unfold IsInline
  rw [String.toList_append, List.mem_append, List.mem_append]
  exact ⟨not_or_intro hs.1 ht.1, not_or_intro hs.2 ht.2⟩

/-- A text that is written out is looked through. -/
theorem isInline_ofList (h : '\n' ∉ cs ∧ '|' ∉ cs) : IsInline (String.ofList cs) := by
  unfold IsInline
  rwa [String.toList_ofList]

/-- Two characters decide. -/
theorem opening_append (hlength : 2 ≤ cs.length) (ds : List Char) :
    opening (cs ++ ds) = opening cs := by
  match cs with
  | c :: d :: rest => rfl

theorem startsProse_ofList (h : 2 ≤ cs.length ∧ opening cs = .prose) :
    StartsProse (String.ofList cs) := by
  unfold StartsProse
  rwa [String.toList_ofList]

theorem StartsProse.append (h : StartsProse s) (t : String) : StartsProse (s ++ t) := by
  unfold StartsProse
  rw [String.toList_append, List.length_append, opening_append h.1]
  exact ⟨h.1.trans (Nat.le_add_right _ _), h.2⟩

end Texts

/-! ## Blocks that were written -/

section Rows

variable {fields : List (List Char)} {cells : List String}

/-- The fields of a line that begins with a bar and has one behind each field. -/
theorem fieldsOf_bars (h : ∀ field ∈ fields, '|' ∉ field) :
    fieldsOf ('|' :: Lines.ended '|' fields) = fields := by
  have hsplit : ('|' :: Lines.ended '|' fields).splitOn '|' = [] :: (fields ++ [[]]) := by
    rw [← Lines.splitOn_ended h]
    exact List.splitOn_append_cons_self_of_not_mem List.not_mem_nil _
  rw [fieldsOf, hsplit, List.tail_cons, List.dropLast_concat]

/-- A cell with a blank on either side. -/
def padded (cell : String) : List Char :=
  ' ' :: cell.toList ++ [' ']

/-- A row, field by field. -/
theorem toList_row (hne : cells ≠ []) :
    (row cells).toList = '|' :: Lines.ended '|' (cells.map padded) := by
  have hcells : ' ' :: List.intercalate [' ', '|', ' '] (cells.map String.toList) ++ [' ', '|'] =
      Lines.ended '|' (cells.map padded) := by
    induction cells with
    | nil => exact absurd rfl hne
    | cons cell rest ih =>
      cases rest with
      | nil => simp [Lines.ended, padded]
      | cons next rest =>
        have hcons : Lines.ended '|' ((cell :: next :: rest).map padded) =
            padded cell ++ ['|'] ++ Lines.ended '|' ((next :: rest).map padded) :=
          List.flatMap_cons
        rw [hcons, ← ih (List.cons_ne_nil _ _), List.map_cons, List.map_cons,
          List.intercalate_cons_cons]
        simp [padded]
  simp [row, String.toList_intercalate, ← hcells]

/-- The line under a header, field by field. -/
theorem toList_rule (header : List String) : (rule header).toList =
    '|' :: Lines.ended '|' (header.map fun cell => List.replicate (cell.length + 2) '-') := by
  simp [rule, String.toList_join, Lines.ended, List.flatMap_map]

/-- **The cells of a row are found again.** -/
theorem cellsOf_row (hne : cells ≠ []) (h : ∀ cell ∈ cells, IsInline cell) :
    cellsOf (row cells).toList = cells := by
  have hfields : fieldsOf (row cells).toList = cells.map padded := by
    rw [toList_row hne, fieldsOf_bars]
    intro field hfield
    obtain ⟨cell, hcell, rfl⟩ := List.mem_map.mp hfield
    simp [padded, (h cell hcell).2]
  have hcell (cell : String) : String.ofList ((padded cell).drop 1).dropLast = cell := by
    show String.ofList (cell.toList ++ [' ']).dropLast = cell
    rw [List.dropLast_concat, String.ofList_toList]
  rw [cellsOf, hfields, List.map_map]
  exact (List.map_congr_left fun cell _ => hcell cell).trans (List.map_id cells)

theorem isRule_rule (header : List String) : isRule header.length (rule header).toList = true := by
  have hfields : fieldsOf (rule header).toList =
      header.map fun cell => List.replicate (cell.length + 2) '-' := by
    rw [toList_rule, fieldsOf_bars]
    intro field hfield
    obtain ⟨cell, -, rfl⟩ := List.mem_map.mp hfield
    intro hbar
    exact absurd (List.eq_of_mem_replicate hbar) (by decide)
  rw [isRule, hfields]
  simp

end Rows

section Written

variable {b : Block} {blocks : List Block} {items : List String} {text : String}

theorem toList_heading (level : ℕ) (text : String) :
    (marks level ++ " " ++ text).toList = List.replicate level '#' ++ ' ' :: text.toList := by
  simp [marks]

theorem ofLines?_heading {level : ℕ} (hlevel : 0 < level) :
    ofLines? ((heading level text).lines.map String.toList) = some (heading level text) := by
  have hopening : opening (List.replicate level '#' ++ ' ' :: text.toList) = .heading := by
    obtain ⟨n, rfl⟩ := Nat.exists_eq_succ_of_ne_zero hlevel.ne'
    rfl
  show ofLines? [(marks level ++ " " ++ text).toList] = _
  rw [toList_heading]
  simp only [ofLines?, hopening, if_true, headingOf]
  rw [List.takeWhile_append_of_pos (by simp), List.dropWhile_append_of_pos (by simp)]
  simp

theorem ofLines?_paragraph (h : StartsProse text) :
    ofLines? ((paragraph text).lines.map String.toList) = some (paragraph text) := by
  show ofLines? [text.toList] = _
  simp [ofLines?, h.2]

theorem ofLines?_table {t : MarkdownTable} (h : (table t).IsMadeOf IsInline) :
    ofLines? ((table t).lines.map String.toList) = some (table t) := by
  obtain ⟨⟨hne, hheader⟩, hrows⟩ := h
  have hopening {cells : List String} (hcells : cells ≠ []) :
      opening (row cells).toList = .row := by
    rw [toList_row hcells]
    rfl
  have hrule := isRule_rule t.header
  have hall : (t.rows.map (String.toList ∘ row)).all (fun line => opening line = .row) = true := by
    rw [List.all_map, List.all_eq_true]
    intro cells hcells
    exact decide_eq_true (hopening (hrows cells hcells).1)
  have hcells : (t.rows.map (String.toList ∘ row)).map cellsOf = t.rows := by
    rw [List.map_map]
    refine (List.map_congr_left fun cells hcells => ?_).trans (List.map_id t.rows)
    exact cellsOf_row (hrows cells hcells).1 (hrows cells hcells).2
  show ofLines? ((row t.header).toList :: (rule t.header).toList ::
    (t.rows.map row).map String.toList) = _
  rw [List.map_map]
  simp only [ofLines?, hopening hne, tableOf?, cellsOf_row hne hheader, hrule, hall, hcells,
    Bool.and_self, if_true]

theorem ofLines?_of_bullet {first : List Char} (h : opening first = .bullet)
    (rest : List (List Char)) :
    ofLines? (first :: rest) = bullets <$> (first :: rest).mapM bulletOf? := by
  rw [ofLines?, h]

theorem ofLines?_of_number {first : List Char} (h : opening first = .number)
    (rest : List (List Char)) :
    ofLines? (first :: rest) = numbered <$> (first :: rest).mapM numberOf? := by
  rw [ofLines?, h]

theorem ofLines?_bullets (hne : items ≠ []) :
    ofLines? ((bullets items).lines.map String.toList) = some (bullets items) := by
  have hread : ((bullets items).lines.map String.toList).mapM bulletOf? = some items := by
    have hitem (item : String) : bulletOf? ("* " ++ item).toList = some item := by
      simp [bulletOf?]
    show ((items.map ("* " ++ ·)).map String.toList).mapM bulletOf? = some items
    rw [List.mapM_map, List.mapM_map]
    exact (Lines.mapM_some fun item _ => hitem item).trans (congrArg some (List.map_id items))
  cases items with
  | nil => exact absurd rfl hne
  | cons item rest =>
    have hopening : opening ("* " ++ item).toList = .bullet := by
      simp [opening]
    exact (ofLines?_of_bullet hopening _).trans (congrArg (bullets <$> ·) hread)

/-- The text of an item with its number. -/
theorem toList_numbered (i : ℕ) (item : String) :
    (s!"{i + 1}. {item}").toList = digits (i + 1) ++ '.' :: ' ' :: item.toList := by
  have hnumber : (toString (i + 1)).toList = digits (i + 1) := String.toList_ofList
  show (toString (i + 1) ++ ". " ++ item).toList = _
  rw [String.toList_append, String.toList_append, hnumber, List.append_assoc]
  simp

theorem opening_numbered (i : ℕ) (cs : List Char) : opening (digits (i + 1) ++ cs) = .number := by
  obtain ⟨c, rest, hdigits⟩ := List.exists_cons_of_ne_nil (Decimal.digits_ne_nil (i + 1))
  have hc : c.isDigit = true :=
    Decimal.isDigit_of_mem_digits (n := i + 1) (hdigits ▸ List.mem_cons_self)
  have hne {d : Char} (hd : d.isDigit = false) : c ≠ d := by
    rintro rfl
    exact absurd (hc.symm.trans hd) (by decide)
  rw [hdigits]
  simp [opening, hne (d := '#') rfl, hne (d := '|') rfl, hne (d := '*') rfl, hc]

theorem mapM_mapIdx {α β : Type} {f : β → Option α} {g : ℕ → α → β}
    (h : ∀ i a, f (g i a) = some a) (as : List α) : (as.mapIdx g).mapM f = some as := by
  induction as generalizing g with
  | nil => rfl
  | cons a rest ih =>
    rw [List.mapIdx_cons, List.mapM_cons, h, ih fun i a => h (i + 1) a]
    rfl

theorem ofLines?_numbered (hne : items ≠ []) :
    ofLines? ((numbered items).lines.map String.toList) = some (numbered items) := by
  have hitem (i : ℕ) (item : String) : numberOf? (s!"{i + 1}. {item}").toList = some item := by
    rw [toList_numbered, numberOf?, List.dropWhile_append_of_pos fun c hc =>
      Decimal.isDigit_of_mem_digits hc]
    simp
  have hread : ((numbered items).lines.map String.toList).mapM numberOf? = some items := by
    rw [List.mapM_map]
    exact mapM_mapIdx (f := numberOf? ∘ String.toList) hitem items
  cases items with
  | nil => exact absurd rfl hne
  | cons item rest =>
    have hopening : opening (s!"{0 + 1}. {item}").toList = .number := by
      rw [toList_numbered, opening_numbered]
    have hlines : ∃ more, (numbered (item :: rest)).lines.map String.toList =
        (s!"{0 + 1}. {item}").toList :: more :=
      ⟨_, by rw [lines, List.mapIdx_cons, List.map_cons]⟩
    obtain ⟨more, hmore⟩ := hlines
    rw [hmore] at hread ⊢
    rw [ofLines?_of_number hopening, hread]
    rfl

/-- **A block is read as it was written.** -/
theorem ofLines?_lines (h : b.IsMadeOf IsInline) :
    ofLines? (b.lines.map String.toList) = some b := by
  cases b with
  | heading level text => exact ofLines?_heading h.1
  | paragraph text => exact ofLines?_paragraph h.1
  | table t => exact ofLines?_table h
  | bullets items => exact ofLines?_bullets h.1
  | numbered items => exact ofLines?_numbered h.1

/-! ## Documents that were written -/

theorem feed_not_mem_ended {parts : List (List Char)} (h : ∀ part ∈ parts, '\n' ∉ part) :
    '\n' ∉ '|' :: Lines.ended '|' parts := by
  simp only [Lines.ended, List.mem_cons, List.mem_flatMap, List.mem_append, List.not_mem_nil,
    or_false, not_or, not_exists, not_and]
  exact ⟨by decide, fun part hpart => ⟨h part hpart, by decide⟩⟩

/-- A row is a line of its own. -/
theorem row_spec {cells : List String} (hne : cells ≠ []) (h : ∀ cell ∈ cells, IsInline cell) :
    (row cells).toList ≠ [] ∧ '\n' ∉ (row cells).toList := by
  rw [toList_row hne]
  refine ⟨List.cons_ne_nil _ _, feed_not_mem_ended ?_⟩
  intro part hpart
  obtain ⟨cell, hcell, rfl⟩ := List.mem_map.mp hpart
  simp [padded, (h cell hcell).1]

theorem rule_spec (header : List String) :
    (rule header).toList ≠ [] ∧ '\n' ∉ (rule header).toList := by
  rw [toList_rule]
  refine ⟨List.cons_ne_nil _ _, feed_not_mem_ended ?_⟩
  intro part hpart hfeed
  obtain ⟨cell, -, rfl⟩ := List.mem_map.mp hpart
  exact absurd (List.eq_of_mem_replicate hfeed) (by decide)

/-- A block has lines, and none of them is empty or goes on in the next one. -/
theorem lines_spec (h : b.IsMadeOf IsInline) :
    b.lines ≠ [] ∧ ∀ line ∈ b.lines, line.toList ≠ [] ∧ '\n' ∉ line.toList := by
  cases b with
  | heading level text =>
    refine ⟨List.cons_ne_nil _ _, List.forall_mem_singleton.mpr ?_⟩
    simp [marks, h.2.1]
  | paragraph text =>
    refine ⟨List.cons_ne_nil _ _, List.forall_mem_singleton.mpr ⟨?_, h.2.1⟩⟩
    exact List.ne_nil_of_length_pos (by have := h.1.1; omega)
  | table t =>
    obtain ⟨⟨hne, hheader⟩, hrows⟩ := h
    refine ⟨List.cons_ne_nil _ _, List.forall_mem_cons.mpr ⟨row_spec hne hheader,
      List.forall_mem_cons.mpr ⟨rule_spec t.header, List.forall_mem_map.mpr ?_⟩⟩⟩
    exact fun cells hcells => row_spec (hrows cells hcells).1 (hrows cells hcells).2
  | bullets items =>
    refine ⟨by simpa [lines] using h.1, List.forall_mem_map.mpr fun item hitem => ?_⟩
    simp [(h.2 item hitem).1]
  | numbered items =>
    refine ⟨by simpa [lines] using h.1, fun line hline => ?_⟩
    obtain ⟨i, hi, rfl⟩ := List.mem_mapIdx.mp hline
    rw [toList_numbered]
    refine ⟨by simp, ?_⟩
    simp only [List.mem_append, List.mem_cons, not_or]
    refine ⟨fun hdigit => ?_, by decide, by decide, (h.2 _ (List.getElem_mem hi)).1⟩
    exact absurd (Decimal.isDigit_of_mem_digits hdigit) (by decide)

/-- A line of a document is empty or belongs to a block. -/
theorem mem_linesOf {line : String} (h : line ∈ linesOf blocks) :
    line = "" ∨ ∃ b ∈ blocks, line ∈ b.lines := by
  induction blocks using linesOf.induct with
  | case1 => exact absurd h List.not_mem_nil
  | case2 b => exact .inr ⟨b, List.mem_singleton_self b, h⟩
  | case3 b rest hrest ih =>
    rw [linesOf.eq_3 _ _ hrest, List.mem_append, List.mem_cons] at h
    rcases h with h | rfl | h
    · exact .inr ⟨b, List.mem_cons_self, h⟩
    · exact .inl rfl
    · refine (ih h).imp_right ?_
      rintro ⟨b', hb', hline⟩
      exact ⟨b', List.mem_cons_of_mem b hb', hline⟩

/-- An empty line stands between two blocks. -/
theorem map_toList_linesOf (blocks : List Block) : (linesOf blocks).map String.toList =
    List.intercalate [[]] (blocks.map fun b => b.lines.map String.toList) := by
  induction blocks using linesOf.induct with
  | case1 => rfl
  | case2 b => simp [linesOf]
  | case3 b rest hrest ih =>
    have hne : rest.map (fun b => b.lines.map String.toList) ≠ [] := by
      rw [ne_eq, List.map_eq_nil_iff]
      exact hrest
    rw [linesOf.eq_3 _ _ hrest, List.map_append, List.map_cons, ih, List.map_cons,
      List.intercalate_cons_of_ne_nil hne]
    simp

/-- **A document is read as it was written.** -/
theorem read?_textOf (hne : blocks ≠ []) (h : ∀ b ∈ blocks, b.IsMadeOf IsInline) :
    read? (textOf blocks) = some blocks := by
  have htext : (textOf blocks).toList = Lines.ended '\n' ((linesOf blocks).map String.toList) := by
    simp [textOf, String.toList_join, Lines.ended, List.flatMap_map]
  have hlines : Lines.linesOf (textOf blocks).toList = (linesOf blocks).map String.toList := by
    rw [htext]
    refine Lines.linesOf_ended (List.forall_mem_map.mpr fun line hline => ?_)
    rcases mem_linesOf hline with rfl | ⟨b, hb, hline⟩
    · exact List.not_mem_nil
    · exact ((lines_spec (h b hb)).2 line hline).2
  have hblocks : ((linesOf blocks).map String.toList).splitOn [] =
      blocks.map fun b => b.lines.map String.toList := by
    rw [map_toList_linesOf]
    refine List.splitOn_intercalate [] (List.forall_mem_map.mpr fun b hb hnil => ?_) (by simpa)
    obtain ⟨line, hline, hempty⟩ := List.mem_map.mp hnil
    exact ((lines_spec (h b hb)).2 line hline).1 hempty
  rw [read?, hlines, hblocks, List.mapM_map]
  exact (Lines.mapM_some fun b hb => ofLines?_lines (h b hb)).trans (congrArg some (List.map_id _))

end Written

end Block
end TransferCost
