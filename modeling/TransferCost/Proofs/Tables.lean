import TransferCost.Proofs.Created
import TransferCost.Proofs.Json.Number
import TransferCost.Proofs.Lines

/-!
# Tables that are read back

The two tables of an analysis are meant for other programs, which see their text alone.  This file
reads such a text as those programs do: lines end in a line feed, fields stand between commas, the
first line names the columns, and a field is found by the name of its column.

## 1.  Fields

`Cell.readReal?` reads the number in a field.  The numbers of tables are those of JSON but for the
sign of an exponent, and three words for what is no finite number.  Every double is read back
(`Cell.readReal?_chars`), and no number has a comma or a line feed in it.

## 2.  Records

`Table.records?` takes a text apart into the rows below the header.  It fails for rows that are not
as wide as the header.  `Table.records?_text` says that it undoes `Table.text`.

## 3.  The two tables

A row of the scaling curve is read as a point of the curve, and a row of the kinds of cost as a
`KindRecord`.  Where the reduction has no value, the field is empty, and only there.

## 4.  Files

`Table.charted_of_write` is about the files that a successful export leaves behind.
-/

namespace TransferCost

open Files (FileTree)

/-! ## 1.  Fields -/

namespace Json

/-- A character that extends no number stands in no part of one. -/
theorem Digits.not_mem_of_extendAll? {c : Char} {cs : List Char} {d d' : Digits} {p p' : Partial}
    (hc : ∀ (d : Digits) (p : Partial), d.extend? p c = none)
    (h : d.extendAll? p cs = some (d', p')) : c ∉ cs := by
  induction cs generalizing d p with
  | nil => exact List.not_mem_nil
  | cons first rest ih =>
    obtain ⟨d₁, p₁, hfirst, hrest⟩ := extend?_of_extendAll?_cons h
    rw [List.mem_cons, not_or]
    refine ⟨?_, ih hrest⟩
    rintro rfl
    rw [hc d p] at hfirst
    exact absurd hfirst nofun

theorem Spells.not_mem {c : Char} {cs : List Char} {n : Numeral} (h : Spells cs n)
    (hc : ∀ (d : Digits) (p : Partial), d.extend? p c = none) : c ∉ cs := by
  obtain ⟨d, p, hcs, -⟩ := h
  exact Digits.not_mem_of_extendAll? hc hcs

/-- A spelled number is the only token of its text. -/
theorem scan_spelled {cs : List Char} {n : Numeral} (h : Spells cs n) :
    Token.scan (Decimal.Layout.sign n.negative ++ cs) = [.number n] := by
  have hscan := scanFrom_spelled h endsNumber_nil
  rw [List.append_nil] at hscan
  exact hscan

end Json

namespace Cell

open Binary64 (value value_injective)
open Decimal.Layout (sign leadingExponent)

@[simp] theorem chars_text (s : String) : (text s).chars = s.toList := rfl

@[simp] theorem chars_real (x : Float) : (real x).chars = numberLayout.chars x := rfl

/-- The number in a field. -/
def readReal? (cs : List Char) : Option Float :=
  if cs = ['N', 'a', 'N'] then some (0.0 / 0.0)
  else if cs = ['i', 'n', 'f'] then some (1.0 / 0.0)
  else if cs = ['-', 'i', 'n', 'f'] then some (-1.0 / 0.0)
  else
    match Json.Token.scan cs with
    | [.number n] => n.toFloat?
    | _ => none

/-- A decimal in a table is the number that it is in JSON, although its exponent may be written
differently. -/
theorem spells_magnitude (negative : Bool) {d : Decimal} (hd : d.coefficient ≠ 0 ∨ d = ⟨0, 0⟩) :
    Json.Spells (numberLayout.magnitude d) (Json.readBack negative d) := by
  by_cases hpositional : Json.numberLayout.isPositional (leadingExponent d) = true
  · have hsame : numberLayout.magnitude d = Json.numberLayout.magnitude d := by
      unfold Decimal.Layout.magnitude
      rw [if_pos hpositional]
      exact if_pos hpositional
    rw [hsame]
    exact Json.spells_magnitude negative hd
  · have hnonzero : d.coefficient ≠ 0 := by
      rcases hd with hd | rfl
      · exact hd
      · exact absurd rfl hpositional
    have hscientific : numberLayout.magnitude d = numberLayout.scientific d := if_neg hpositional
    rw [hscientific, Json.readBack, if_neg fun h => hpositional h.1]
    exact Json.spells_scientific negative numberLayout hnonzero

/-- What a finite number is written as, and read as. -/
theorem exists_spelled {x : Float} (hx : x.isFinite = true) :
    ∃ (n : Json.Numeral) (cs : List Char), numberLayout.chars x = sign n.negative ++ cs ∧
      Json.Spells cs n ∧ n.toFloat? = some x := by
  obtain ⟨negative, m, q, hvalue⟩ := Binary64.isFinite_iff.mp hx
  obtain ⟨n, hn, hread⟩ := Json.exists_numeral? hx
  rw [Json.numeral?, hvalue, Option.some.injEq] at hn
  subst hn
  refine ⟨_, numberLayout.magnitude (Decimal.unsigned numberLayout.tie x negative m q), ?_,
    spells_magnitude negative (Decimal.unsigned_normal _ hvalue), hread⟩
  rw [Json.negative_readBack, Decimal.Layout.chars, hvalue]
  rfl

/-- How a number is written that is not finite. -/
theorem chars_cases (x : Float) : x.isFinite = true ∨
    (numberLayout.chars x = ['N', 'a', 'N'] ∧ x = 0.0 / 0.0) ∨
    (numberLayout.chars x = ['i', 'n', 'f'] ∧ x = 1.0 / 0.0) ∨
    numberLayout.chars x = ['-', 'i', 'n', 'f'] ∧ x = -1.0 / 0.0 := by
  cases hvalue : value x with
  | finite negative m q => exact .inl (Binary64.isFinite_iff.mpr ⟨negative, m, q, hvalue⟩)
  | notANumber =>
    refine .inr (.inl ⟨?_, value_injective (hvalue.trans (by decide +kernel))⟩)
    rw [Decimal.Layout.chars, hvalue]
    rfl
  | infinite negative =>
    cases negative with
    | false =>
      refine .inr (.inr (.inl ⟨?_, value_injective (hvalue.trans (by decide +kernel))⟩))
      rw [Decimal.Layout.chars, hvalue]
      rfl
    | true =>
      refine .inr (.inr (.inr ⟨?_, value_injective (hvalue.trans (by decide +kernel))⟩))
      rw [Decimal.Layout.chars, hvalue]
      rfl

theorem readReal?_of_scan {cs : List Char} {n : Json.Numeral}
    (h : Json.Token.scan cs = [.number n]) : readReal? cs = n.toFloat? := by
  have hne {word : List Char} {f : Json.Flaw} (hword : Json.Token.scan word = [.flaw f]) :
      cs ≠ word := by
    rintro rfl
    exact absurd (h.symm.trans hword) (by simp)
  unfold readReal?
  rw [if_neg (hne (f := .strayCharacter) rfl), if_neg (hne (f := .strayCharacter) rfl),
    if_neg (hne (f := .malformedNumber) rfl), h]

/-- **Every number is read as it was written**, the infinite ones and what is no number
included. -/
theorem readReal?_chars (x : Float) : readReal? (numberLayout.chars x) = some x := by
  rcases chars_cases x with hfinite | ⟨hchars, rfl⟩ | ⟨hchars, rfl⟩ | ⟨hchars, rfl⟩
  · obtain ⟨n, cs, hchars, hspells, hread⟩ := exists_spelled hfinite
    rw [hchars, readReal?_of_scan (Json.scan_spelled hspells), hread]
  · rw [hchars]
    rfl
  · rw [hchars]
    rfl
  · rw [hchars]
    rfl

/-- The number in a field that may be empty. -/
def readOptional? (cs : List Char) : Option (Option Float) :=
  if cs = [] then some none else (readReal? cs).map some

/-- **A field is empty if and only if the number is missing.** -/
theorem readOptional?_chars (x : Option Float) : readOptional? (ofOption x).chars = some x := by
  cases x with
  | none => rfl
  | some x =>
    have hread := readReal?_chars x
    have hne : numberLayout.chars x ≠ [] := by
      intro hnil
      rw [hnil] at hread
      exact absurd hread nofun
    show readOptional? (numberLayout.chars x) = _
    rw [readOptional?, if_neg hne, hread, Option.map_some]

/-- Nothing in the field ends it. -/
def IsClean (cs : List Char) : Prop :=
  ',' ∉ cs ∧ '\n' ∉ cs

instance (cs : List Char) : Decidable (IsClean cs) :=
  inferInstanceAs (Decidable (_ ∧ _))

theorem isClean_chars (x : Float) : IsClean (numberLayout.chars x) := by
  rcases chars_cases x with hfinite | ⟨hchars, -⟩ | ⟨hchars, -⟩ | ⟨hchars, -⟩
  · obtain ⟨n, cs, hchars, hspells, -⟩ := exists_spelled hfinite
    have hcomma := hspells.not_mem (c := ',') (by rintro (_ | _) p <;> rfl)
    have hfeed := hspells.not_mem (c := '\n') (by rintro (_ | _) p <;> rfl)
    rw [hchars]
    cases n.negative <;> simp [IsClean, sign, hcomma, hfeed]
  all_goals
    rw [hchars]
    decide

end Cell

/-! ## 2.  Records -/

namespace Table

/-- The fields of a row, each under the name of its column. -/
abbrev Fields := List (String × List Char)

/-- The fields of each line. -/
def grid (text : String) : List (List (List Char)) :=
  (Lines.linesOf text.toList).map (·.splitOn ',')

/-- A row under a header of the same width. -/
def under? (header row : List (List Char)) : Option Fields :=
  if row.length = header.length then some ((header.map String.ofList).zip row) else none

/-- The rows of a table, under the header in its first line. -/
def records? (text : String) : Option (List Fields) :=
  match grid text with
  | [] => none
  | header :: rows => rows.mapM (under? header)

/-- The table is as wide as its header, and has nothing in it that ends a field. -/
structure IsPlain (t : Table) : Prop where
  columns : t.columns ≠ []
  header : ∀ name ∈ t.columns, Cell.IsClean name.toList
  width : ∀ row ∈ t.rows, row.length = t.columns.length
  fields : ∀ row ∈ t.rows, ∀ cell ∈ row, Cell.IsClean cell.chars

section Text

variable {fields : List (List Char)} {t : Table}

theorem feed_not_mem_intercalate (h : ∀ field ∈ fields, Cell.IsClean field) :
    '\n' ∉ List.intercalate [','] fields := by
  induction fields with
  | nil => exact List.not_mem_nil
  | cons field rest ih =>
    have hfield := (h field List.mem_cons_self).2
    have hrest := ih fun f hf => h f (List.mem_cons_of_mem field hf)
    cases rest with
    | nil => rwa [List.intercalate_singleton]
    | cons next rest =>
      rw [List.intercalate_cons_cons]
      simp only [List.mem_append, List.mem_singleton, not_or]
      exact ⟨⟨hfield, by decide⟩, hrest⟩

/-- **The fields of a plain table are found again.** -/
theorem grid_text (h : t.IsPlain) :
    grid t.text = t.columns.map String.toList :: t.rows.map (·.map Cell.chars) := by
  let lines := t.columns.map String.toList :: t.rows.map (·.map Cell.chars)
  have hclean : ∀ fields ∈ lines, fields ≠ [] ∧ ∀ field ∈ fields, Cell.IsClean field := by
    intro fields hfields
    rcases List.mem_cons.mp hfields with rfl | hrow
    · refine ⟨by simpa using h.columns, ?_⟩
      intro field hfield
      obtain ⟨name, hname, rfl⟩ := List.mem_map.mp hfield
      exact h.header name hname
    · obtain ⟨row, hmem, rfl⟩ := List.mem_map.mp hrow
      refine ⟨?_, ?_⟩
      · rw [← List.length_pos_iff, List.length_map, h.width row hmem]
        exact List.length_pos_iff.mpr h.columns
      · intro field hfield
        obtain ⟨cell, hcell, rfl⟩ := List.mem_map.mp hfield
        exact h.fields row hmem cell hcell
  have htext : t.text.toList = Lines.ended '\n' (lines.map (List.intercalate [','])) := by
    have hjoin : Lines.ended '\n' (lines.map (List.intercalate [','])) = lines.flatMap line :=
      List.flatMap_map _ _ _
    rw [hjoin, text, String.toList_ofList, List.flatMap_cons, List.flatMap_map]
  have hlines : Lines.linesOf t.text.toList = lines.map (List.intercalate [',']) := by
    rw [htext]
    refine Lines.linesOf_ended ?_
    intro line hline
    obtain ⟨fields, hfields, rfl⟩ := List.mem_map.mp hline
    exact feed_not_mem_intercalate (hclean fields hfields).2
  have hsplit : ∀ fields ∈ lines, (List.intercalate [','] fields).splitOn ',' = fields := by
    intro fields hfields
    obtain ⟨hne, hfree⟩ := hclean fields hfields
    exact List.splitOn_intercalate ',' (fun field hfield => (hfree field hfield).1) hne
  rw [grid, hlines, List.map_map]
  exact List.map_congr_left hsplit |>.trans (List.map_id lines)

/-- **The records of a plain table are its rows**, under the names of the columns. -/
theorem records?_text (h : t.IsPlain) :
    records? t.text = some (t.rows.map fun row => t.columns.zip (row.map Cell.chars)) := by
  have hnames : (t.columns.map String.toList).map String.ofList = t.columns := by
    rw [List.map_map]
    exact (List.map_congr_left fun name _ => String.ofList_toList).trans (List.map_id _)
  unfold records?
  rw [grid_text h]
  dsimp only
  rw [List.mapM_map]
  refine Lines.mapM_some fun row hrow => ?_
  have hwidth : (row.map Cell.chars).length = (t.columns.map String.toList).length := by
    rw [List.length_map, List.length_map, h.width row hrow]
  show under? (t.columns.map String.toList) (row.map Cell.chars) = _
  rw [under?, if_pos hwidth, hnames]

end Text

/-! ## 3.  The two tables -/

/-- The number in the field with this name. -/
def Fields.real? (fields : Fields) (name : String) : Option Float := do
  Cell.readReal? (← fields.lookup name)

/-- The number in the field with this name, which may be empty. -/
def Fields.optional? (fields : Fields) (name : String) : Option (Option Float) := do
  Cell.readOptional? (← fields.lookup name)

/-- The point that a row of the scaling curve describes. -/
def pointOf? (fields : Fields) : Option ScalingPoint := do
  return {
    amount := ← fields.real? "amount"
    units := ← fields.real? "amount_in_base_units"
    optimizedEfficiency := ← fields.real? "optimized_efficiency"
    unoptimizedEfficiency := ← fields.real? "unoptimized_efficiency"
    improvement := ← fields.real? "improvement" }

/-- What a row of the kinds of cost says. -/
structure KindRecord where
  transferType : TransferType
  kind : CostKind
  label : String
  unoptimized : Float
  optimized : Float
  reduction : Option Float

/-- The record that a row of the kinds of cost describes. -/
def kindOf? (fields : Fields) : Option KindRecord := do
  let type ← fields.lookup "transfer_type"
  let kind ← fields.lookup "cost_type"
  return {
    transferType := ← TransferType.known.lookup (String.ofList type)
    kind := ← CostKind.known.lookup (String.ofList kind)
    label := String.ofList (← fields.lookup "label")
    unoptimized := ← fields.real? "unoptimized"
    optimized := ← fields.real? "optimized"
    reduction := ← fields.optional? "reduction" }

/-- The points that a text describes. -/
def pointsOf? (text : String) : Option (List ScalingPoint) := do
  (← records? text).mapM pointOf?

/-- The records of the kinds of cost that a text describes. -/
def kindsOf? (text : String) : Option (List KindRecord) := do
  (← records? text).mapM kindOf?

/-- The rows of the kinds of cost, in order. -/
def kindOrder : List (TransferType × CostKind) :=
  [(.singleRecipient, .txFee), (.singleRecipient, .rent), (.singleRecipient, .compute),
   (.singleRecipient, .overhead), (.multiWallet, .txFee), (.multiWallet, .rent),
   (.multiWallet, .compute), (.multiWallet, .overhead)]

/-- What an analysis says of a kind of cost of a transfer type. -/
def KindRecord.ofAnalysis (a : Analysis) (t : TransferType) (k : CostKind) : KindRecord where
  transferType := t
  kind := k
  label := k.label
  unoptimized := (a.types.get t).means.unoptimized.breakdown.get k
  optimized := (a.types.get t).means.optimized.breakdown.get k
  reduction := (a.types.get t).improvement.reductionOfKind.get k

theorem isPlain_ofPoints (points : List ScalingPoint) : (ofPoints points).IsPlain where
  columns := List.cons_ne_nil _ _
  header := by
    dsimp only [ofPoints]
    decide
  width row hrow := by
    obtain ⟨p, -, rfl⟩ := List.mem_map.mp hrow
    rfl
  fields row hrow cell hcell := by
    obtain ⟨p, -, rfl⟩ := List.mem_map.mp hrow
    simp only [pointRow, List.mem_cons, List.not_mem_nil, or_false] at hcell
    rcases hcell with rfl | rfl | rfl | rfl | rfl <;> exact Cell.isClean_chars _

/-- A row of the scaling curve is read as its point. -/
theorem pointOf?_pointRow (points : List ScalingPoint) (p : ScalingPoint) :
    pointOf? ((ofPoints points).columns.zip ((pointRow p).map Cell.chars)) = some p := by
  simp [pointOf?, Fields.real?, ofPoints, pointRow, List.lookup, Cell.readReal?_chars]

/-- **The points of the scaling curve are read as they were written.** -/
theorem pointsOf?_text (points : List ScalingPoint) :
    pointsOf? (ofPoints points).text = some points := by
  unfold pointsOf?
  rw [records?_text (isPlain_ofPoints points)]
  show List.mapM pointOf? _ = _
  rw [ofPoints, List.map_map, List.mapM_map]
  refine (Lines.mapM_some fun p _ => pointOf?_pointRow points p).trans ?_
  rw [List.map_id']

theorem mem_rows_ofKinds {types : PerType TypeAnalysis} {row : List Cell}
    (h : row ∈ (ofKinds types).rows) : ∃ t k, row = kindRow (types.get t) t k := by
  obtain ⟨t, -, hrow⟩ := List.mem_flatMap.mp h
  obtain ⟨k, -, rfl⟩ := List.mem_map.mp hrow
  exact ⟨t, k, rfl⟩

theorem isPlain_ofKinds (types : PerType TypeAnalysis) : (ofKinds types).IsPlain where
  columns := List.cons_ne_nil _ _
  header := by
    dsimp only [ofKinds]
    decide
  width row hrow := by
    obtain ⟨t, k, rfl⟩ := mem_rows_ofKinds hrow
    rfl
  fields row hrow cell hcell := by
    obtain ⟨t, k, rfl⟩ := mem_rows_ofKinds hrow
    simp only [kindRow, List.mem_cons, List.not_mem_nil, or_false] at hcell
    rcases hcell with rfl | rfl | rfl | rfl | rfl | rfl
    · cases t <;> decide
    · cases k <;> decide
    · cases k <;> decide
    · exact Cell.isClean_chars _
    · exact Cell.isClean_chars _
    · cases (types.get t).improvement.reductionOfKind.get k with
      | none => decide
      | some x => exact Cell.isClean_chars x

/-- A row of the kinds of cost is read as what it says. -/
theorem kindOf?_kindRow (a : Analysis) (t : TransferType) (k : CostKind) :
    kindOf? ((ofKinds a.types).columns.zip ((kindRow (a.types.get t) t k).map Cell.chars)) =
      some (.ofAnalysis a t k) := by
  simp [kindOf?, Fields.real?, Fields.optional?, ofKinds, kindRow, List.lookup,
    TransferType.lookup_key, CostKind.lookup_key, Cell.readReal?_chars, Cell.readOptional?_chars,
    KindRecord.ofAnalysis]

/-- **The kinds of cost are read as they were written**: eight rows, in this order. -/
theorem kindsOf?_text (a : Analysis) :
    kindsOf? (ofKinds a.types).text =
      some (kindOrder.map fun row => .ofAnalysis a row.1 row.2) := by
  have hrows : (ofKinds a.types).rows =
      kindOrder.map fun row => kindRow (a.types.get row.1) row.1 row.2 := rfl
  unfold kindsOf?
  rw [records?_text (isPlain_ofKinds a.types)]
  show List.mapM kindOf? _ = _
  rw [hrows, List.map_map, List.mapM_map]
  exact Lines.mapM_some fun row _ => kindOf?_kindRow a row.1 row.2

/-! ## 4.  Files -/

/-- What the tables of an analysis in a directory are, as a list of written files and on the disk
that they are left on. -/
structure Charted (a : Analysis) (directory : String) (paths : List String) (files : FileTree) :
    Prop where
  /-- The scaling curve is among the written files if and only if it has points. -/
  listed : Files.join directory scalingFile ∈ paths ↔ a.scaling.points ≠ []
  /-- Its file says each number of each of its points, in order. -/
  curve : a.scaling.points ≠ [] → ∃ text,
    files.read (Files.join directory scalingFile) = .ok text ∧
      pointsOf? text = some a.scaling.points
  /-- The other file is always written.  It has eight rows with the means of each kind of cost, and
  with the reduction, whose field is empty if and only if there is none. -/
  kinds : Files.join directory kindsFile ∈ paths ∧ ∃ text,
    files.read (Files.join directory kindsFile) = .ok text ∧
      kindsOf? text = some (kindOrder.map fun row => .ofAnalysis a row.1 row.2)

theorem join_scalingFile_ne (directory : String) :
    Files.join directory scalingFile ≠ Files.join directory kindsFile := by
  intro h
  have hscaling := Files.suffix_join directory scalingFile
  have hkinds := Files.suffix_join directory kindsFile
  rw [h] at hscaling
  rcases List.suffix_or_suffix_of_suffix hscaling hkinds with hsuffix | hsuffix
  · exact absurd hsuffix (by decide)
  · exact absurd hsuffix (by decide)

theorem mem_tables_kinds (a : Analysis) (directory : String) :
    (Files.join directory kindsFile, (ofKinds a.types).text) ∈
      (Export.tables directory (ofAnalysis a)).files := by
  unfold Export.tables ofAnalysis
  simp

theorem mem_tables_scaling {a : Analysis} (directory : String) (h : a.scaling.points ≠ []) :
    (Files.join directory scalingFile, (ofPoints a.scaling.points).text) ∈
      (Export.tables directory (ofAnalysis a)).files := by
  have hfull : a.scaling.isEmpty = false := List.isEmpty_eq_false_iff.mpr h
  unfold Export.tables ofAnalysis
  simp [hfull]

/-- What the writing of the tables does on a machine, told by one that keeps a journal. -/
theorem write_made (a : Analysis) (directory : String) (w : Machine) :
    ∃ r v, (write a directory : StateM Machine _) w = (r, v.toMachine) ∧
      (Export.tables directory (ofAnalysis a)).Made ⟨w, []⟩ r v := by
  obtain ⟨r, v, hwrite, hmade⟩ := Export.makes_write a directory ⟨w, []⟩
  refine ⟨r, v, ?_, hmade⟩
  have hplain := mirrors_tables a directory ⟨w, []⟩
  rw [hwrite] at hplain
  exact hplain

/-- The tables are written if each of them can be. -/
theorem write_of_succeeds {a : Analysis} {directory : String} {w : Machine}
    (h : (Export.tables directory (ofAnalysis a)).succeeds w.files = true) :
    ∃ w', (write a directory : StateM Machine _) w =
      (.ok ((Export.tables directory (ofAnalysis a)).files.map (·.1)), w') := by
  obtain ⟨r, v, hwrite, hmade⟩ := write_made a directory w
  rcases hmade.result with ⟨-, rfl⟩ | ⟨hfails, -⟩
  · exact ⟨v.toMachine, hwrite⟩
  · exact absurd (h.symm.trans hfails) nofun

/-- **Tables that were written are read back.** -/
theorem charted_of_write {a : Analysis} {directory : String} {w w' : Machine} {paths : List String}
    (h : (write a directory : StateM Machine _) w = (.ok paths, w')) :
    Charted a directory paths w'.files := by
  obtain ⟨r, v, hwrite, hmade⟩ := write_made a directory w
  obtain ⟨rfl, rfl⟩ := Prod.mk.inj (h.symm.trans hwrite)
  rcases hmade.result with ⟨hok, hpaths⟩ | ⟨-, failure, -, hfailure⟩
  · obtain rfl := Except.ok.inj hpaths
    have hread : ∀ f ∈ (Export.tables directory (ofAnalysis a)).files,
        v.files.read f.1 = .ok f.2 := by
      intro f hf
      rw [hmade.saves.files, Export.saved_eq_files hok]
      exact FileTree.read_writeAll_of_apart (List.all_eq_true.mp hok)
        (CommandLine.apart_tables directory a _) hf
    refine ⟨⟨?_, fun hne => ?_⟩, fun hne => ?_, ?_, ?_⟩
    · intro hmem hnil
      have hempty : a.scaling.isEmpty = true := List.isEmpty_iff.mpr hnil
      simp [Export.tables, ofAnalysis, hempty, join_scalingFile_ne] at hmem
    · exact List.mem_map_of_mem (mem_tables_scaling directory hne)
    · exact ⟨_, hread _ (mem_tables_scaling directory hne), pointsOf?_text _⟩
    · exact List.mem_map_of_mem (mem_tables_kinds a directory)
    · exact ⟨_, hread _ (mem_tables_kinds a directory), kindsOf?_text a⟩
  · exact absurd hfailure nofun

/-- An analysis with one point, whose improvement is not a number, and without any reduction. -/
def degenerate : Analysis where
  types := .fill {
    means := .fill ⟨1, 0.0, 1e16, 0.0, .fill (-0.0), 0.0, 0.0⟩
    improvement := ⟨0.0, none, none, .fill none⟩ }
  contrast := ⟨0.0, none, none⟩
  scaling := ⟨[⟨1e21, 1e12, 0.1, 1.0 / 0.0, 0.0 / 0.0⟩], none, []⟩

/-- In the current directory of an empty tree, both of its tables are written. -/
theorem charted_of_write_degenerate :
    let w : Machine := { files := .empty, clock := ⟨⟨2024, 1, 1⟩, 0, 0⟩, runId := .ofNat 0 }
    ∃ w', (write degenerate "" : StateM Machine _) w = (.ok [scalingFile, kindsFile], w') ∧
      Charted degenerate "" [scalingFile, kindsFile] w'.files := by
  intro w
  have hsucceeds : (Export.tables "" (ofAnalysis degenerate)).succeeds w.files = true := by
    decide +kernel
  obtain ⟨w', h⟩ := write_of_succeeds hsucceeds
  exact ⟨w', h, charted_of_write h⟩

end Table
end TransferCost
