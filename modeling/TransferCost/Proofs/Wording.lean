import TransferCost.Report
import TransferCost.Proofs.Figures
import TransferCost.Proofs.Markdown
import Mathlib.Data.List.Chain

/-!
# Words in a report

That some words stand in a report is easy to see from the line that has them.  That they do not
stand there is a statement about all of its lines, and most of these have figures in them whose
digits nobody knows.

## 1.  Pairs of letters

Two letters are enough.  Where the second of them never stands right behind the first, there are no
words that have them side by side.  `Avoids` asks for a little more, that the second one does not
begin the text either.  This makes it a property of the parts of a text: `Avoids.append`.

## 2.  Texts of phrases and figures

A report is written in phrases, which are known, and figures, which are not.  `IsComposed` says that
a text is put together from these.  What phrases and figures have, and what joining keeps, is true
of all such texts.  Two properties are of use: that a text stays in its line and in its cell, and
that it avoids the pairs of letters that tell two special texts from all others.

## 3.  Sections

`Report.isMadeOf_blocks` goes through a report once.  All of its blocks are made of phrases and
figures but for two, of which one stands among the costs by size and one in the section on scaling.

## 4.  When the special texts stand in a report

`Report.contains_sentence_iff` and `Report.contains_scalingHeading_iff` say it.
-/

namespace TransferCost

/-- The words stand somewhere in the text. -/
def Contains (text words : String) : Prop :=
  words.toList <:+: text.toList

/-! ## 1.  Pairs of letters -/

/-- The second letter stands neither right behind the first one, nor at the start. -/
def Avoids (p : Char × Char) (cs : List Char) : Prop :=
  List.IsChain (fun a b => ¬ (a = p.1 ∧ b = p.2)) (p.1 :: cs)

/-- The pair is not found, from the letter `a` on.  This is one pass through the text, which stays
small while it is evaluated. -/
def avoidsFrom (p : Char × Char) : (a : Char) → List Char → Bool
  | _, [] => true
  | a, b :: rest => if a = p.1 ∧ b = p.2 then false else avoidsFrom p b rest

section Pairs

variable {p : Char × Char} {cs ds : List Char}

theorem avoidsFrom_iff {a : Char} :
    avoidsFrom p a cs = true ↔ List.IsChain (fun a b => ¬ (a = p.1 ∧ b = p.2)) (a :: cs) := by
  induction cs generalizing a with
  | nil => exact iff_of_true rfl (List.isChain_singleton a)
  | cons b rest ih =>
    rw [avoidsFrom, List.isChain_cons_cons, ← ih]
    by_cases hpair : a = p.1 ∧ b = p.2
    · rw [if_pos hpair]
      exact iff_of_false Bool.false_ne_true fun h => h.1 hpair
    · rw [if_neg hpair]
      exact (and_iff_right hpair).symm

instance (p : Char × Char) (cs : List Char) : Decidable (Avoids p cs) :=
  decidable_of_iff (avoidsFrom p p.1 cs = true) avoidsFrom_iff

theorem Avoids.nil : Avoids p [] :=
  List.isChain_singleton _

theorem Avoids.append (hc : Avoids p cs) (hd : Avoids p ds) : Avoids p (cs ++ ds) := by
  obtain ⟨hhead, htail⟩ := List.isChain_cons.mp hd
  refine List.IsChain.append hc htail ?_
  rintro a - b hb ⟨-, rfl⟩
  exact hhead _ hb ⟨rfl, rfl⟩

theorem Avoids.flatMap {α : Type} {f : α → List Char} {as : List α} (h : ∀ a ∈ as, Avoids p (f a)) :
    Avoids p (as.flatMap f) := by
  induction as with
  | nil => exact .nil
  | cons a rest ih =>
    rw [List.flatMap_cons]
    exact (h a List.mem_cons_self).append (ih fun b hb => h b (List.mem_cons_of_mem a hb))

theorem avoids_of_not_mem (h : p.2 ∉ cs) : Avoids p cs := by
  induction cs with
  | nil => exact .nil
  | cons c rest ih =>
    rw [List.mem_cons, not_or] at h
    have hrest := ih h.2
    refine List.isChain_cons_cons.mpr ⟨fun hpair => h.1 hpair.2.symm, ?_⟩
    refine List.isChain_cons.mpr ⟨?_, (List.isChain_cons.mp hrest).2⟩
    rintro b hb ⟨-, rfl⟩
    exact h.2 (List.mem_of_mem_head? hb)

/-- **Words with the pair are not contained in a text that avoids it.** -/
theorem Avoids.not_contains {text words : String} (h : Avoids p text.toList)
    (hwords : [p.1, p.2] <:+: words.toList) : ¬ Contains text words := by
  intro hcontains
  have hpair := List.IsChain.infix (List.isChain_cons.mp h).2 (hwords.trans hcontains)
  exact (List.isChain_cons_cons.mp hpair).1 ⟨rfl, rfl⟩

end Pairs

/-! ### Documents -/

namespace Block

variable {p : Char × Char} {b : Block} {blocks : List Block}

theorem isAlpha_of_isDigit {c : Char} (h : c.isDigit = true) : c.isAlpha = false := by
  simp [Char.isDigit, Char.isAlpha, Char.isUpper, Char.isLower, UInt32.le_iff_toNat_le] at *
  omega

/-- What has no letters in it avoids every pair of letters. -/
theorem avoids_of_no_letter (hp : p.2.isAlpha = true) {cs : List Char}
    (h : ∀ c ∈ cs, c.isAlpha = false) : Avoids p cs :=
  avoids_of_not_mem fun hmem => absurd (h p.2 hmem) (by rw [hp]; decide)

theorem avoids_ended (hp : p.2.isAlpha = true) {parts : List (List Char)}
    (h : ∀ part ∈ parts, Avoids p part) : Avoids p ('|' :: Lines.ended '|' parts) := by
  have hbar : Avoids p ['|'] := avoids_of_no_letter hp (by simp)
  exact hbar.append (.flatMap fun part hpart => (h part hpart).append hbar)

theorem avoids_row (hp : p.2.isAlpha = true) {cells : List String}
    (h : AreAll (fun s => Avoids p s.toList) cells) : Avoids p (row cells).toList := by
  have hblank : Avoids p [' '] := avoids_of_no_letter hp (by simp)
  rw [toList_row h.1]
  refine avoids_ended hp (List.forall_mem_map.mpr fun cell hcell => ?_)
  exact hblank.append ((h.2 cell hcell).append hblank)

theorem avoids_rule (hp : p.2.isAlpha = true) (header : List String) :
    Avoids p (rule header).toList := by
  rw [toList_rule]
  refine avoids_ended hp (List.forall_mem_map.mpr fun cell _ => ?_)
  exact avoids_of_no_letter hp fun c hc => by rw [List.eq_of_mem_replicate hc]; rfl

/-- The marks of a block have no letters in them, so its lines avoid a pair if its texts do. -/
theorem avoids_line (hp : p.2.isAlpha = true) (h : b.IsMadeOf fun s => Avoids p s.toList) :
    ∀ line ∈ b.lines, Avoids p line.toList := by
  cases b with
  | heading level text =>
    have hmarks : Avoids p (List.replicate level '#') :=
      avoids_of_no_letter hp fun c hc => by rw [List.eq_of_mem_replicate hc]; rfl
    have hblank : Avoids p [' '] := avoids_of_no_letter hp (by simp)
    refine List.forall_mem_singleton.mpr ?_
    rw [toList_heading]
    exact hmarks.append (hblank.append h.2)
  | paragraph text => exact List.forall_mem_singleton.mpr h.2
  | table t =>
    refine List.forall_mem_cons.mpr ⟨avoids_row hp h.1, List.forall_mem_cons.mpr
      ⟨avoids_rule hp t.header, List.forall_mem_map.mpr fun cells hcells => ?_⟩⟩
    exact avoids_row hp (h.2 cells hcells)
  | bullets items =>
    refine List.forall_mem_map.mpr fun item hitem => ?_
    have hbullet : Avoids p ['*', ' '] := avoids_of_no_letter hp (by simp)
    rw [String.toList_append]
    exact hbullet.append (h.2 item hitem)
  | numbered items =>
    intro line hline
    obtain ⟨i, hi, rfl⟩ := List.mem_mapIdx.mp hline
    have hnumber : Avoids p (Decimal.digits (i + 1)) :=
      avoids_of_no_letter hp fun c hc => isAlpha_of_isDigit (Decimal.isDigit_of_mem_digits hc)
    have hpoint : Avoids p ['.', ' '] := avoids_of_no_letter hp (by simp)
    rw [toList_numbered]
    exact hnumber.append (hpoint.append (h.2 _ (List.getElem_mem hi)))

theorem mem_linesOf_of_mem (hb : b ∈ blocks) {line : String} (hline : line ∈ b.lines) :
    line ∈ linesOf blocks := by
  induction blocks using linesOf.induct with
  | case1 => exact absurd hb List.not_mem_nil
  | case2 b' => rwa [List.mem_singleton.mp hb] at hline
  | case3 b' rest hrest ih =>
    rw [linesOf.eq_3 _ _ hrest, List.mem_append, List.mem_cons]
    rcases List.mem_cons.mp hb with rfl | hb
    · exact .inl hline
    · exact .inr (.inr (ih hb))

/-- Each line of a block stands in the document. -/
theorem contains_textOf (hb : b ∈ blocks) {line : String} (hline : line ∈ b.lines) :
    Contains (textOf blocks) line := by
  have hmem : line ++ "\n" ∈ (linesOf blocks).map (· ++ "\n") :=
    List.mem_map_of_mem (mem_linesOf_of_mem hb hline)
  have hinfix := List.infix_of_mem_flatten (List.mem_map_of_mem (f := String.toList) hmem)
  rw [← List.flatMap_def, ← String.toList_join, String.toList_append] at hinfix
  exact (List.prefix_append _ _).isInfix.trans hinfix

/-- **A document avoids a pair of letters if its texts do.** -/
theorem avoids_textOf (hp : p.2.isAlpha = true)
    (h : ∀ b ∈ blocks, b.IsMadeOf fun s => Avoids p s.toList) :
    Avoids p (textOf blocks).toList := by
  have hfeed : Avoids p ['\n'] := avoids_of_no_letter hp (by simp)
  unfold textOf
  rw [String.toList_join]
  refine .flatMap (List.forall_mem_map.mpr fun line hline => ?_)
  rw [String.toList_append]
  refine Avoids.append ?_ hfeed
  rcases mem_linesOf hline with rfl | ⟨b, hb, hline⟩
  · exact .nil
  · exact avoids_line hp (h b hb) line hline

end Block

/-! ## 2.  Texts of phrases and figures -/

open Block (IsInline AreAll StartsProse isInline_ofList startsProse_ofList areAll_cons)

/-- The pairs of letters that tell the sentence about missing sizes and the heading of the section
on scaling from everything else in a report. -/
def distinctivePairs : List (Char × Char) :=
  [('p', 'l'), ('S', 'c')]

/-- The characters stay in a line and in a cell, and avoid the distinctive pairs. -/
def IsPhrase (cs : List Char) : Prop :=
  ('\n' ∉ cs ∧ '|' ∉ cs) ∧ ∀ p ∈ distinctivePairs, Avoids p cs

instance (cs : List Char) : Decidable (IsPhrase cs) :=
  inferInstanceAs (Decidable (_ ∧ _))

/-- The text is put together from phrases and figures. -/
inductive IsComposed : String → Prop where
  | phrase {cs : List Char} (h : IsPhrase cs) : IsComposed (String.ofList cs)
  | figure {s : String} (h : IsFigure s) : IsComposed s
  | append {s t : String} (hs : IsComposed s) (ht : IsComposed t) : IsComposed (s ++ t)

namespace IsComposed

variable {s : String} {parts : List String}

theorem join (h : ∀ s ∈ parts, IsComposed s) : IsComposed (String.join parts) := by
  induction parts with
  | nil => exact .phrase (by decide)
  | cons s rest ih =>
    rw [List.forall_mem_cons] at h
    rw [String.join_cons]
    exact h.1.append (ih h.2)

theorem isInline (h : IsComposed s) : IsInline s := by
  induction h with
  | phrase h => exact isInline_ofList h.1
  | figure h => exact ⟨h.not_mem (by decide), h.not_mem (by decide)⟩
  | append _ _ hs ht => exact hs.append ht

theorem avoids (h : IsComposed s) {p : Char × Char} (hp : p ∈ distinctivePairs) :
    Avoids p s.toList := by
  induction h with
  | phrase h =>
    rw [String.toList_ofList]
    exact h.2 p hp
  | figure h =>
    have hletters : ∀ p ∈ distinctivePairs, ¬ (IsNumberChar p.2 ∨ p.2 ∈ unitChars) := by
      decide
    exact avoids_of_not_mem (h.not_mem (hletters p hp))
  | append _ _ hs ht =>
    rw [String.toList_append]
    exact hs.append ht

end IsComposed

theorem Figure.isComposed_orNotAvailable {α : Type} {figure : α → String}
    (h : ∀ a, IsFigure (figure a)) (a? : Option α) : IsComposed (orNotAvailable figure a?) := by
  cases a? with
  | none => exact .phrase (by decide)
  | some a => exact .figure (h a)

theorem TransferType.isComposed_label (t : TransferType) : IsComposed t.label := by
  cases t <;> exact .phrase (by decide)

theorem Date.isComposed_longText (d : Date) : IsComposed d.longText := by
  have hday := IsComposed.figure (isFigure_padded 2 d.day)
  have hmonth : IsComposed (monthName d.month) := by
    unfold monthName
    split <;> exact .phrase (by decide)
  have hyear := IsComposed.figure (isFigure_yearText d.year)
  have hblank : IsComposed " " := .phrase (by decide)
  exact (((hday.append hblank).append hmonth).append hblank).append hyear

/-! ## 3.  Sections -/

namespace Report

open Block Figure Decimal

variable {a : Analysis} {date : Date}

theorem isComposed_reduction (x? : Option Float) : IsComposed (reduction x?) :=
  isComposed_orNotAvailable isFigure_change x?

/-! ### Texts

A paragraph begins with a phrase, and this one makes it begin like a paragraph. -/

theorem isMadeOf_paragraph {cs : List Char} {rest : List String}
    (hstart : 2 ≤ cs.length ∧ opening cs = .prose) (hphrase : IsPhrase cs)
    (hrest : ∀ s ∈ rest, IsComposed s) :
    (paragraph (String.join (String.ofList cs :: rest))).IsMadeOf IsComposed := by
  refine ⟨?_, .join (List.forall_mem_cons.mpr ⟨.phrase hphrase, hrest⟩)⟩
  rw [String.join_cons]
  exact (startsProse_ofList hstart).append _

theorem isMadeOf_dateText (date : Date) : (paragraph (dateText date)).IsMadeOf IsComposed := by
  refine isMadeOf_paragraph (by decide) (by decide) ?_
  simp only [List.forall_mem_cons]
  exact ⟨date.isComposed_longText, .phrase (by decide), List.forall_mem_nil _⟩

theorem isMadeOf_summaryText (a : Analysis) :
    (paragraph (summaryText a)).IsMadeOf IsComposed := by
  refine isMadeOf_paragraph (by decide) (by decide) ?_
  simp only [List.forall_mem_cons]
  exact ⟨.figure (isFigure_points _), .phrase (by decide),
    isComposed_orNotAvailable isFigure_percentage _, .phrase (by decide), List.forall_mem_nil _⟩

theorem isMadeOf_rentText (i : Improvement) : (paragraph (rentText i)).IsMadeOf IsComposed := by
  refine isMadeOf_paragraph (by decide) (by decide) ?_
  simp only [List.forall_mem_cons]
  exact ⟨.phrase (by decide), isComposed_reduction _, .phrase (by decide), List.forall_mem_nil _⟩

theorem isMadeOf_rentShareText (means : PerMode Means) :
    (paragraph (rentShareText means)).IsMadeOf IsComposed := by
  unfold rentShareText
  split
  · refine isMadeOf_paragraph (by decide) (by decide) ?_
    simp only [List.forall_mem_cons]
    exact ⟨.figure (isFigure_percentage _), .phrase (by decide), .figure (isFigure_percentage _),
      .phrase (by decide), .figure (isFigure_points _), .phrase (by decide), List.forall_mem_nil _⟩
  · exact ⟨startsProse_ofList (by decide), .phrase (by decide)⟩

theorem isMadeOf_efficiencyText (u o : Float) :
    (paragraph (efficiencyText u o)).IsMadeOf IsComposed := by
  refine isMadeOf_paragraph (by decide) (by decide) ?_
  simp only [List.forall_mem_cons]
  exact ⟨.phrase (by decide), .figure (isFigure_percentage u), .phrase (by decide),
    .figure (isFigure_percentage o), .phrase (by decide), List.forall_mem_nil _⟩

theorem isMadeOf_contrastText (c : Contrast) :
    (paragraph (contrastText c)).IsMadeOf IsComposed := by
  refine isMadeOf_paragraph (by decide) (by decide) ?_
  simp only [List.forall_mem_cons]
  exact ⟨.figure (isFigure_points _), .phrase (by decide), List.forall_mem_nil _⟩

theorem isMadeOf_optimumText (o : ScalingOptimum) :
    (paragraph (optimumText o)).IsMadeOf IsComposed := by
  refine isMadeOf_paragraph (by decide) (by decide) ?_
  simp only [List.forall_mem_cons]
  exact ⟨.figure (isFigure_points _), .phrase (by decide), .figure (isFigure_units _),
    .phrase (by decide), List.forall_mem_nil _⟩

theorem isMadeOf_deliveries (u o : Float) : (bullets (deliveries u o)).IsMadeOf IsComposed := by
  refine areAll_cons.mpr ⟨.join ?_, List.forall_mem_singleton.mpr (.join ?_)⟩
  · simp only [List.forall_mem_cons]
    exact ⟨.phrase (by decide), .figure (isFigure_units _), .phrase (by decide),
      .figure (isFigure_fixed 2 _), List.forall_mem_nil _⟩
  · simp only [List.forall_mem_cons]
    exact ⟨.phrase (by decide), .figure (isFigure_units _), List.forall_mem_nil _⟩

theorem isComposed_gainConclusion (a : Analysis) : IsComposed (gainConclusion a) := by
  refine .join ?_
  simp only [List.forall_mem_cons]
  exact ⟨.phrase (by decide), .figure (isFigure_points _), .phrase (by decide),
    List.forall_mem_nil _⟩

theorem isComposed_costConclusion (a : Analysis) : IsComposed (costConclusion a) := by
  refine .join ?_
  simp only [List.forall_mem_cons]
  exact ⟨.phrase (by decide), isComposed_reduction _, .phrase (by decide), List.forall_mem_nil _⟩

theorem isComposed_viabilityConclusion (a : Analysis) : IsComposed (viabilityConclusion a) := by
  refine .join ?_
  simp only [List.forall_mem_cons]
  exact ⟨.phrase (by decide), isComposed_orNotAvailable isFigure_points _, .phrase (by decide),
    List.forall_mem_nil _⟩

/-! ### Tables -/

/-- The first cell of a row of the core metrics. -/
theorem isComposed_metric {cs ds : List Char} (hcs : IsPhrase cs) (hds : IsPhrase ds)
    (t : TransferType) : IsComposed (String.ofList cs ++ t.label ++ String.ofList ds) :=
  ((IsComposed.phrase hcs).append t.isComposed_label).append (.phrase hds)

theorem isMadeOf_coreTable (a : Analysis) : (table (coreTable a)).IsMadeOf IsComposed := by
  constructor
  · simp only [coreTable, areAll_cons, List.forall_mem_cons]
    refine ⟨?_, ?_, ?_, ?_, List.forall_mem_nil _⟩
    all_goals exact .phrase (by decide)
  · simp only [coreTable, List.flatMap_cons, List.flatMap_nil, List.append_nil,
      List.forall_mem_append, List.forall_mem_map]
    refine ⟨fun t _ => ?_, fun t _ => ?_, fun t _ => ?_⟩
    · simp only [efficiencyRow, areAll_cons, List.forall_mem_cons]
      exact ⟨isComposed_metric (by decide) (by decide) t, .figure (isFigure_percentage _),
        .figure (isFigure_percentage _), .figure (isFigure_points _), List.forall_mem_nil _⟩
    · simp only [rentRow, areAll_cons, List.forall_mem_cons]
      exact ⟨isComposed_metric (by decide) (by decide) t, .figure (isFigure_amount _),
        .figure (isFigure_amount _), isComposed_reduction _, List.forall_mem_nil _⟩
    · simp only [accountsRow, areAll_cons, List.forall_mem_cons]
      exact ⟨isComposed_metric (by decide) (by decide) t, .figure (isFigure_fixed 1 _),
        .figure (isFigure_fixed 1 _), isComposed_reduction _, List.forall_mem_nil _⟩

theorem isMadeOf_costTable (costs : List SizeCost) :
    (table (costTable costs)).IsMadeOf IsComposed := by
  constructor
  · simp only [costTable, areAll_cons, List.forall_mem_cons]
    refine ⟨?_, ?_, ?_, ?_, ?_, List.forall_mem_nil _⟩
    all_goals exact .phrase (by decide)
  · refine List.forall_mem_map.mpr fun c _ => ?_
    simp only [costRow, areAll_cons, List.forall_mem_cons]
    exact ⟨c.transferType.isComposed_label, .figure (isFigure_units _),
      .figure (isFigure_amount _), .figure (isFigure_amount _), isComposed_reduction _,
      List.forall_mem_nil _⟩

theorem isMadeOf_scalingTable (s : Scaling) : (table (scalingTable s)).IsMadeOf IsComposed := by
  constructor
  · simp only [scalingTable, areAll_cons, List.forall_mem_cons]
    refine ⟨?_, ?_, ?_, List.forall_mem_nil _⟩
    all_goals exact .phrase (by decide)
  · refine List.forall_mem_map.mpr fun point _ => ?_
    simp only [pointRow, areAll_cons, List.forall_mem_cons]
    exact ⟨.figure (isFigure_fixed 2 _), .figure (isFigure_points _),
      isComposed_orNotAvailable (fun c => isFigure_amount _) _, List.forall_mem_nil _⟩

/-! ### The whole report -/

theorem isMadeOf_heading {level : ℕ} {cs : List Char} (hlevel : 0 < level) (h : IsPhrase cs) :
    (heading level (String.ofList cs)).IsMadeOf IsComposed :=
  ⟨hlevel, .phrase h⟩

theorem isMadeOf_summary (a : Analysis) : ∀ b ∈ summary a, b.IsMadeOf IsComposed := by
  simp only [summary, List.forall_mem_cons]
  exact ⟨isMadeOf_heading (by decide) (by decide), isMadeOf_summaryText a, List.forall_mem_nil _⟩

theorem isMadeOf_coreMetrics (a : Analysis) : ∀ b ∈ coreMetrics a, b.IsMadeOf IsComposed := by
  simp only [coreMetrics, List.forall_mem_cons]
  exact ⟨isMadeOf_heading (by decide) (by decide), isMadeOf_coreTable a, List.forall_mem_nil _⟩

theorem isMadeOf_rent (a : Analysis) : ∀ b ∈ rent a, b.IsMadeOf IsComposed := by
  simp only [rent, List.forall_mem_cons]
  exact ⟨isMadeOf_heading (by decide) (by decide), isMadeOf_rentText _, isMadeOf_rentShareText _,
    List.forall_mem_nil _⟩

theorem isMadeOf_efficiency (a : Analysis) : ∀ b ∈ efficiency a, b.IsMadeOf IsComposed := by
  simp only [efficiency, List.forall_mem_cons]
  exact ⟨isMadeOf_heading (by decide) (by decide), isMadeOf_efficiencyText _ _,
    isMadeOf_deliveries _ _, isMadeOf_contrastText _, List.forall_mem_nil _⟩

theorem isMadeOf_conclusions (a : Analysis) : ∀ b ∈ conclusions a, b.IsMadeOf IsComposed := by
  simp only [conclusions, List.forall_mem_cons]
  refine ⟨isMadeOf_heading (by decide) (by decide), areAll_cons.mpr ?_, List.forall_mem_nil _⟩
  simp only [List.forall_mem_cons]
  exact ⟨isComposed_gainConclusion a, isComposed_costConclusion a, .phrase (by decide),
    isComposed_viabilityConclusion a, List.forall_mem_nil _⟩

/-- What stands in place of a missing table of costs. -/
def sentence : String :=
  "No transfer size has samples in both modes."

/-- The title of the section on scaling. -/
def scalingTitle : String :=
  "3. Scaling"

/-- The line above the scaling curve. -/
def scalingHeading : String :=
  "### 3. Scaling"

section Walk

variable {P : String → Prop} (hP : ∀ s, IsComposed s → P s)
include hP

theorem isMadeOf_costsBySize (hsentence : a.scaling.costs = [] → P sentence) :
    ∀ b ∈ costsBySize a, b.IsMadeOf P := by
  simp only [costsBySize, List.forall_mem_cons]
  refine ⟨(isMadeOf_heading (by decide) (by decide)).mono hP, ?_, List.forall_mem_nil _⟩
  split_ifs with hcosts
  · exact ⟨startsProse_ofList (by decide), hsentence (List.isEmpty_iff.mp hcosts)⟩
  · exact (isMadeOf_costTable _).mono hP

theorem isMadeOf_scaling {s : Scaling} (htitle : s.points ≠ [] → P scalingTitle) :
    ∀ b ∈ scaling s, b.IsMadeOf P := by
  unfold scaling
  split_ifs with hpoints
  · exact List.forall_mem_nil _
  · simp only [List.forall_mem_append, List.forall_mem_cons, List.forall_mem_map]
    refine ⟨⟨⟨by decide, htitle fun hnil => hpoints (List.isEmpty_iff.mpr hnil)⟩,
      (isMadeOf_scalingTable s).mono hP, List.forall_mem_nil _⟩, fun o _ => ?_⟩
    exact (isMadeOf_optimumText o).mono hP

/-- **All blocks of a report are made of phrases and figures but for two.**  So they are made of
texts with any property that phrases and figures have, that joining keeps, and that these two have
where they stand in the report. -/
theorem isMadeOf_blocks (hsentence : a.scaling.costs = [] → P sentence)
    (htitle : a.scaling.points ≠ [] → P scalingTitle) :
    ∀ b ∈ blocks a date, b.IsMadeOf P := by
  have hcomposed {bs : List Block} (h : ∀ b ∈ bs, b.IsMadeOf IsComposed) :
      ∀ b ∈ bs, b.IsMadeOf P :=
    fun b hb => (h b hb).mono hP
  have hsummary := hcomposed (isMadeOf_summary a)
  have hmetrics := hcomposed (isMadeOf_coreMetrics a)
  have hcosts := isMadeOf_costsBySize hP hsentence
  have hrent := hcomposed (isMadeOf_rent a)
  have hefficiency := hcomposed (isMadeOf_efficiency a)
  have hscaling := isMadeOf_scaling hP htitle
  have hconclusions := hcomposed (isMadeOf_conclusions a)
  simp only [blocks, List.forall_mem_append, List.forall_mem_cons, and_assoc]
  refine ⟨?title, ?date, List.forall_mem_nil _, hsummary, hmetrics, hcosts, ?details,
    List.forall_mem_nil _, hrent, hefficiency, hscaling, hconclusions⟩
  case title => exact (isMadeOf_heading (by decide) (by decide)).mono hP
  case date => exact (isMadeOf_dateText date).mono hP
  case details => exact (isMadeOf_heading (by decide) (by decide)).mono hP

end Walk

/-! ## 4.  When the special texts stand in a report -/

theorem avoids_text {p : Char × Char} (hp : p ∈ distinctivePairs)
    (hsentence : a.scaling.costs = [] → Avoids p sentence.toList)
    (htitle : a.scaling.points ≠ [] → Avoids p scalingTitle.toList) :
    Avoids p (text a date).toList := by
  have hletters : ∀ p ∈ distinctivePairs, p.2.isAlpha = true := by
    decide
  exact avoids_textOf (hletters p hp)
    (isMadeOf_blocks (fun s hs => hs.avoids hp) hsentence htitle)

/-- **The sentence stands in a report if and only if its table of costs has no row.** -/
theorem contains_sentence_iff : Contains (text a date) sentence ↔ a.scaling.costs = [] := by
  constructor
  · intro hcontains
    by_contra hcosts
    have havoids : Avoids ('p', 'l') (text a date).toList :=
      avoids_text (by decide) (fun hnil => absurd hnil hcosts) fun _ => by decide
    exact havoids.not_contains (by decide) hcontains
  · intro hcosts
    have hblock : Block.paragraph sentence ∈ blocks a date := by
      simp [blocks, costsBySize, hcosts, sentence]
    exact contains_textOf hblock (List.mem_singleton_self sentence)

/-- **The heading stands in a report if and only if its scaling curve has a point.** -/
theorem contains_scalingHeading_iff :
    Contains (text a date) scalingHeading ↔ a.scaling.points ≠ [] := by
  constructor
  · rintro hcontains hpoints
    have havoids : Avoids ('S', 'c') (text a date).toList :=
      avoids_text (by decide) (fun _ => by decide) fun hne => absurd hpoints hne
    exact havoids.not_contains (by decide) hcontains
  · intro hpoints
    have hblock : Block.heading 3 scalingTitle ∈ blocks a date := by
      simp [blocks, scaling, Scaling.isEmpty, hpoints, scalingTitle]
    exact contains_textOf hblock (List.mem_singleton_self _)

end Report
end TransferCost
