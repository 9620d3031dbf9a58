import TransferCost.Figure
import TransferCost.Proofs.Spelling

/-!
# The characters of figures

Nobody knows the digits of the figures in a report beforehand.  But few characters occur in them:
digits, signs, the letters of the numbers that have no digits, and the units.

## 1.  Numbers

`IsNumberChar` lists the characters of numbers.  The functions that write a number are followed step
by step, down to the digits.

## 2.  Figures

`IsFigure` adds the characters of the units.  It is kept by joining, so there is one lemma for each
kind of figure.  The slash is not among the characters, so `n/a` is told from every figure:
`Figure.orNotAvailable_eq_iff`.
-/

namespace TransferCost

/-! ## 1.  Numbers -/

/-- The characters of numbers besides the digits. -/
def signs : List Char :=
  ['+', '-', '.', ',', 'N', 'a', 'i', 'n', 'f']

/-- The character may stand in a number. -/
def IsNumberChar (c : Char) : Prop :=
  c.isDigit = true ∨ c ∈ signs

instance (c : Char) : Decidable (IsNumberChar c) :=
  inferInstanceAs (Decidable (_ ∨ _))

section Numbers

variable {c : Char} {cs : List Char}

namespace Decimal

theorem isNumberChar_of_mem_fixedMagnitude {places n : ℕ} (hc : c ∈ fixedMagnitude places n) :
    IsNumberChar c := by
  unfold fixedMagnitude at hc
  rcases List.mem_append.mp hc with hc | hc
  · exact .inl (isDigit_of_mem_digits hc)
  · split_ifs at hc with hplaces
    · exact absurd hc List.not_mem_nil
    · rw [List.cons_append, List.mem_cons, List.mem_append] at hc
      rcases hc with rfl | hc | hc
      · exact .inr (by decide)
      · exact .inl (isDigit_of_mem_zeros hc)
      · exact .inl (isDigit_of_mem_digits hc)

theorem isNumberChar_of_mem_sign {style : SignStyle} {negative : Bool}
    (hc : c ∈ style.text negative) : IsNumberChar c := by
  have hsigns : ∀ d ∈ style.text negative, d ∈ signs := by
    cases style <;> cases negative <;> simp [SignStyle.text, signs]
  exact .inr (hsigns c hc)

theorem isNumberChar_of_mem_fixedChars {style : SignStyle} {places : ℕ} {x : Float}
    (hc : c ∈ fixedChars style places x) : IsNumberChar c := by
  unfold fixedChars at hc
  split at hc
  · have hsigns : ∀ d ∈ ['N', 'a', 'N'], d ∈ signs := by
      simp [signs]
    exact .inr (hsigns c hc)
  · have hsigns : ∀ d ∈ ['i', 'n', 'f'], d ∈ signs := by
      simp [signs]
    rcases List.mem_append.mp hc with hc | hc
    · exact isNumberChar_of_mem_sign hc
    · exact .inr (hsigns c hc)
  · rcases List.mem_append.mp hc with hc | hc
    · exact isNumberChar_of_mem_sign hc
    · exact isNumberChar_of_mem_fixedMagnitude hc

theorem mem_of_mem_grouped (hc : c ∈ grouped cs) : c ∈ cs ∨ c = ',' := by
  induction cs with
  | nil => exact .inl hc
  | cons d rest ih =>
    unfold grouped at hc
    split_ifs at hc with hcomma
    · rw [List.mem_cons, List.mem_cons] at hc
      rcases hc with rfl | rfl | hc
      · exact .inl List.mem_cons_self
      · exact .inr rfl
      · exact (ih hc).imp_left (List.mem_cons_of_mem d)
    · rw [List.mem_cons] at hc
      rcases hc with rfl | hc
      · exact .inl List.mem_cons_self
      · exact (ih hc).imp_left (List.mem_cons_of_mem d)

end Decimal

theorem Figure.isNumberChar_of_mem_subunitChars {x : Float} (hc : c ∈ subunitChars x) :
    IsNumberChar c := by
  unfold subunitChars at hc
  rcases List.mem_append.mp hc with hc | hc
  · split_ifs at hc
    · rw [List.mem_singleton.mp hc]
      exact .inr (by decide)
    · exact absurd hc List.not_mem_nil
  · rcases Decimal.mem_of_mem_grouped hc with hc | rfl
    · exact Decimal.isNumberChar_of_mem_fixedChars hc
    · exact .inr (by decide)

end Numbers

/-! ## 2.  Figures -/

/-- The characters of the units behind a figure. -/
def unitChars : List Char :=
  [' ', '%', 'p', 's', 'u', 'b', 'n', 'i', 't']

/-- The text is made of the characters of numbers and of units. -/
def IsFigure (s : String) : Prop :=
  ∀ c ∈ s.toList, IsNumberChar c ∨ c ∈ unitChars

namespace IsFigure

variable {s t : String} {cs : List Char}

theorem append (hs : IsFigure s) (ht : IsFigure t) : IsFigure (s ++ t) := by
  intro c hc
  rw [String.toList_append, List.mem_append] at hc
  exact hc.elim (hs c) (ht c)

theorem of_chars (h : ∀ c ∈ cs, IsNumberChar c) : IsFigure (String.ofList cs) := by
  intro c hc
  rw [String.toList_ofList] at hc
  exact .inl (h c hc)

theorem of_unit (h : cs ⊆ unitChars) : IsFigure (String.ofList cs) := by
  intro c hc
  rw [String.toList_ofList] at hc
  exact .inr (h hc)

/-- What is no character of a number or of a unit is in no figure. -/
theorem not_mem (h : IsFigure s) {c : Char} (hc : ¬ (IsNumberChar c ∨ c ∈ unitChars)) :
    c ∉ s.toList :=
  fun hmem => hc (h c hmem)

end IsFigure

namespace Figure

open Decimal

theorem isFigure_fixed (places : ℕ) (x : Float) : IsFigure (fixed places x) :=
  .of_chars fun _ => isNumberChar_of_mem_fixedChars

theorem isFigure_fixedSigned (places : ℕ) (x : Float) : IsFigure (fixedSigned places x) :=
  .of_chars fun _ => isNumberChar_of_mem_fixedChars

theorem isFigure_percentage (x : Float) : IsFigure (percentage x) :=
  (isFigure_fixed 1 x).append (.of_unit (by decide))

theorem isFigure_change (x : Float) : IsFigure (change x) :=
  (isFigure_fixedSigned 1 _).append (.of_unit (by decide))

theorem isFigure_points (x : Float) : IsFigure (points x) :=
  (isFigure_fixedSigned 1 x).append (.of_unit (by decide))

theorem isFigure_amount (x : Float) : IsFigure (amount x) :=
  (IsFigure.of_chars fun _ => isNumberChar_of_mem_subunitChars).append (.of_unit (by decide))

theorem isFigure_units (x : Float) : IsFigure (units x) :=
  (isFigure_fixed 2 x).append (.of_unit (by decide))

/-- **A figure is told from a missing one.** -/
theorem orNotAvailable_eq_iff {α : Type} {figure : α → String} (h : ∀ a, IsFigure (figure a))
    {a? : Option α} : orNotAvailable figure a? = notAvailable ↔ a? = none := by
  cases a? with
  | none => exact iff_of_true rfl rfl
  | some a =>
    refine iff_of_false (fun heq => ?_) nofun
    have hslash : '/' ∈ (figure a).toList := by
      rw [show figure a = notAvailable from heq]
      decide
    exact (h a).not_mem (by decide) hslash

end Figure

namespace Date

theorem isFigure_padded (width n : ℕ) : IsFigure (String.ofList (padded width n)) :=
  .of_chars fun _ hc => .inl (isDigit_of_mem_padded hc)

theorem isFigure_yearText (y : ℤ) : IsFigure (String.ofList (yearText y)) := by
  refine .of_chars ?_
  unfold yearText
  split_ifs
  · exact fun _ hc => .inl (isDigit_of_mem_padded hc)
  · exact List.forall_mem_cons.mpr ⟨.inr (by decide), fun _ hc => .inl (isDigit_of_mem_padded hc)⟩
  · exact List.forall_mem_cons.mpr ⟨.inr (by decide), fun _ hc => .inl (isDigit_of_mem_padded hc)⟩

end Date
end TransferCost
