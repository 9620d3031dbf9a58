import TransferCost.Json.Basic
import TransferCost.Json.Reading
import TransferCost.Proofs.Binary64.Finite
import TransferCost.Proofs.Decimal

/-!
# Numbers in a JSON text

A number is written digit by digit and read character by character.  This file says that the reader
gets back what the writer meant.

## 1.  A run of characters

`Digits.extend?` takes one character, and `Digits.extendAll?` a run of them.  A run of digits in
front of the point, behind it or in the exponent goes into one of the three parts of a number, and
in each of them the part becomes the number that the digits spell.

## 2.  The layouts of a decimal

A decimal may be written positionally with zeros behind it, with a point inside, with zeros in front
of it, or with an exponent.  In all four the characters are read as a number that may end there, and
`readBack` says which number this is.  Its value is that of the decimal.

## 3.  In a text

A number has no closing mark.  So what stands behind it must not extend it (`EndsNumber`), which
holds of blanks, commas and brackets.

## 4.  From a double to a double

`exists_numeral?` joins the three parts with the fact that the shortest decimal of a double is read
as that double.
-/

namespace TransferCost
namespace Json

open Decimal (digits zeros isDigit_of_mem_digits isDigit_of_mem_zeros)
open Decimal.Layout (sign leadingExponent)

/-! ## 1.  A run of characters -/

/-- The parts of a number with further characters, if all of them extend it. -/
def Digits.extendAll? (d : Digits) (p : Partial) : List Char → Option (Digits × Partial)
  | [] => some (d, p)
  | c :: rest =>
    match d.extend? p c with
    | some (d', p') => d'.extendAll? p' rest
    | none => none

namespace Digits

variable {d d' : Digits} {p p' : Partial} {c : Char} {cs ds rest : List Char}

theorem extendAll?_cons (h : d.extend? p c = some (d', p')) (rest : List Char) :
    d.extendAll? p (c :: rest) = d'.extendAll? p' rest := by
  rw [extendAll?, h]

/-- A run begins with a character that extends the number. -/
theorem extend?_of_extendAll?_cons (h : d.extendAll? p (c :: cs) = some (d', p')) :
    ∃ d₁ p₁, d.extend? p c = some (d₁, p₁) ∧ d₁.extendAll? p₁ cs = some (d', p') := by
  rw [extendAll?] at h
  cases hc : d.extend? p c with
  | none =>
    rw [hc] at h
    exact absurd h (by simp)
  | some next =>
    rw [hc] at h
    exact ⟨next.1, next.2, rfl, h⟩

theorem extendAll?_append (h : d.extendAll? p cs = some (d', p')) (rest : List Char) :
    d.extendAll? p (cs ++ rest) = d'.extendAll? p' rest := by
  induction cs generalizing d p with
  | nil =>
    obtain ⟨rfl, rfl⟩ := Prod.mk.inj (Option.some.inj h)
    rfl
  | cons c cs ih =>
    obtain ⟨d₁, p₁, hc, hcs⟩ := extend?_of_extendAll?_cons h
    rw [List.cons_append, extendAll?_cons hc, ih hcs]

theorem digitValue?_of_isDigit (h : c.isDigit = true) : digitValue? c = some (c.toNat - 48) := by
  rw [Char.isDigit, Bool.and_eq_true, decide_eq_true_eq, decide_eq_true_eq] at h
  exact if_pos h

/-- Digits in front of the point. -/
theorem extendAll?_whole (hds : ∀ c ∈ ds, c.isDigit = true) (p : Partial) :
    whole.extendAll? p ds =
      some (whole, { p with coefficient := Nat.ofDigitChars 10 ds p.coefficient }) := by
  induction ds generalizing p with
  | nil => rfl
  | cons c cs ih =>
    have hc := digitValue?_of_isDigit (hds c List.mem_cons_self)
    have hstep : whole.extend? p c =
        some (whole, { p with coefficient := 10 * p.coefficient + (c.toNat - 48) }) := by
      unfold extend?
      rw [hc]
    rw [extendAll?_cons hstep, ih fun c' hc' => hds c' (List.mem_cons_of_mem c hc')]
    rfl

/-- Digits behind the point. -/
theorem extendAll?_fraction (hds : ∀ c ∈ ds, c.isDigit = true) (p : Partial) :
    fraction.extendAll? p ds = some (fraction, { p with
      coefficient := Nat.ofDigitChars 10 ds p.coefficient
      places := p.places + ds.length }) := by
  induction ds generalizing p with
  | nil => rfl
  | cons c cs ih =>
    have hc := digitValue?_of_isDigit (hds c List.mem_cons_self)
    have hstep : fraction.extend? p c = some (fraction, { p with
        coefficient := 10 * p.coefficient + (c.toNat - 48)
        places := p.places + 1 }) := by
      unfold extend?
      rw [hc]
    have hlength : p.places + 1 + cs.length = p.places + (cs.length + 1) := by omega
    rw [extendAll?_cons hstep, ih fun c' hc' => hds c' (List.mem_cons_of_mem c hc'),
      List.length_cons, ← hlength]
    rfl

/-- Digits of the exponent. -/
theorem extendAll?_power (hds : ∀ c ∈ ds, c.isDigit = true) (p : Partial) :
    power.extendAll? p ds = some (power, { p with power := Nat.ofDigitChars 10 ds p.power }) := by
  induction ds generalizing p with
  | nil => rfl
  | cons c cs ih =>
    have hc := digitValue?_of_isDigit (hds c List.mem_cons_self)
    have hstep : power.extend? p c =
        some (power, { p with power := 10 * p.power + (c.toNat - 48) }) := by
      unfold extend?
      rw [hc]
    rw [extendAll?_cons hstep, ih fun c' hc' => hds c' (List.mem_cons_of_mem c hc')]
    rfl

/-- Before its first digit a part is read as behind it. -/
theorem extendAll?_congr (hds : ∀ c ∈ ds, c.isDigit = true) (hne : ds ≠ [])
    (h : ∀ c, c.isDigit = true → ds.head? = some c → d.extend? p c = d'.extend? p c) :
    d.extendAll? p ds = d'.extendAll? p ds := by
  cases ds with
  | nil => exact absurd rfl hne
  | cons c cs => rw [extendAll?, extendAll?, h c (hds c List.mem_cons_self) rfl]

/-- Digits behind the point, the first of them included. -/
theorem extendAll?_point (hds : ∀ c ∈ ds, c.isDigit = true) (hne : ds ≠ []) (p : Partial) :
    point.extendAll? p ds = some (fraction, { p with
      coefficient := Nat.ofDigitChars 10 ds p.coefficient
      places := p.places + ds.length }) := by
  rw [← extendAll?_fraction hds]
  apply extendAll?_congr hds hne
  intro c hc _
  unfold extend?
  rw [digitValue?_of_isDigit hc]

/-- Digits behind the sign of the exponent, the first of them included. -/
theorem extendAll?_markSign (hds : ∀ c ∈ ds, c.isDigit = true) (hne : ds ≠ []) (p : Partial) :
    markSign.extendAll? p ds =
      some (power, { p with power := Nat.ofDigitChars 10 ds p.power }) := by
  rw [← extendAll?_power hds]
  apply extendAll?_congr hds hne
  intro c hc _
  unfold extend?
  rw [digitValue?_of_isDigit hc]

/-- Digits of an exponent without a sign, the first of them included. -/
theorem extendAll?_mark (hds : ∀ c ∈ ds, c.isDigit = true) (hne : ds ≠ []) (p : Partial) :
    mark.extendAll? p ds = some (power, { p with power := Nat.ofDigitChars 10 ds p.power }) := by
  rw [← extendAll?_power hds]
  apply extendAll?_congr hds hne
  intro c hc _
  unfold extend?
  rw [digitValue?_of_isDigit hc]

theorem sub_ne_zero_of_isDigit (hc : c.isDigit = true) (hne : c ≠ '0') : c.toNat - 48 ≠ 0 := by
  intro h
  rw [Char.isDigit, Bool.and_eq_true, decide_eq_true_eq, decide_eq_true_eq] at hc
  have hge : 48 ≤ c.toNat := hc.1
  have hzero : ('0' : Char).toNat = 48 := rfl
  exact hne (Char.toNat_inj.mp (by omega))

/-- Digits in front of the point, the first of them included, if this is no zero. -/
theorem extendAll?_sign (hds : ∀ c ∈ ds, c.isDigit = true) (hne : ds ≠ [])
    (hhead : ds.head? ≠ some '0') (hp : p.coefficient = 0) :
    Digits.sign.extendAll? p ds =
      some (whole, { p with coefficient := Nat.ofDigitChars 10 ds 0 }) := by
  have hwhole := extendAll?_whole hds p
  rw [hp] at hwhole
  rw [← hwhole]
  apply extendAll?_congr hds hne
  intro c hc hfirst
  have hzero : c.toNat - 48 ≠ 0 := by
    refine sub_ne_zero_of_isDigit hc ?_
    rintro rfl
    exact hhead hfirst
  obtain ⟨n, hn⟩ := Nat.exists_eq_succ_of_ne_zero hzero
  unfold extend?
  rw [digitValue?_of_isDigit hc, hn]
  show some (whole, { p with coefficient := n + 1 }) =
    some (whole, { p with coefficient := 10 * p.coefficient + (n + 1) })
  rw [hp, Nat.mul_zero, Nat.zero_add]

end Digits

/-! ## 2.  The layouts of a decimal -/

/-- The characters spell this number, if its sign stands in front of them. -/
def Spells (cs : List Char) (n : Numeral) : Prop :=
  ∃ d p, Digits.sign.extendAll? { negative := n.negative } cs = some (d, p) ∧
    d.mayEnd = true ∧ p.numeral = n

section Layouts

variable (negative : Bool) {c : ℕ}

/-- The digits of a positive number, as the reader takes them. -/
theorem extendAll?_digits (hc : c ≠ 0) :
    Digits.sign.extendAll? { negative } (digits c) =
      some (.whole, { negative, coefficient := c }) := by
  have hhead := Decimal.head?_digits_ne (Nat.pos_of_ne_zero hc)
  rw [Digits.extendAll?_sign (fun _ h => isDigit_of_mem_digits h) (Decimal.digits_ne_nil c) hhead
    rfl, Decimal.ofDigitChars_digits]

/-- A whole number. -/
theorem spells_digits (n : ℕ) : Spells (digits n) ⟨negative, n, 0, true⟩ := by
  by_cases hn : n = 0
  · subst hn
    rw [Decimal.digits_zero]
    exact ⟨.zero, { negative }, rfl, rfl, rfl⟩
  · exact ⟨.whole, { negative, coefficient := n }, extendAll?_digits negative hn, rfl, rfl⟩

/-- Zeros behind the digits. -/
theorem spells_zeros_behind (hc : c ≠ 0) (k : ℕ) :
    Spells (digits c ++ zeros k ++ ['.', '0']) ⟨negative, c * 10 ^ (k + 1), -1, false⟩ := by
  refine ⟨.fraction,
    { negative, coefficient := 10 * (10 ^ k * c) + 0, places := 1, isWhole := false }, ?_, rfl, ?_⟩
  · rw [List.append_assoc, Digits.extendAll?_append (extendAll?_digits negative hc),
      Digits.extendAll?_append (Digits.extendAll?_whole (fun _ h => isDigit_of_mem_zeros h) _),
      Decimal.ofDigitChars_zeros]
    rfl
  · have hcoefficient : 10 * (10 ^ k * c) + 0 = c * 10 ^ (k + 1) := by ring
    rw [hcoefficient]
    rfl

/-- A point between the digits. -/
theorem spells_point_inside (hc : c ≠ 0) {places : ℕ} (hpos : 0 < places)
    (hlt : places < (digits c).length) :
    Spells ((digits c).take ((digits c).length - places) ++
      '.' :: (digits c).drop ((digits c).length - places)) ⟨negative, c, -places, false⟩ := by
  generalize hk : (digits c).length - places = k
  have htake : ∀ c' ∈ (digits c).take k, c'.isDigit = true := by
    intro c' hc'
    exact isDigit_of_mem_digits (List.mem_of_mem_take hc')
  have hdrop : ∀ c' ∈ (digits c).drop k, c'.isDigit = true := by
    intro c' hc'
    exact isDigit_of_mem_digits (List.mem_of_mem_drop hc')
  have hnil : (digits c).take k ≠ [] := by
    rw [ne_eq, List.take_eq_nil_iff, not_or]
    exact ⟨by omega, Decimal.digits_ne_nil c⟩
  have hhead : ((digits c).take k).head? ≠ some '0' := by
    rw [List.head?_take, if_neg (by omega)]
    exact Decimal.head?_digits_ne (Nat.pos_of_ne_zero hc)
  have hlength : ((digits c).drop k).length = places := by
    rw [List.length_drop]
    omega
  have hnil' : (digits c).drop k ≠ [] := by
    rw [← List.length_pos_iff, hlength]
    exact hpos
  have hspelled : Nat.ofDigitChars 10 ((digits c).drop k)
      (Nat.ofDigitChars 10 ((digits c).take k) 0) = c := by
    rw [← Nat.ofDigitChars_append, List.take_append_drop, Decimal.ofDigitChars_digits]
  refine ⟨.fraction, { negative, coefficient := c, places, isWhole := false }, ?_, rfl, ?_⟩
  · rw [Digits.extendAll?_append (Digits.extendAll?_sign htake hnil hhead rfl),
      Digits.extendAll?_cons rfl, Digits.extendAll?_point hdrop hnil', hlength, hspelled,
      Nat.zero_add]
  · simp [Partial.numeral]

/-- Zeros in front of the digits. -/
theorem spells_zeros_before (c k : ℕ) :
    Spells ('0' :: '.' :: zeros k ++ digits c)
      ⟨negative, c, -((k + (digits c).length : ℕ) : ℤ), false⟩ := by
  have hdigits : ∀ c' ∈ zeros k ++ digits c, c'.isDigit = true := by
    intro c' hc'
    rcases List.mem_append.mp hc' with hzero | hdigit
    · exact isDigit_of_mem_zeros hzero
    · exact isDigit_of_mem_digits hdigit
  have hnil : zeros k ++ digits c ≠ [] :=
    List.append_ne_nil_of_right_ne_nil _ (Decimal.digits_ne_nil c)
  refine ⟨.fraction,
    { negative, coefficient := c, places := k + (digits c).length, isWhole := false }, ?_, rfl, ?_⟩
  · show Digits.sign.extendAll? _ ('0' :: '.' :: (zeros k ++ digits c)) = _
    rw [Digits.extendAll?_cons rfl, Digits.extendAll?_cons rfl,
      Digits.extendAll?_point hdigits hnil, Nat.ofDigitChars_append, Decimal.ofDigitChars_zeros,
      Nat.mul_zero, Decimal.ofDigitChars_digits, List.length_append, Decimal.length_zeros,
      Nat.zero_add]
  · simp [Partial.numeral]

/-- The sign and the digits of a power of ten, in any layout. -/
theorem extendAll?_exponentText (l : Decimal.Layout) (p : Partial) (hp : p.power = 0)
    (hsign : p.powerNegative = false) (n : ℤ) :
    Digits.mark.extendAll? p (l.exponentText n) =
      some (.power, { p with power := n.natAbs, powerNegative := decide (n < 0) }) := by
  have hdigits : ∀ c' ∈ digits n.natAbs, c'.isDigit = true := fun _ h => isDigit_of_mem_digits h
  have hnil := Decimal.digits_ne_nil n.natAbs
  unfold Decimal.Layout.exponentText
  by_cases hn : n < 0
  · rw [if_pos hn, Digits.extendAll?_cons rfl, Digits.extendAll?_markSign hdigits hnil,
      decide_eq_true hn]
    simp only [hp, Decimal.ofDigitChars_digits]
  · by_cases hplus : l.signsExponent = true
    · rw [if_neg hn, if_pos hplus, Digits.extendAll?_cons rfl,
        Digits.extendAll?_markSign hdigits hnil, decide_eq_false hn]
      simp only [hp, hsign, Decimal.ofDigitChars_digits]
    · rw [if_neg hn, if_neg hplus, Digits.extendAll?_mark hdigits hnil, decide_eq_false hn]
      simp only [hp, ← hsign, Decimal.ofDigitChars_digits]

theorem ite_natAbs (n : ℤ) : (if decide (n < 0) = true then -(n.natAbs : ℤ) else n.natAbs) = n := by
  by_cases hn : n < 0
  · rw [if_pos (decide_eq_true hn)]
    omega
  · rw [if_neg (by simpa using hn)]
    omega

/-- An exponent behind the digits, in any layout. -/
theorem spells_scientific (l : Decimal.Layout) {d : Decimal} (hd : d.coefficient ≠ 0) :
    Spells (l.scientific d) ⟨negative, d.coefficient, d.exponent, false⟩ := by
  have hlead : leadingExponent d = (digits d.coefficient).length - 1 + d.exponent := rfl
  have hall : ∀ c ∈ digits d.coefficient, c.isDigit = true := fun _ h => isDigit_of_mem_digits h
  have hhead := Decimal.head?_digits_ne (Nat.pos_of_ne_zero hd)
  have hwhole := extendAll?_digits negative hd
  have hspelled := Decimal.ofDigitChars_digits d.coefficient
  unfold Decimal.Layout.scientific
  generalize leadingExponent d = n at hlead ⊢
  generalize digits d.coefficient = ds at hlead hall hhead hwhole hspelled ⊢
  match ds with
  | [] => exact absurd hwhole (by simp [Digits.extendAll?])
  | [first] =>
    refine ⟨.power, ⟨negative, d.coefficient, 0, decide (n < 0), n.natAbs, false⟩, ?_, rfl, ?_⟩
    · rw [Digits.extendAll?_append hwhole, Digits.extendAll?_cons rfl,
        extendAll?_exponentText l _ rfl rfl]
    · simp only [List.length_singleton] at hlead
      simp only [Partial.numeral, ite_natAbs, Numeral.mk.injEq, true_and, and_true]
      omega
  | first :: second :: rest =>
    have hone : ∀ c ∈ [first], c.isDigit = true := by
      intro c hc
      rw [List.mem_singleton.mp hc]
      exact hall first List.mem_cons_self
    have hfirst : Digits.sign.extendAll? { negative } [first] =
        some (.whole, { negative, coefficient := Nat.ofDigitChars 10 [first] 0 }) :=
      Digits.extendAll?_sign hone (by simp) hhead rfl
    have htail : ∀ c ∈ second :: rest, c.isDigit = true := by
      intro c hc
      exact hall c (List.mem_cons_of_mem first hc)
    rw [← List.singleton_append, Nat.ofDigitChars_append] at hspelled
    refine ⟨.power, ⟨negative, d.coefficient, (second :: rest).length, decide (n < 0), n.natAbs,
      false⟩, ?_, rfl, ?_⟩
    · show Digits.sign.extendAll? _ ([first] ++ '.' :: ((second :: rest) ++ 'e' :: _)) = _
      rw [Digits.extendAll?_append hfirst, Digits.extendAll?_cons rfl,
        Digits.extendAll?_append (Digits.extendAll?_point htail (by simp) _), hspelled,
        Digits.extendAll?_cons rfl, extendAll?_exponentText l _ rfl rfl, Nat.zero_add]
    · simp only [List.length_cons] at hlead
      simp only [Partial.numeral, ite_natAbs, Numeral.mk.injEq, true_and, and_true,
        List.length_cons]
      omega

/-- The number that is read where a decimal was written.  Behind a whole number stand the zeros of
its power of ten, and one more behind the point. -/
def readBack (d : Decimal) : Numeral :=
  if numberLayout.isPositional (leadingExponent d) = true ∧ 0 ≤ d.exponent then
    ⟨negative, d.coefficient * 10 ^ (d.exponent.toNat + 1), -1, false⟩
  else ⟨negative, d.coefficient, d.exponent, false⟩

/-- **A decimal is written as the number `readBack` says.** -/
theorem spells_magnitude {d : Decimal} (hd : d.coefficient ≠ 0 ∨ d = ⟨0, 0⟩) :
    Spells (numberLayout.magnitude d) (readBack negative d) := by
  rcases hd with hd | rfl
  · unfold Decimal.Layout.magnitude readBack
    by_cases hpositional : numberLayout.isPositional (leadingExponent d) = true
    · rw [if_pos hpositional]
      unfold Decimal.Layout.positional
      dsimp only
      by_cases hexp : 0 ≤ d.exponent
      · have hboth : numberLayout.isPositional (leadingExponent d) = true ∧ 0 ≤ d.exponent :=
          ⟨hpositional, hexp⟩
        have hpoint : numberLayout.keepsPoint = true := rfl
        rw [if_pos hboth, if_pos hexp, if_pos hpoint]
        exact spells_zeros_behind negative hd d.exponent.toNat
      · have hnot : ¬ (numberLayout.isPositional (leadingExponent d) = true ∧ 0 ≤ d.exponent) := by
          intro h
          exact hexp h.2
        rw [if_neg hnot, if_neg hexp]
        have hplaces : d.exponent = -((-d.exponent).toNat : ℤ) := by omega
        split_ifs with hlt
        · have h := spells_point_inside negative hd (by omega) hlt
          rwa [← hplaces] at h
        · have h := spells_zeros_before negative d.coefficient
            ((-d.exponent).toNat - (digits d.coefficient).length)
          rwa [Nat.sub_add_cancel (not_lt.mp hlt), ← hplaces] at h
    · have hnot : ¬ (numberLayout.isPositional (leadingExponent d) = true ∧ 0 ≤ d.exponent) := by
        intro h
        exact hpositional h.1
      rw [if_neg hpositional, if_neg hnot]
      exact spells_scientific negative numberLayout hd
  · -- a zero is written as it is read, and has no further digits
    exact ⟨.fraction, { negative, places := 1, isWhole := false }, rfl, rfl, rfl⟩

@[simp] theorem negative_readBack (d : Decimal) : (readBack negative d).negative = negative := by
  unfold readBack
  split_ifs <;> rfl

/-- The number has the value of the decimal. -/
theorem toRat_readBack (d : Decimal) :
    Decimal.toRat ⟨(readBack negative d).coefficient, (readBack negative d).exponent⟩ =
      d.toRat := by
  unfold readBack
  split_ifs with h
  · have hexp : d.exponent = (d.exponent.toNat : ℤ) := by omega
    unfold Decimal.toRat
    dsimp only
    rw [hexp, zpow_natCast, Int.toNat_natCast, zpow_neg_one]
    push_cast
    ring
  · rfl

end Layouts

/-! ## 3.  In a text -/

/-- No number goes on in this text. -/
def EndsNumber (rest : List Char) : Prop :=
  ∀ c ∈ rest.head?, digitValue? c = none ∧ c ≠ '.' ∧ c ≠ 'e' ∧ c ≠ 'E'

section Text

variable {d d' : Digits} {p p' : Partial} {c : Char} {cs rest : List Char}

theorem endsNumber_nil : EndsNumber [] := by
  intro c hc
  exact absurd hc (by simp)

theorem endsNumber_cons (h : digitValue? c = none ∧ c ≠ '.' ∧ c ≠ 'e' ∧ c ≠ 'E')
    (rest : List Char) : EndsNumber (c :: rest) := by
  intro c' hc'
  rw [List.head?_cons, Option.mem_some_iff] at hc'
  exact hc' ▸ h

theorem scanFrom_number (h : d.extendAll? p cs = some (d', p')) (rest : List Char) :
    scanFrom [] (.number d p) (cs ++ rest) = scanFrom [] (.number d' p') rest := by
  induction cs generalizing d p with
  | nil =>
    obtain ⟨rfl, rfl⟩ := Prod.mk.inj (Option.some.inj h)
    rfl
  | cons c cs ih =>
    obtain ⟨d₁, p₁, hc, hcs⟩ := Digits.extend?_of_extendAll?_cons h
    rw [List.cons_append, scanFrom_cons, State.step, hc, List.nil_append]
    exact ih hcs

/-- A number ends where nothing extends it, and the text is read on from there. -/
theorem scanFrom_numberEnd (hd : d.mayEnd = true) (p : Partial) (hrest : EndsNumber rest) :
    scanFrom [] (.number d p) rest = .number p.numeral :: scanFrom [] .between rest := by
  cases rest with
  | nil => simp [scanFrom, State.finish, hd]
  | cons c cs =>
    obtain ⟨hdigit, hpoint, he, hE⟩ := hrest c rfl
    have hstop : d.extend? p c = none := by
      unfold Digits.extend?
      rw [hdigit]
      cases d <;> simp_all [Digits.mayEnd]
    have hstep : (State.number d p).step c cs =
        (.number p.numeral :: (begin c).1, (begin c).2) := by
      rw [State.step, hstop]
      exact if_pos ⟨hd, by rw [hdigit]; rfl⟩
    rw [scanFrom_cons, hstep, scanFrom_cons, State.step, List.cons_append]

theorem begin_of_extend? (h : Digits.sign.extend? {} c = some (d, p)) :
    begin c = ([], .number d p) := by
  unfold begin
  split_ifs with hblank
  · simp only [isBlank, Bool.or_eq_true, decide_eq_true_eq] at hblank
    rcases hblank with ((rfl | rfl) | rfl) | rfl <;> cases (h : none = some (d, p))
  · split
    all_goals first | rw [h] | cases (h : none = some (d, p))

/-- **A spelled number is read, with the sign in front of it.** -/
theorem scanFrom_spelled {n : Numeral} (h : Spells cs n) (hrest : EndsNumber rest) :
    scanFrom [] .between (sign n.negative ++ cs ++ rest) =
      .number n :: scanFrom [] .between rest := by
  obtain ⟨d, p, hcs, hd, rfl⟩ := h
  have hend := scanFrom_number hcs rest
  rw [scanFrom_numberEnd hd p hrest] at hend
  rw [← hend, List.append_assoc]
  cases hnegative : p.numeral.negative with
  | true =>
    show scanFrom [] .between ('-' :: (cs ++ rest)) = _
    rw [scanFrom_cons]
    rfl
  | false =>
    -- without a sign the first digit itself begins the number
    cases cs with
    | nil =>
      obtain ⟨rfl, -⟩ := Prod.mk.inj (Option.some.inj hcs)
      exact absurd hd (by decide)
    | cons c cs =>
      rw [hnegative] at hcs
      obtain ⟨d₁, p₁, hc, -⟩ := Digits.extend?_of_extendAll?_cons hcs
      show scanFrom [] .between (c :: (cs ++ rest)) =
        scanFrom [] (.number .sign {}) (c :: (cs ++ rest))
      rw [scanFrom_cons, scanFrom_cons, State.step, begin_of_extend? hc, State.step, hc]

/-- A count. -/
theorem scanFrom_count (n : ℕ) (hrest : EndsNumber rest) :
    scanFrom [] .between (digits n ++ rest) =
      .number ⟨false, n, 0, true⟩ :: scanFrom [] .between rest :=
  scanFrom_spelled (spells_digits false n) hrest

theorem scanFrom_null (rest : List Char) :
    scanFrom [] .between (['n', 'u', 'l', 'l'] ++ rest) = .null :: scanFrom [] .between rest := by
  simp [scanFrom_cons, State.step, begin, isBlank]

end Text

/-! ## 4.  From a double to a double -/

open Binary64 (value)

/-- The number that a quantity is written as, if it is finite. -/
def numeral? (x : Float) : Option Numeral :=
  match value x with
  | .finite negative m q =>
    some (readBack negative (Decimal.unsigned numberLayout.tie x negative m q))
  | _ => none

/-- The token that a quantity is written as. -/
def quantityToken (x : Float) : Token :=
  match numeral? x with
  | some n => .number n
  | none => .null

/-- **A quantity is read as the number that it is written as.** -/
theorem scanFrom_quantity (x : Float) {rest : List Char} (hrest : EndsNumber rest) :
    scanFrom [] .between (quantity x ++ rest) = quantityToken x :: scanFrom [] .between rest := by
  unfold quantity quantityToken numeral?
  by_cases hx : x.isFinite = true
  · obtain ⟨negative, m, q, hvalue⟩ := Binary64.isFinite_iff.mp hx
    have hspells := spells_magnitude negative (Decimal.unsigned_normal numberLayout.tie hvalue)
    have hscan := scanFrom_spelled hspells hrest
    rw [negative_readBack] at hscan
    rw [if_pos hx, Decimal.Layout.chars, hvalue]
    exact hscan
  · have hnone : ∀ negative m q, value x ≠ .finite negative m q := by
      intro negative m q hvalue
      exact hx (Binary64.isFinite_iff.mpr ⟨negative, m, q, hvalue⟩)
    rw [if_neg hx, scanFrom_null]
    cases hvalue : value x with
    | notANumber => rfl
    | infinite negative => rfl
    | finite negative m q => exact absurd hvalue (hnone negative m q)

theorem isInf_eq_false {x : Float} (hx : x.isFinite = true) : x.isInf = false := by
  have hfinite : x.toModel.unpack.isFinite = true := hx
  show x.toModel.unpack.isInf = false
  cases hu : x.toModel.unpack with
  | infinity s =>
    rw [hu] at hfinite
    exact absurd hfinite Bool.false_ne_true
  | notANumber => rfl
  | zero s => rfl
  | finite s m e hm => rfl

/-- **A finite double is written as a number that is read as this double**, a negative zero
included. -/
theorem exists_numeral? {x : Float} (hx : x.isFinite = true) :
    ∃ n, numeral? x = some n ∧ n.toFloat? = some x := by
  obtain ⟨negative, m, q, hvalue⟩ := Binary64.isFinite_iff.mp hx
  refine ⟨readBack negative (Decimal.unsigned numberLayout.tie x negative m q), ?_, ?_⟩
  · rw [numeral?, hvalue]
  · have hread := Decimal.toFloat_eq_of_toRat_eq
      (toRat_readBack negative (Decimal.unsigned numberLayout.tie x negative m q))
    rw [Decimal.toFloat_unsigned numberLayout.tie hvalue] at hread
    have hfinite : (Binary64.signed negative x).isFinite = true :=
      Binary64.isFinite_iff.mpr ⟨_, _, _, Decimal.value_signed hvalue⟩
    unfold Numeral.toFloat?
    dsimp only
    rw [hread, negative_readBack, isInf_eq_false hfinite]
    cases negative with
    | false => rfl
    | true => exact congrArg some (Binary64.float_neg_neg x)

end Json
end TransferCost
