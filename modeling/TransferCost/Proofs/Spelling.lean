import TransferCost.ResultDocument
import TransferCost.Proofs.Decimal

/-!
# Times and names of runs are read back

A result document holds two texts that spell something else: the time at which it was written and
the name of its run.  Both readers take many more spellings than the writers use.  This file follows
the one spelling that is written, and shows that it is read as what it was written for.

## 1.  Padded numbers

The numbers of a date are padded with zeros to a fixed width.  A reader takes digits as long as
there are any, up to its own width.  So what stands behind a number must not begin with a digit
(`EndsDigits`), and it never does: a mark or a letter stands behind every number.

## 2.  Points in time

`Timestamp.IsValid` says that the parts of a point in time are in range.  A leap second is written
as the second 60, and only the last second of a minute can be one: `Timestamp.ofString?_text`.

## 3.  Names of runs

All names are read back: `RunId.ofString?_text`.
-/

namespace TransferCost

open Decimal (digits zeros)

/-! ## 1.  Padded numbers -/

section Padded

variable {c : Char} {cs ds rest : List Char} {width n : ℕ}

/-- A text that does not begin with a digit. -/
def EndsDigits (rest : List Char) : Prop :=
  ∀ c ∈ rest.head?, c.isDigit = false

theorem endsDigits_cons (h : c.isDigit = false) (rest : List Char) : EndsDigits (c :: rest) := by
  intro c' hc'
  rw [List.head?_cons, Option.mem_some_iff] at hc'
  exact hc' ▸ h

theorem takeWhile_isDigit_append (hds : ∀ c ∈ ds, c.isDigit = true) (hrest : EndsDigits rest) :
    (ds ++ rest).takeWhile Char.isDigit = ds := by
  have hnone : rest.takeWhile Char.isDigit = [] := by
    cases rest with
    | nil => rfl
    | cons c rest => exact List.takeWhile_cons_of_neg (by simp [hrest c rfl])
  rw [List.takeWhile_append_of_pos hds, hnone, List.append_nil]

namespace Date

theorem isDigit_of_mem_padded (hc : c ∈ padded width n) : c.isDigit = true := by
  rcases List.mem_append.mp hc with hc | hc
  · exact Decimal.isDigit_of_mem_zeros hc
  · exact Decimal.isDigit_of_mem_digits hc

theorem daysIn_le (year : ℤ) (month : ℕ) : daysIn year month ≤ 31 := by
  unfold daysIn
  split
  · split_ifs <;> norm_num
  all_goals norm_num

theorem padded_ne_nil (width n : ℕ) : padded width n ≠ [] :=
  List.append_ne_nil_of_right_ne_nil _ (Decimal.digits_ne_nil n)

/-- The zeros in front do not count. -/
theorem ofDigitChars_padded (width n : ℕ) : Nat.ofDigitChars 10 (padded width n) 0 = n := by
  rw [padded, Nat.ofDigitChars_append, Decimal.ofDigitChars_zeros, Nat.mul_zero,
    Decimal.ofDigitChars_digits]

theorem length_padded (hwidth : 0 < width) (hn : n < 10 ^ width) :
    (padded width n).length = width := by
  have hdigits : (digits n).length ≤ width :=
    (Nat.length_toDigits_le_iff (by norm_num) hwidth).mpr hn
  rw [padded, List.length_append, Decimal.length_zeros]
  omega

/-- A padded number begins with a digit. -/
theorem exists_padded (width n : ℕ) : ∃ c cs, padded width n = c :: cs ∧ c.isDigit = true := by
  obtain ⟨c, cs, h⟩ := List.exists_cons_of_ne_nil (padded_ne_nil width n)
  have hmem : c ∈ padded width n := h ▸ List.mem_cons_self
  exact ⟨c, cs, h, isDigit_of_mem_padded hmem⟩

end Date

theorem isBlank_of_isDigit (h : c.isDigit = true) : Text.isBlank c = false := by
  rw [Char.isDigit, Bool.and_eq_true, decide_eq_true_eq, decide_eq_true_eq] at h
  have hlow : 48 ≤ c.toNat := h.1
  have hhigh : c.toNat ≤ 57 := h.2
  simp only [Text.isBlank, Bool.or_eq_false_iff, Bool.and_eq_false_iff, decide_eq_false_iff_not]
  omega

theorem skipBlanks_cons (h : Text.isBlank c = false) (rest : List Char) :
    Text.skipBlanks (c :: rest) = c :: rest :=
  List.dropWhile_cons_of_neg (by simp [h])

namespace Timestamp

open Date (padded)

/-- **A number is read as far as its digits go**, if the reader takes as many. -/
theorem number_append (hds : ∀ c ∈ ds, c.isDigit = true) (hne : ds ≠ []) (hlen : ds.length ≤ width)
    (hrest : EndsDigits rest) :
    number width (ds ++ rest) = some (Nat.ofDigitChars 10 ds 0, rest) := by
  rw [number, takeWhile_isDigit_append hds hrest, List.take_of_length_le hlen]
  simp only [if_neg hne, List.drop_left]
  rfl

theorem number_padded (hwidth : 0 < width) (hn : n < 10 ^ width) (hrest : EndsDigits rest) :
    number width (padded width n ++ rest) = some (n, rest) := by
  rw [number_append (fun c => Date.isDigit_of_mem_padded) (Date.padded_ne_nil width n)
    (Date.length_padded hwidth hn).le hrest, Date.ofDigitChars_padded]

theorem component_padded (hn : n < 100) (hrest : EndsDigits rest) :
    component (padded 2 n ++ rest) = some (n, rest) := by
  obtain ⟨c, cs, h, hc⟩ := Date.exists_padded 2 n
  have hskip : Text.skipBlanks (padded 2 n ++ rest) = padded 2 n ++ rest := by
    rw [h, List.cons_append, skipBlanks_cons (isBlank_of_isDigit hc)]
  rw [component, hskip, number_padded (by norm_num) hn hrest]

theorem separator_cons (h : Text.isBlank c = false) (rest : List Char) :
    separator c (c :: rest) = some ((), rest) := by
  rw [separator, skipBlanks_cons h]
  exact if_pos rfl

/-- A signed number is read with all its digits. -/
theorem number_signed (hrest : EndsDigits rest) :
    number (padded 4 n ++ rest).length (padded 4 n ++ rest) = some (n, rest) := by
  rw [number_append (fun c => Date.isDigit_of_mem_padded) (Date.padded_ne_nil 4 n) (by simp) hrest,
    Date.ofDigitChars_padded]

theorem year_minus (rest : List Char) :
    year ('-' :: rest) = (number rest.length rest).map fun r => (-(r.1 : ℤ), r.2) :=
  rfl

theorem year_plus (rest : List Char) :
    year ('+' :: rest) = (number rest.length rest).map fun r => ((r.1 : ℤ), r.2) :=
  rfl

theorem year_digit (hc : c.isDigit = true) (rest : List Char) :
    year (c :: rest) = (number 4 (c :: rest)).map fun r => ((r.1 : ℤ), r.2) := by
  unfold year
  rw [skipBlanks_cons (isBlank_of_isDigit hc)]
  split
  · simp_all
  · simp_all
  · rfl

/-- **Every year is read back**, with or without a sign. -/
theorem year_yearText (y : ℤ) (hrest : EndsDigits rest) :
    year (Date.yearText y ++ rest) = some (y, rest) := by
  unfold Date.yearText
  split_ifs with hplain hneg
  · rw [Bool.and_eq_true, decide_eq_true_eq, decide_eq_true_eq] at hplain
    obtain ⟨c, cs, h, hc⟩ := Date.exists_padded 4 y.toNat
    have hnumber : number 4 (padded 4 y.toNat ++ rest) = some (y.toNat, rest) :=
      number_padded (by norm_num) (by omega) hrest
    rw [h, List.cons_append] at hnumber ⊢
    rw [year_digit hc, hnumber, Option.map_some, Int.toNat_of_nonneg hplain.1]
  · have habs : -(y.natAbs : ℤ) = y := by omega
    rw [List.cons_append, year_minus, number_signed hrest, Option.map_some, habs]
  · have habs : (y.natAbs : ℤ) = y := by omega
    rw [List.cons_append, year_plus, number_signed hrest, Option.map_some, habs]

/-- The digits of a fraction are read as nanoseconds. -/
theorem nanosecond_padded (hwidth : 0 < width) (hle : width ≤ 9) (hn : n < 10 ^ width)
    (hrest : EndsDigits rest) :
    nanosecond ('.' :: (padded width n ++ rest)) = some (n * 10 ^ (9 - width), rest) := by
  have hnumber : number 9 (padded width n ++ rest) = some (n, rest) := by
    rw [number_append (fun c => Date.isDigit_of_mem_padded) (Date.padded_ne_nil width n)
      ((Date.length_padded hwidth hn).le.trans hle) hrest, Date.ofDigitChars_padded]
  have hlength : (padded width n ++ rest).length - rest.length = width := by
    rw [List.length_append, Date.length_padded hwidth hn, Nat.add_sub_cancel]
  have hdrop : rest.dropWhile Char.isDigit = rest := by
    cases rest with
    | nil => rfl
    | cons c rest => exact List.dropWhile_cons_of_neg (by simp [hrest c rfl])
  rw [nanosecond, hnumber, Option.map_some]
  dsimp only
  rw [hlength, hdrop]
  rfl

/-- **A fraction is read back**, with however few digits it is written. -/
theorem nanosecond_fraction (hn : n < nanosPerSecond) (rest : List Char) :
    nanosecond (fraction n ++ 'Z' :: rest) = some (n, 'Z' :: rest) := by
  have hz : EndsDigits ('Z' :: rest) := endsDigits_cons (by decide) rest
  unfold nanosPerSecond at hn
  unfold fraction
  split_ifs with hzero hmilli hmicro
  · rw [hzero]
    rfl
  · rw [List.cons_append, nanosecond_padded (by norm_num) (by norm_num) (by omega) hz]
    have hvalue : n / 1000000 * 10 ^ (9 - 3) = n := by omega
    rw [hvalue]
  · rw [List.cons_append, nanosecond_padded (by norm_num) (by norm_num) (by omega) hz]
    have hvalue : n / 1000 * 10 ^ (9 - 6) = n := by omega
    rw [hvalue]
  · rw [List.cons_append, nanosecond_padded (by norm_num) (by norm_num) (by omega) hz,
      Nat.sub_self, pow_zero, Nat.mul_one]

/-! ## 2.  Points in time -/

/-- The parts of a point in time are in range.  Only the last second of a minute can be a leap
second. -/
structure IsValid (t : Timestamp) : Prop where
  date : t.date.isValid = true
  seconds : t.seconds < secondsPerDay
  nanos : t.nanos < 2 * nanosPerSecond
  leap : nanosPerSecond ≤ t.nanos → t.seconds % 60 = 59

theorem moved_zero {date : Date} {seconds nanos : ℕ} (h : seconds < secondsPerDay) :
    moved date seconds nanos 0 = some ⟨date, seconds, nanos⟩ := by
  unfold secondsPerDay at h
  simp only [moved, secondsPerDay, Int.sub_zero]
  rw [if_neg (by decide), if_neg (by omega), if_neg (by omega)]
  rfl

/-- The second that is written, and what a reader makes of it. -/
theorem leap_spec {t : Timestamp} (h : t.IsValid) :
    let second := t.seconds % 60 + t.nanos / nanosPerSecond
    let leap := second = 60
    second ≤ 60 ∧
      t.seconds / 3600 * 3600 + t.seconds / 60 % 60 * 60 + (if leap then 59 else second) =
        t.seconds ∧
      (if leap then t.nanos % nanosPerSecond + nanosPerSecond else t.nanos % nanosPerSecond) =
        t.nanos := by
  have hnanos := h.nanos
  have hleap := h.leap
  unfold nanosPerSecond at hnanos hleap ⊢
  dsimp only
  by_cases hn : t.nanos < 1000000000
  · have hsecond : t.seconds % 60 + t.nanos / 1000000000 = t.seconds % 60 := by omega
    rw [hsecond, if_neg (by omega), if_neg (by omega)]
    omega
  · have hlast := hleap (by omega)
    have hsecond : t.seconds % 60 + t.nanos / 1000000000 = 60 := by omega
    rw [hsecond, if_pos rfl, if_pos rfl]
    omega

theorem middle_T (rest : List Char) : middle ('T' :: rest) = some ((), rest) :=
  rfl

theorem endsDigits_fraction (n : ℕ) (rest : List Char) :
    EndsDigits (fraction n ++ 'Z' :: rest) := by
  unfold fraction
  split_ifs
  · exact endsDigits_cons (by decide) rest
  · exact endsDigits_cons (by decide) _
  · exact endsDigits_cons (by decide) _
  · exact endsDigits_cons (by decide) _

/-- The text, part by part. -/
theorem toList_text (t : Timestamp) : t.text.toList =
    Date.yearText t.date.year ++ '-' :: (padded 2 t.date.month ++ '-' :: (padded 2 t.date.day ++
      'T' :: (padded 2 (t.seconds / 3600) ++ ':' :: (padded 2 (t.seconds / 60 % 60) ++
        ':' :: (padded 2 (t.seconds % 60 + t.nanos / nanosPerSecond) ++
          (fraction (t.nanos % nanosPerSecond) ++ 'Z' :: [])))))) := by
  simp [text, Date.chars, clock]

/-- **A point in time is read back from its text.** -/
theorem ofString?_text {t : Timestamp} (h : t.IsValid) : ofString? t.text = some t := by
  obtain ⟨hsecond, hseconds, hnanos⟩ := leap_spec h
  have hday := h.seconds
  unfold secondsPerDay at hday
  obtain ⟨hmonth, hdayOfMonth⟩ : t.date.month < 100 ∧ t.date.day < 100 := by
    have hdate := h.date
    simp only [Date.isValid, Bool.and_eq_true, decide_eq_true_eq] at hdate
    have hdays : Date.daysIn t.date.year t.date.month ≤ 31 := Date.daysIn_le _ _
    omega
  have hminus (rest : List Char) : EndsDigits ('-' :: rest) := endsDigits_cons (by decide) rest
  have hcolon (rest : List Char) : EndsDigits (':' :: rest) := endsDigits_cons (by decide) rest
  have hmiddle (rest : List Char) : EndsDigits ('T' :: rest) := endsDigits_cons (by decide) rest
  have hfraction := nanosecond_fraction (n := t.nanos % nanosPerSecond)
    (Nat.mod_lt _ (by decide)) []
  have hoffset : offset ['Z'] = some (0, []) := rfl
  have hskip : Text.skipBlanks [] = [] := rfl
  have hhour : t.seconds / 3600 < 24 := by omega
  have hminute : t.seconds / 60 % 60 < 60 := Nat.mod_lt _ (by decide)
  have hchecked : Date.checked ⟨t.date.year, t.date.month, t.date.day⟩ = some t.date :=
    if_pos h.date
  have hrange : (decide (23 < t.seconds / 3600) || decide (59 < t.seconds / 60 % 60) ||
      decide (60 < t.seconds % 60 + t.nanos / nanosPerSecond)) = false := by
    simp only [Bool.or_eq_false_iff, decide_eq_false_iff_not]
    omega
  rw [ofString?, toList_text, ofChars?, year_yearText _ (hminus _)]
  dsimp only [bind, Option.bind]
  rw [separator_cons (by decide)]
  dsimp only
  rw [component_padded hmonth (hminus _)]
  dsimp only
  rw [separator_cons (by decide)]
  dsimp only
  rw [component_padded hdayOfMonth (hmiddle _)]
  dsimp only
  rw [middle_T]
  dsimp only
  rw [component_padded (by omega) (hcolon _)]
  dsimp only
  rw [separator_cons (by decide)]
  dsimp only
  rw [component_padded (by omega) (hcolon _)]
  dsimp only
  rw [separator_cons (by decide)]
  dsimp only
  rw [component_padded (by omega) (endsDigits_fraction _ _)]
  dsimp only
  rw [hfraction]
  dsimp only
  rw [hoffset]
  dsimp only
  rw [if_neg (not_not.mpr hskip), hrange, if_neg Bool.false_ne_true, hchecked]
  dsimp only
  rw [hseconds, hnanos, moved_zero h.seconds]

end Timestamp
end Padded

/-! ## 3.  Names of runs -/

namespace RunId

theorem length_hexDigits (count n : ℕ) : (hexDigits count n).length = count := by
  induction count generalizing n with
  | zero => rfl
  | succ count ih => rw [hexDigits, List.length_append, ih, List.length_singleton]

theorem digit?_digitChar : ∀ n < 16, digit? (Nat.digitChar n) = some n := by
  decide

/-- The digits of a number spell it, up to what the digits cannot hold. -/
theorem foldlM_hexDigits (count n : ℕ) :
    (hexDigits count n).foldlM (fun n c => (digit? c).map (16 * n + ·)) 0 =
      some (n % 16 ^ count) := by
  induction count generalizing n with
  | zero => rw [pow_zero, Nat.mod_one]; rfl
  | succ count ih =>
    have hlast := digit?_digitChar (n % 16) (Nat.mod_lt n (by norm_num))
    have hmod : 16 * (n / 16 % 16 ^ count) + n % 16 = n % 16 ^ (count + 1) := by
      rw [pow_succ', Nat.mod_mul]
      omega
    rw [hexDigits, List.foldlM_append, ih]
    show (digit? (Nat.digitChar (n % 16))).map (16 * (n / 16 % 16 ^ count) + ·) >>= pure = _
    rw [hlast, Option.map_some, hmod]
    rfl

theorem ofDigits?_hexDigits (r : RunId) : ofDigits? (hexDigits 32 r.number) = some r := by
  have hmod : r.number % 16 ^ 32 = r.number := Nat.mod_eq_of_lt r.inRange
  have hof : ofNat r.number = r := by
    rw [ofNat, RunId.mk.injEq]
    exact Nat.mod_eq_of_lt r.inRange
  rw [ofDigits?, if_neg (not_not.mpr (length_hexDigits 32 r.number)), foldlM_hexDigits, hmod]
  exact congrArg some hof

/-- Hyphens that were put in can be taken out again. -/
theorem unhyphenated_hyphenated (gs : List ℕ) (ds : List Char) (h : gs.sum ≤ ds.length) :
    unhyphenated gs (hyphenated gs ds) = some ds := by
  induction gs generalizing ds with
  | nil => rfl
  | cons n gs ih =>
    rw [List.sum_cons] at h
    have hlen : (ds.take n).length = n := by
      rw [List.length_take]
      omega
    have hrest := ih (ds.drop n) (by rw [List.length_drop]; omega)
    have hdrop : (ds.take n ++ '-' :: hyphenated gs (ds.drop n)).drop n =
        '-' :: hyphenated gs (ds.drop n) := List.drop_left' hlen
    have htake : (ds.take n ++ '-' :: hyphenated gs (ds.drop n)).take n = ds.take n :=
      List.take_left' hlen
    rw [hyphenated, unhyphenated, hdrop, htake]
    show (unhyphenated gs (hyphenated gs (ds.drop n))).map (ds.take n ++ ·) = some ds
    rw [hrest, Option.map_some, List.take_append_drop]

theorem length_hyphenated (gs : List ℕ) (ds : List Char) (h : gs.sum ≤ ds.length) :
    (hyphenated gs ds).length = ds.length + gs.length := by
  induction gs generalizing ds with
  | nil => rfl
  | cons n gs ih =>
    rw [List.sum_cons] at h
    have hrest := ih (ds.drop n) (by rw [List.length_drop]; omega)
    rw [hyphenated, List.length_append, List.length_cons, hrest, List.length_take,
      List.length_drop, List.length_cons]
    omega

/-- **The name of a run is read back from its text.** -/
theorem ofString?_text (r : RunId) : ofString? r.text = some r := by
  have hsum : groups.sum ≤ (hexDigits 32 r.number).length := by
    rw [length_hexDigits]
    decide
  have hlength : (hyphenated groups (hexDigits 32 r.number)).length = 36 := by
    rw [length_hyphenated _ _ hsum, length_hexDigits]
    rfl
  rw [ofString?, text, String.toList_ofList, hlength, if_neg (by norm_num), if_pos rfl,
    ofHyphenated?, unhyphenated_hyphenated _ _ hsum, Option.bind_some, ofDigits?_hexDigits]

end RunId
end TransferCost
