import TransferCost.Binary64
import TransferCost.Decimal.Basic

/-!
# The shortest decimal that reads back

A positive double `x = m * 2 ^ q` is written with as few digits as possible, under the one condition
that the written number is rounded to `x` again.  The search goes from coarse grids of powers of ten
to fine ones.  On each grid only the two neighbours of `x` can be nearer to `x` than to any other
grid point, so only those two are tried.

## Why the search ends, and why its answer reads back

The finest grid is `10 ^ min q 0`.  The number `m * 2 ^ q` itself lies on it, and stands there as
the answer of last resort.  A neighbour on a coarser grid is taken only where `Decimal.toFloat`
gives `x`, so no property of the rounding is needed to see that the answer reads back.

The first grid with a hit has the fewest digits.  If both neighbours are hits, the nearer one is
written, and a `Tie` says what happens where both are equally near.
-/

namespace TransferCost
namespace Decimal

/-- Which of two equally near neighbours is written. -/
inductive Tie where
  | toEven
  | up
deriving DecidableEq

/-- The double `m * 2 ^ q` measured in steps of `10 ^ k`, as a fraction of whole numbers.  One unit
in the last place of `m` is `unit / denominator` steps. -/
structure Scaled where
  numerator : Nat
  denominator : Nat
  unit : Nat

/-- The double `m * 2 ^ q` in steps of `10 ^ k`. -/
def scaled (m : Nat) (q k : Int) : Scaled :=
  let unit := Nat.pow 2 q.toNat * Nat.pow 10 (-k).toNat
  { numerator := m * unit
    denominator := Nat.pow 2 (-q).toNat * Nat.pow 10 k.toNat
    unit }

/-- The grid point `c * 10 ^ k` is rounded to `x`.  A point further away than one unit in the last
place is not, and is turned down without rounding it. -/
def readsBack (x : Float) (distance unit c : Nat) (k : Int) : Bool :=
  decide (distance ≤ unit) && decide ((Decimal.mk c k).toFloat = x)

/-- The neighbour of `x = m * 2 ^ q` on the grid of step `10 ^ k` that is written, if one reads
back. -/
def hit? (tie : Tie) (x : Float) (m : Nat) (q k : Int) : Option Decimal :=
  let s := scaled m q k
  let below := s.numerator / s.denominator
  let gap := s.numerator % s.denominator
  let above := below + 1
  match readsBack x gap s.unit below k, readsBack x (s.denominator - gap) s.unit above k with
  | false, false => none
  | true, false => some ⟨below, k⟩
  | false, true => some ⟨above, k⟩
  | true, true =>
    if 2 * gap < s.denominator then some ⟨below, k⟩
    else if s.denominator < 2 * gap then some ⟨above, k⟩
    else
      match tie with
      | .up => some ⟨above, k⟩
      | .toEven => if below % 2 = 0 then some ⟨below, k⟩ else some ⟨above, k⟩

/-- The exponent of the finest grid, on which `m * 2 ^ q` lies. -/
def finest (q : Int) : Int :=
  min q 0

/-- An exponent whose power of ten is above `m * 2 ^ q`.  The factors are bounds of `log 2`. -/
def coarsest (m : Nat) (q : Int) : Int :=
  let bits : Int := m.log2 + 1 + q
  if 0 ≤ bits then bits * 30103 / 100000 + 1 else -(-bits * 30102 / 100000)

/-- The first hit on the grids `finest q + n, …, finest q + 1`, and else `m * 2 ^ q` itself. -/
def search (tie : Tie) (x : Float) (m : Nat) (q : Int) : Nat → Decimal
  | 0 => ⟨m * Nat.pow 2 q.toNat * Nat.pow 5 (-q).toNat, finest q⟩
  | n + 1 =>
    match hit? tie x m q (finest q + (n + 1 : Nat)) with
    | some d => d
    | none => search tie x m q n

/-- The shortest decimal that is rounded to `x`, for a positive `x = m * 2 ^ q`. -/
def shortest (tie : Tie) (x : Float) (m : Nat) (q : Int) : Decimal :=
  search tie x m q (coarsest m q - finest q).toNat

theorem toFloat_of_readsBack {x : Float} {distance unit c : Nat} {k : Int}
    (h : readsBack x distance unit c k = true) : (Decimal.mk c k).toFloat = x := by
  simp only [readsBack, Bool.and_eq_true, decide_eq_true_eq] at h
  exact h.2

/-- What `hit?` offers reads back. -/
theorem toFloat_of_hit? {tie : Tie} {x : Float} {m : Nat} {q k : Int} {d : Decimal}
    (h : hit? tie x m q k = some d) : d.toFloat = x := by
  unfold hit? at h
  simp only at h
  split at h
  · exact absurd h (by simp)
  · rename_i hb _
    exact Option.some.inj h ▸ toFloat_of_readsBack hb
  · rename_i _ ha
    exact Option.some.inj h ▸ toFloat_of_readsBack ha
  · rename_i hb ha
    split at h
    · exact Option.some.inj h ▸ toFloat_of_readsBack hb
    split at h
    · exact Option.some.inj h ▸ toFloat_of_readsBack ha
    split at h
    · exact Option.some.inj h ▸ toFloat_of_readsBack ha
    split at h
    · exact Option.some.inj h ▸ toFloat_of_readsBack hb
    · exact Option.some.inj h ▸ toFloat_of_readsBack ha

end Decimal
end TransferCost
