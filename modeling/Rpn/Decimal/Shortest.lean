import Rpn.Decimal.Basic

/-!
# The shortest decimal of a double

Many decimals read back as the same double. The one to write is on the coarsest
grid of powers of ten that has such a decimal at all, and of those on that grid
the nearest to the double; a tie goes to the even one.

Every double is a whole number of units of 10⁻¹⁰⁷⁴, since 2⁻¹⁰⁷⁴ is 5¹⁰⁷⁴ of
them, so the search runs over the grids of multiples of `10 ^ j` units with `j`
counting down, and it cannot fail: for `j = 0` the double lies on the grid
itself. On each grid only the two neighbours of the double need to be tried,
because the reals that read back as a double form an interval around it.
-/

namespace Rpn.Decimal

open Binary64

/-- A step of 2⁻¹⁰⁷⁴, in units of 10⁻¹⁰⁷⁴. -/
def stepInUnits : Nat := Nat.pow 5 1074

/-- The reals that round to one double, as an interval given by twice its ends,
in units of 10⁻¹⁰⁷⁴. -/
structure Basin where
  twiceLow : Nat
  twiceHigh : Nat
  closed : Bool

/-- The ends lie half way to the neighbouring doubles, and belong to the
interval if the rank is even. -/
def Basin.ofRank (rank : Nat) : Basin where
  twiceLow := (steps (rank - 1) + steps rank) * stepInUnits
  twiceHigh := (steps rank + steps (rank + 1)) * stepInUnits
  closed := rank % 2 = 0

/-- Whether a number of units lies in the interval. -/
def Basin.contains (b : Basin) (units : Nat) : Bool :=
  if b.closed then b.twiceLow ≤ 2 * units && 2 * units ≤ b.twiceHigh
  else b.twiceLow < 2 * units && 2 * units < b.twiceHigh

/-- The multiple of `grid` in the interval that is nearest to `units`, if there
is one. -/
def Basin.nearestOn? (b : Basin) (units grid : Nat) : Option Nat :=
  let below := units / grid
  match b.contains (below * grid), b.contains ((below + 1) * grid) with
  | true, true => some (roundQuotient units grid)
  | true, false => some below
  | false, true => some (below + 1)
  | false, false => none

/-- The coefficient and the power of the coarsest grid with a hit, of those not
coarser than `10 ^ j`. -/
def Basin.search (b : Basin) (units : Nat) : Nat → Nat × Nat
  | 0 => (units, 0)
  | j + 1 =>
    match b.nearestOn? units (Nat.pow 10 (j + 1)) with
    | some coefficient => (coefficient, j + 1)
    | none => b.search units j

/-- A power of ten above `units`: 2⁹³ is less than 10²⁸. -/
def powerAbove (units : Nat) : Nat :=
  28 * (units.log2 + 1) / 93 + 1

/-- The coefficient and the power of the coarsest grid with a decimal of a
rank. -/
def coarsest (rank : Nat) : Nat × Nat :=
  let units := steps rank * stepInUnits
  (Basin.ofRank rank).search units (powerAbove units)

/-- The shortest decimal of a finite double. -/
def shortest (x : Float) : Decimal :=
  if Binary64.rank x = 0 then ⟨isNegative x, 0, 0⟩
  else
    let found := coarsest (Binary64.rank x)
    ⟨isNegative x, found.1, (found.2 : Int) - 1074⟩

end Rpn.Decimal
