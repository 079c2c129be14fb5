import Rpn.Binary64.Nearest

/-!
# Decimals

A decimal is a sign, a whole coefficient and a power of ten. Its double is the
nearest one, whatever the size of the exponent: an exponent that takes the value
far outside the range of doubles is answered by infinity or zero outright, so
the power of ten is only ever raised when the result is near that range.
-/

namespace Rpn

/-- The number `coefficient · 10 ^ exponent`, negated if `negative`; a zero
keeps its sign. -/
structure Decimal where
  negative : Bool
  coefficient : Nat
  exponent : Int
deriving DecidableEq

namespace Decimal

open Binary64

/-- The rank of the nearest double. A positive coefficient is at least 1, so
above `10 ^ 400` lies only infinity; it is below `10 ^ (log2 + 1)`, so far
enough down lies only zero. -/
def rank (d : Decimal) : Nat :=
  if d.coefficient = 0 then 0
  else if 400 < d.exponent then infinityRank
  else if d.exponent + (d.coefficient.log2 + 1 : Nat) < -400 then 0
  else if 0 ≤ d.exponent then nearestRank (d.coefficient * Nat.pow 10 d.exponent.toNat) 1
  else nearestRank d.coefficient (Nat.pow 10 (-d.exponent).toNat)

/-- The nearest double, under the sign of the decimal. -/
def toFloat (d : Decimal) : Float :=
  ofRank d.negative d.rank

end Decimal

end Rpn
