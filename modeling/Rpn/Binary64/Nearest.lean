import Rpn.Binary64.Basic

/-!
# The double nearest to a quotient

Rounding is done once, on exact natural numbers: a quotient is measured in steps
of 2⁻¹⁰⁷⁴, the spacing of doubles at that size is found from its binary
logarithm, and the quotient by that spacing is rounded to a whole number, a half
to the even neighbour. A whole number that reaches the next power of two is
already the first rank of the next binade, and one that passes the largest
finite double is infinity, so neither needs a case of its own.
-/

namespace Rpn.Binary64

/-- The quotient rounded to a whole number, a half to the even neighbour. -/
def roundQuotient (num den : Nat) : Nat :=
  let below := num / den
  let excess := 2 * (num % den)
  if excess < den then below
  else if den < excess then below + 1
  else below + below % 2

/-- The rank of the double nearest to `num / den`, of two equally near ones the
even. -/
def nearestRank (num den : Nat) : Nat :=
  let inSteps := num * oneInSteps
  let spacing := Nat.log2 (inSteps / den) - 52
  min infinityRank (spacing * binade + roundQuotient inSteps (den <<< spacing))

end Rpn.Binary64
