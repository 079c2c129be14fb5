import Rpn.Binary64.Nearest

/-!
# Arithmetic that never fails

The functions of the standard operators are defined on all doubles, as IEEE 754
has them: a quotient by zero is an infinity or not a number, a power that
overflows is an infinity, and what has no real value is not a number.
-/

namespace Rpn.Arithmetic

open Binary64

/-- The quotient. A zero divisor counts with its sign. -/
def quotient (dividend divisor : Float) : Float :=
  if divisor == 0 then
    if dividend == 0 || dividend.isNaN then nan
    else copySign infinity dividend * copySign 1 divisor
  else dividend / divisor

/-- The remainder of a finite double by two, under its own sign. It is always a
double. -/
def signedRemainderByTwo (x : Float) : Float :=
  ofRank (isNegative x) (nearestRank (steps (rank x) % (2 * oneInSteps)) oneInSteps)

/-- The remainder by two that lies between zero and two, rounded to a double.
Only finite doubles have one. -/
def remainderByTwo (x : Float) : Float :=
  if x.isFinite then
    let signed := signedRemainderByTwo x
    if signed < 0 then signed + 2 else signed
  else nan

/-- Whether the remainder by two is one. -/
def isOdd (x : Float) : Bool :=
  remainderByTwo x == 1

/-- Whether a finite double is a whole number. -/
def isWhole (x : Float) : Bool :=
  decide (steps (rank x) % oneInSteps = 0)

/-- Whether a finite double is an odd whole number. -/
def isOddWhole (x : Float) : Bool :=
  decide (steps (rank x) % (2 * oneInSteps) = oneInSteps)

/-- The power where base and exponent are not both finite, which is the one that
finite powers tend to if they tend to any. Only an odd exponent keeps the sign
of an infinite base. -/
def limitPower (base exponent : Float) : Float :=
  if exponent == 0 || base == 1 then 1
  else if base.isNaN || exponent.isNaN then nan
  else if base.isInf then
    let size := if exponent < 0 then 0 else infinity
    if exponent.isFinite && isOddWhole exponent then copySign size base else size
  else if base.abs == 1 then 1
  else if decide (base.abs < 1) == decide (exponent < 0) then infinity
  else 0

/-- The power as far as nothing has to be put in its place. -/
def plainPower (base exponent : Float) : Float :=
  if base.isFinite && exponent.isFinite then Float.pow base exponent
  else limitPower base exponent

/-- The power. Zero to a negative power is infinite, and so is a power that
overflows; both are negative only for an odd exponent on a base with a minus
sign. A negative base has no power to an exponent that is not whole. -/
def power (base exponent : Float) : Float :=
  if base == 0 && exponent.isFinite && exponent < 0 then
    if isOdd exponent then copySign infinity base else infinity
  else if base < 0 && base.isFinite && exponent.isFinite && !isWhole exponent then nan
  else
    let result := plainPower base exponent
    if base.isFinite && exponent.isFinite && base != 0 && result.isInf then
      if base < 0 && isOdd exponent then -infinity else infinity
    else result

end Rpn.Arithmetic
