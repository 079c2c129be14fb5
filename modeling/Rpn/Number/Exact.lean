import Mathlib.Algebra.Field.Rat
import Mathlib.Data.Nat.Digits.Defs
import Rpn.Number.Reader
import Rpn.Number.Spelling

/-!
# The exact value of a number token

What a decimal stands for as a rational number, whatever a reader makes of it.
Underscores count for nothing, a digit of any script for its place in the run of
ten that the script has, and the exponent may be of any size. The words for what
is not finite have no such value.
-/

namespace Rpn.Number

open Text (zeroOf? zeroPoints lateZeroPoints)

/-- A word for what is not finite, after a sign if there is one. -/
def IsWord (cs : List Char) : Prop :=
  ∃ sign body, cs = sign ++ body ∧ IsSign sign ∧ Spells nonFiniteWords body

/-- What a digit is worth, whether or not any reader knows. -/
def worth (c : Char) : Nat :=
  ((zeroOf? (zeroPoints ++ lateZeroPoints) c).map (c.toNat - ·)).getD 0

/-- What digits are worth together, the first the most; without digits, nothing.
-/
def worthOf (cs : List Char) : Nat :=
  Nat.ofDigits 10 (cs.map worth).reverse

/-- A text before the first character of a kind, and after it. -/
def cutAt (isMark : Char → Bool) (cs : List Char) : List Char × List Char :=
  (cs.takeWhile (!isMark ·), (cs.dropWhile (!isMark ·)).drop 1)

/-- Whether a text starts with a minus sign. -/
def startsWithMinus (cs : List Char) : Bool :=
  cs.head? == some '-'

/-- A text without a sign in front. -/
def afterSign (cs : List Char) : List Char :=
  cs.dropWhile fun c => c == '+' || c == '-'

/-- The worth of digits with a sign in front of them or without. -/
def signedWorth (cs : List Char) : ℤ :=
  if startsWithMinus cs then -(worthOf (afterSign cs) : ℤ)
  else worthOf (afterSign cs)

/-- The worth of digits with a point among them or without. -/
def pointedWorth (cs : List Char) : ℚ :=
  let (whole, fraction) := cutAt (· == '.') cs
  worthOf whole + worthOf fraction / 10 ^ fraction.length

/-- The value of a decimal without underscores. -/
def exactOf (cs : List Char) : ℚ :=
  let (mantissa, power) := cutAt (fun c => c == 'e' || c == 'E') (afterSign cs)
  (if startsWithMinus cs then -1 else 1) *
    (pointedWorth mantissa * 10 ^ signedWorth power)

/-- The value of a decimal. -/
def exactValue (token : String) : ℚ :=
  exactOf (withoutUnderscores token.toList)

end Rpn.Number
