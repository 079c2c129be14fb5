import Rpn.Pattern.Basic
import Rpn.Text.Digit

/-!
# The grammar of number tokens

A number token is an optional sign before either a decimal, with an optional
exponent, or one of the words for infinity and not a number, in any case.
Underscores may group the digits of a decimal by threes. In the whole part a
group may stand anywhere after the first digit; in the fraction either all
digits but the last few are grouped, or none are. Digits are those of any
script, signs and the point are ASCII, and an i in the words may also be a
capital one with a dot.
-/

namespace Rpn.Number

open Pattern

/-- A decimal digit of any script. -/
def digit : Pattern := one Text.isDigit

/-- A sign. The minus sign of mathematics is not one: it is an operator. -/
def sign : Pattern := oneOf ['+', '-']

/-- An underscore and the three digits after it. -/
def group : Pattern := seq (char '_') (times digit 3)

/-- One to three digits, and then digits and groups in any order. -/
def integral : Pattern :=
  inOrder [digit, optional digit, optional digit, many (alt digit group)]

/-- Digits without a group, or groups of three of which the last may be shorter.
-/
def fractional : Pattern :=
  alt (atLeastOnce digit)
    (inOrder [times digit 3, many group, optional (inOrder [char '_', digit, optional digit])])

/-- A power of ten, which has no groups. -/
def exponent : Pattern :=
  inOrder [oneOf ['e', 'E'], optional sign, atLeastOnce digit]

/-- A whole part with or without a point and a fraction, or a fraction with or
without a whole part. -/
def decimal : Pattern :=
  alt (seq integral (optional (seq (char '.') (optional fractional))))
    (inOrder [optional integral, char '.', fractional])

/-- The letter i in any case. -/
def letterI : Pattern := oneOf ['i', 'I', '\u0130']

/-- The letter n in either case. -/
def letterN : Pattern := oneOf ['n', 'N']

/-- What may follow the short word for infinity. -/
def infinityEnding : Pattern :=
  inOrder [letterI, letterN, letterI, oneOf ['t', 'T'], oneOf ['y', 'Y']]

/-- The words for what is not finite. -/
def special : Pattern :=
  alt (inOrder [letterI, letterN, oneOf ['f', 'F'], optional infinityEnding])
    (inOrder [letterN, oneOf ['a', 'A'], letterN])

/-- All number tokens. -/
def literal : Pattern :=
  alt (inOrder [optional sign, decimal, optional exponent]) (seq (optional sign) special)

/-- Whether a token is a number. -/
def isNumber (token : String) : Bool :=
  literal.accepts token.toList

end Rpn.Number
