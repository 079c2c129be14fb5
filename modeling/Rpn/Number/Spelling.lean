import Mathlib.Data.List.Forall2
import Rpn.Text.Digit

/-!
# How number tokens are spelled

The grammar of number tokens once more, as a description of their parts instead
of a pattern: each part is a list of characters that can be cut up in the way
that is said here. Nothing says how the cut is found, and a token may be cut in
several ways.
-/

namespace Rpn.Number

open Text (isDigit)

/-- Digits of any script, or nothing at all. -/
def AllDigits (cs : List Char) : Prop :=
  ∀ c ∈ cs, isDigit c = true

/-- No sign, or an ASCII one. -/
def IsSign (cs : List Char) : Prop :=
  cs = [] ∨ cs = ['+'] ∨ cs = ['-']

/-- An underscore and three digits. -/
def IsGroup (cs : List Char) : Prop :=
  ∃ ds, cs = '_' :: ds ∧ ds.length = 3 ∧ AllDigits ds

/-- What may come again and again in a whole part: one digit, or a group. -/
def IsDigitOrGroup (cs : List Char) : Prop :=
  (∃ c, cs = [c] ∧ isDigit c = true) ∨ IsGroup cs

/-- One to three digits, and after them digits and groups in any mix. -/
def IsIntegral (cs : List Char) : Prop :=
  ∃ (first : List Char) (parts : List (List Char)),
    cs = first ++ parts.flatten ∧
    1 ≤ first.length ∧ first.length ≤ 3 ∧ AllDigits first ∧
    ∀ part ∈ parts, IsDigitOrGroup part

/-- A last group, which is shorter than the others. -/
def IsShortGroup (cs : List Char) : Prop :=
  ∃ ds, cs = '_' :: ds ∧ 1 ≤ ds.length ∧ ds.length ≤ 2 ∧ AllDigits ds

/-- Digits alone; or three digits, groups, and possibly a shorter group. -/
def IsFractional (cs : List Char) : Prop :=
  (cs ≠ [] ∧ AllDigits cs) ∨
    ∃ (first : List Char) (groups : List (List Char)) (last : List Char),
      cs = first ++ (groups.flatten ++ last) ∧
      first.length = 3 ∧ AllDigits first ∧
      (∀ group ∈ groups, IsGroup group) ∧ (last = [] ∨ IsShortGroup last)

/-- A mark, a sign if there is one, and digits alone. -/
def IsExponent (cs : List Char) : Prop :=
  ∃ mark sign ds, cs = mark :: (sign ++ ds) ∧ (mark = 'e' ∨ mark = 'E') ∧
    IsSign sign ∧ ds ≠ [] ∧ AllDigits ds

/-- A point, with a fraction after it or none. -/
def IsPointed (cs : List Char) : Prop :=
  ∃ fraction, cs = '.' :: fraction ∧ (fraction = [] ∨ IsFractional fraction)

/-- A whole part, with a point and a fraction or without; or a point and a
fraction, with a whole part or without. -/
def IsDecimal (cs : List Char) : Prop :=
  (∃ whole rest, cs = whole ++ rest ∧ IsIntegral whole ∧
      (rest = [] ∨ IsPointed rest)) ∨
    ∃ whole fraction, cs = whole ++ '.' :: fraction ∧
      (whole = [] ∨ IsIntegral whole) ∧ IsFractional fraction

/-- A character in the place of a small letter: the letter in either case, or a
capital I with a dot for an i. -/
def StandsFor (letter c : Char) : Prop :=
  c.toLower = letter ∨ (letter = 'i' ∧ c = '\u0130')

/-- One of some words, letter by letter. -/
def Spells (words : List (List Char)) (cs : List Char) : Prop :=
  ∃ word ∈ words, List.Forall₂ StandsFor word cs

/-- The words for what is not finite. -/
def nonFiniteWords : List (List Char) :=
  ["inf".toList, "infinity".toList, "nan".toList]

/-- A number token: after a sign, if there is one, a decimal that may have an
exponent, or one of the words. -/
def IsLiteral (cs : List Char) : Prop :=
  ∃ sign body, cs = sign ++ body ∧ IsSign sign ∧
    ((∃ decimal exponent, body = decimal ++ exponent ∧ IsDecimal decimal ∧
        (exponent = [] ∨ IsExponent exponent)) ∨
      Spells nonFiniteWords body)

end Rpn.Number
