import Rpn.Decimal.Basic
import Rpn.Text.Blank
import Rpn.Text.Digit

/-!
# Reading a number from free text

Free text may have blanks around the number, and underscores in it as long as
each stands between two digits. What is left is an optional sign and then a word
for infinity or not a number, in any case, or digits with at most one point
among them and an optional exponent. Unlike in a number token, the underscores
need not come at every third digit, and the exponent may have them too; the
letters of the words are ASCII, and a digit counts only if its value is known.
-/

namespace Rpn.Number

open Text (digitValue? hasDigitValue)

/-- The value of digits, the first of them the most significant. -/
def ofDigits (digits : List Nat) : Nat :=
  digits.foldl (fun value d => 10 * value + d) 0

/-- The values of the digits that a text starts with, and the rest of it. -/
def digitRun : List Char → List Nat × List Char
  | [] => ([], [])
  | c :: cs =>
    match digitValue? c with
    | some d =>
      let run := digitRun cs
      (d :: run.1, run.2)
    | none => ([], c :: cs)

/-- Whether a text starts with a minus sign, and the rest of it after either
sign. -/
def takeSign : List Char → Bool × List Char
  | '-' :: cs => (true, cs)
  | '+' :: cs => (false, cs)
  | cs => (false, cs)

/-- The exponent that is all of a text; no text means no exponent. -/
def readExponent? : List Char → Option Int
  | [] => some 0
  | mark :: cs =>
    if mark = 'e' ∨ mark = 'E' then
      let (negative, rest) := takeSign cs
      match digitRun rest with
      | ([], _) => none
      | (digits, []) => some (if negative then -(ofDigits digits : Int) else ofDigits digits)
      | _ => none
    else none

/-- The digits after a point, if the text starts with one, and the rest. -/
def fractionRun : List Char → List Nat × List Char
  | '.' :: cs => digitRun cs
  | cs => ([], cs)

/-- The decimal that is all of a text without sign. -/
def readDecimal? (negative : Bool) (cs : List Char) : Option Decimal :=
  let (whole, afterWhole) := digitRun cs
  let (fraction, afterFraction) := fractionRun afterWhole
  if whole.isEmpty && fraction.isEmpty then none
  else
    (readExponent? afterFraction).map fun power =>
      ⟨negative, ofDigits (whole ++ fraction), power - fraction.length⟩

/-- A text with its ASCII letters in lower case. -/
def lower (cs : List Char) : List Char :=
  cs.map Char.toLower

/-- The double that is all of a text with neither blanks nor underscores. -/
def readPlain? (cs : List Char) : Option Float :=
  let (negative, rest) := takeSign cs
  let word := lower rest
  if word = "nan".toList then some Binary64.nan
  else if word = "inf".toList ∨ word = "infinity".toList then
    some (Binary64.ofRank negative Binary64.infinityRank)
  else (readDecimal? negative rest).map Decimal.toFloat

/-- Whether every underscore stands between two digits, given whether a digit
stands before. -/
def isSeparated (afterDigit : Bool) : List Char → Bool
  | [] => true
  | c :: cs =>
    if c = '_' then
      afterDigit && (cs.head?.map hasDigitValue).getD false && isSeparated false cs
    else isSeparated (hasDigitValue c) cs

/-- A text without its underscores. -/
def withoutUnderscores (cs : List Char) : List Char :=
  cs.filter (· ≠ '_')

/-- The double written in free text, if it is a number at all. -/
def read? (text : String) : Option Float :=
  let cs := Text.trim text.toList
  if isSeparated false cs then readPlain? (withoutUnderscores cs) else none

end Rpn.Number
