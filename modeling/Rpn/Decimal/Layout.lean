import Rpn.Decimal.Shortest

/-!
# The text of a number

A layout holds the decisions that turn a double into text: which exponents are
written positionally, what follows a whole number, how an exponent is spelled,
and the words for what is not finite. The calculator writes all its numbers in
one layout, `Layout.standard`.
-/

namespace Rpn

/-- How numbers are written. -/
structure Layout where
  /-- Decimal exponents of the first digit that are written without an exponent.
  -/
  leastPositional : Int
  mostPositional : Int
  /-- What a whole number written positionally ends in. -/
  wholeEnding : List Char
  /-- The letter before an exponent. -/
  exponentMark : Char
  /-- The least number of digits in an exponent. -/
  exponentWidth : Nat
  infinity : List Char
  nan : List Char

namespace Layout

/-- Positional from 0.0001 up to below 10¹⁶, whole numbers with `.0`, an
exponent always signed and of two digits at least. -/
def standard : Layout where
  leastPositional := -4
  mostPositional := 15
  wholeEnding := ['.', '0']
  exponentMark := 'e'
  exponentWidth := 2
  infinity := ['i', 'n', 'f']
  nan := ['n', 'a', 'n']

/-- So many zeros. -/
def zeros (n : Nat) : List Char :=
  List.replicate n '0'

/-- Digits written out around the point, the first of them standing for `10 ^
lead`. -/
def positional (l : Layout) (digits : List Char) (lead : Int) : List Char :=
  if lead < 0 then
    '0' :: '.' :: zeros (-lead - 1).toNat ++ digits
  else
    let places := lead.toNat + 1
    if digits.length ≤ places then
      digits ++ zeros (places - digits.length) ++ l.wholeEnding
    else
      digits.take places ++ '.' :: digits.drop places

/-- An exponent with its mark, its sign and its digits. -/
def exponent (l : Layout) (lead : Int) : List Char :=
  let digits := Nat.toDigits 10 lead.natAbs
  l.exponentMark :: (if lead < 0 then '-' else '+') ::
    zeros (l.exponentWidth - digits.length) ++ digits

/-- Digits with an exponent, the point after the first of them if there are
more. -/
def scientific (l : Layout) (digits : List Char) (lead : Int) : List Char :=
  match digits with
  | [] => []
  | first :: [] => first :: l.exponent lead
  | first :: rest => first :: '.' :: rest ++ l.exponent lead

/-- A decimal without its sign. -/
def magnitude (l : Layout) (d : Decimal) : List Char :=
  let digits := Nat.toDigits 10 d.coefficient
  let lead := d.exponent + digits.length - 1
  if l.leastPositional ≤ lead ∧ lead ≤ l.mostPositional then l.positional digits lead
  else l.scientific digits lead

/-- The characters of a double: its shortest decimal, a sign if it has one, or a
word. What is not a number has no sign. -/
def characters (l : Layout) (x : Float) : List Char :=
  if Binary64.infinityRank < Binary64.rank x then l.nan
  else
    let unsigned :=
      if Binary64.rank x = Binary64.infinityRank then l.infinity
      else l.magnitude (Decimal.shortest x)
    if Binary64.isNegative x then '-' :: unsigned else unsigned

/-- The text of a double. -/
def write (l : Layout) (x : Float) : String :=
  String.ofList (l.characters x)

end Layout

/-- A double as the calculator writes it. -/
def numberText (x : Float) : String :=
  Layout.standard.write x

end Rpn
