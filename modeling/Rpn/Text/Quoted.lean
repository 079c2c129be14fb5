import Rpn.Text.Printable

/-!
# Quoted text

A text inside a message stands in quotes, so that its ends can be seen, and with
every character that would not show written as an escape. Single quotes are
used, except around a text that holds a single quote and no double one.
-/

namespace Rpn.Text

/-- The quote to put around a text. -/
def quoteFor (cs : List Char) : Char :=
  if cs.contains '\x27' && !cs.contains '\x22' then '\x22' else '\x27'

/-- A number in lower-case hexadecimal digits, filled up with zeros to a width.
-/
def hexadecimal (width n : Nat) : List Char :=
  let digits := Nat.toDigits 16 n
  List.replicate (width - digits.length) '0' ++ digits

/-- One character between quotes. The escapes by number have the least of three
widths that fits. -/
def escape (quote c : Char) : List Char :=
  if c = quote ∨ c = '\\' then ['\\', c]
  else if c = '\n' then ['\\', 'n']
  else if c = '\r' then ['\\', 'r']
  else if c = '\t' then ['\\', 't']
  else if isPrintable c then [c]
  else if c.toNat < 0x100 then '\\' :: 'x' :: hexadecimal 2 c.toNat
  else if c.toNat < 0x10000 then '\\' :: 'u' :: hexadecimal 4 c.toNat
  else '\\' :: 'U' :: hexadecimal 8 c.toNat

/-- The characters of a quoted text. -/
def quoteCharacters (cs : List Char) : List Char :=
  let quote := quoteFor cs
  quote :: cs.flatMap (escape quote) ++ [quote]

/-- A text in quotes. -/
def quoted (s : String) : String :=
  String.ofList (quoteCharacters s.toList)

end Rpn.Text
