/-!
# Lines

A text is made of lines, which end at a line feed, a carriage return, or the two
together; other separators do not end a line. From a keyboard, lines come key by
key: return ends a line, the end of input on an empty line ends them all, and an
interrupt ends the run.
-/

namespace Rpn.CommandLine

/-- Splits a text into lines, of which the first goes on from the characters
given, last first. The end of the text ends a line only if the line has
characters. -/
def splitLines (current : List Char) : List Char → List (List Char)
  | [] => if current.isEmpty then [] else [current.reverse]
  | '\r' :: '\n' :: cs => current.reverse :: splitLines [] cs
  | c :: cs =>
    if c = '\n' ∨ c = '\r' then current.reverse :: splitLines [] cs
    else splitLines (c :: current) cs

/-- The lines of a text. -/
def linesOf (text : String) : List String :=
  (splitLines [] text.toList).map String.ofList

/-- Lines that were typed, and whether an interrupt came after them. -/
structure Typed where
  lines : List String
  interrupted : Bool

/-- The key that ends the input. -/
def endKey : Char := '\u0004'

/-- The key that interrupts the run. -/
def interruptKey : Char := '\u0003'

/-- Reads keys, going on from the characters of the line typed so far, last
first. -/
def Typed.ofKeys (current : List Char) : List Char → Typed
  | [] => ⟨[], false⟩
  | key :: keys =>
    if key = interruptKey then ⟨[], true⟩
    else if key = endKey then
      if current.isEmpty then ⟨[], false⟩ else ofKeys current keys
    else if key = '\r' ∨ key = '\n' then
      let later := ofKeys [] keys
      { later with lines := String.ofList current.reverse :: later.lines }
    else ofKeys (key :: current) keys

/-- What is typed by pressing keys one after another. -/
def Typed.ofText (keys : String) : Typed :=
  ofKeys [] keys.toList

end Rpn.CommandLine
