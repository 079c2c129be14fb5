import Rpn.CommandLine.Flag
import Rpn.Pattern.Basic
import Rpn.Text.Digit

/-!
# Words

What a word of a command line says can be told from the word alone. A long
spelling may be cut short as long as it stays the only one that starts so, and
may carry its argument after an equals sign; short ones may be run together, the
last of them with its argument behind it, and the first of them may be set off
by an equals sign. A word that looks like an option may still be none: a lone
dash, a negative number, or anything with a space in it.
-/

namespace Rpn.CommandLine

/-- What a word says. -/
inductive Word where
  /-- Not an option. -/
  | plain
  /-- The end of all options. -/
  | divider
  /-- An option. Behind it there may be more in the same word, after an equals
  sign or directly. -/
  | option (flag : Flag) (isShort : Bool) (behind : Option (List Char))
  /-- Looks like an option, but none is spelled so. -/
  | unknown
  /-- The beginning of several long spellings. -/
  | ambiguous

/-- A negative number, perhaps before the end of a line: it looks like an option
but is not one. -/
def negativeNumber : Pattern :=
  open Pattern in
  let digit := one Text.hasDigitValue
  inOrder [
    char '-',
    alt (atLeastOnce digit) (inOrder [many digit, char '.', atLeastOnce digit]),
    optional (char '\n')
  ]

/-- A text up to an equals sign, and the text after it if there is one. -/
def cutAtEquals (cs : List Char) : List Char × Option (List Char) :=
  match cs.span (· ≠ '=') with
  | (before, _ :: after) => (before, some after)
  | (before, []) => (before, none)

/-- A word that starts with a dash but spells no option in full. -/
def Word.ofCut (cs : List Char) : Word :=
  let other :=
    if negativeNumber.accepts cs then plain
    else if cs.contains ' ' then plain
    else unknown
  match cs with
  | '-' :: '-' :: rest =>
    let (start, behind) := cutAtEquals rest
    match Flag.all.filter fun flag => start.isPrefixOf flag.word.toList with
    | [] => other
    | [flag] => option flag false behind
    | _ => ambiguous
  | '-' :: c :: rest =>
    match Flag.ofLetter? c with
    | some flag => option flag true (some rest)
    | none => other
  | _ => plain

/-- What a word says, taken for itself. -/
def Word.ofText (word : String) : Word :=
  let cs := word.toList
  match cs with
  | ['-', '-'] => divider
  | '-' :: _ :: _ =>
    match Flag.ofSpelling? cs, cutAtEquals cs with
    | some flag, _ => option flag (cs.length = 2) none
    | none, (before, some after) =>
      match Flag.ofSpelling? before with
      | some flag => option flag (before.length = 2) (some after)
      | none => ofCut cs
    | none, _ => ofCut cs
  | _ => plain

/-- Whether a word ends all options. -/
def Word.isDivider : Word → Bool
  | divider => true
  | _ => false

/-- The words before a divider that begin several long spellings. -/
def hasAmbiguous : List Word → Bool
  | [] => false
  | .divider :: _ => false
  | .ambiguous :: _ => true
  | _ :: rest => hasAmbiguous rest

end Rpn.CommandLine
