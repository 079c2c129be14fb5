import Rpn.Number.Grammar
import Rpn.Number.Reader
import Rpn.Registry

/-!
# Tokens

A line is split at its blanks. Each token then stands for a registered operation
or for a number; a symbol that looks like a number is still the operation that
it names.
-/

namespace Rpn.Token

/-- The runs of characters between blanks. -/
def words : List Char → List (List Char)
  | [] => []
  | c :: cs =>
    if Text.isBlank c then words cs
    else (c :: cs.takeWhile (!Text.isBlank ·)) :: words (cs.dropWhile (!Text.isBlank ·))
termination_by cs => cs.length
decreasing_by
  · simp
  · have := (List.dropWhile_sublist (l := cs) (!Text.isBlank ·)).length_le
    simp only [List.length_cons]
    omega

/-- The tokens of a line. -/
def ofLine (line : String) : List String :=
  (words line.toList).map String.ofList

/-- The double that a number token stands for. The token is read as free text
without its underscores. -/
def number (token : String) : Except Fault Float :=
  if Number.isNumber token then
    let plain := String.ofList (Number.withoutUnderscores token.toList)
    match Number.read? plain with
    | some x => .ok x
    | none => .error (.unreadable plain)
  else .error (.notNumber token)

/-- The operation that a token stands for, if it does for any. -/
def classify (registry : Registry) (token : String) : Except Fault (Option Operation) :=
  match registry.find? token with
  | some op => .ok (some op)
  | none =>
    if Number.isNumber token then (number token).map fun x => some (.operand x)
    else .ok none

end Rpn.Token
