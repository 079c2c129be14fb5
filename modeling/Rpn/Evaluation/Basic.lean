import Rpn.Operation.Basic

/-!
# Evaluation from the top down

A stack is written top first. Evaluating it reads operations from the top until
the topmost expression is complete: an operator waits until its operands have
been read, the nearer one first, and a value that is found goes to the operator
that began to wait last. What lies beneath the complete expression is not looked
at; it is the remainder. If the stack ends first there is no result, and nothing
was used up.

The operators that wait form a list, so the depth of an expression costs no
recursion.
-/

namespace Rpn

/-- A stack of operations, top first. -/
abbrev Stack := List Operation

/-- An operator that waits for its last operand or for both. -/
inductive Waiting where
  | unary (op : Unary)
  | binary (op : Binary)
  /-- The nearer operand is there already. -/
  | binaryWith (op : Binary) (nearer : Float)

/-- What becomes of a value once it is found: the operators that still wait, or
the final result. -/
inductive Supplied where
  | waiting (pending : List Waiting)
  | result (value : Float)

/-- A result with the stack beneath the expression that gave it. No result
leaves the stack whole. -/
abbrev Outcome := Option (Float × Stack)

namespace Evaluation

/-- Hands a value to the operator that waits innermost, and its result, if it is
complete by that, to the next one out. -/
def supply : List Waiting → Float → Except Fault Supplied
  | [], value => .ok (.result value)
  | .unary op :: pending, value =>
    match op.apply value with
    | .ok result => supply pending result
    | .error fault => .error fault
  | .binary op :: pending, value => .ok (.waiting (.binaryWith op value :: pending))
  | .binaryWith op nearer :: pending, value =>
    match op.apply nearer value with
    | .ok result => supply pending result
    | .error fault => .error fault

/-- Reads a stack from the top, on behalf of the operators that wait, innermost
first. -/
def scan : List Waiting → Stack → Except Fault Outcome
  | _, [] => .ok none
  | pending, .operand value :: rest =>
    match supply pending value with
    | .ok (.result result) => .ok (some (result, rest))
    | .ok (.waiting pending) => scan pending rest
    | .error fault => .error fault
  | pending, .unary op :: rest => scan (.unary op :: pending) rest
  | pending, .binary op :: rest => scan (.binary op :: pending) rest
  | _, .foreign object :: _ => .error (.notOperation object.label)

end Evaluation

/-- The value of the topmost expression and what lies beneath it. -/
def Stack.evaluate (stack : Stack) : Except Fault Outcome :=
  Evaluation.scan [] stack

namespace Outcome

/-- The value, if there is one. -/
def value? (outcome : Outcome) : Option Float :=
  outcome.map (·.1)

/-- The remainder of a stack: what lies beneath the value, or all of it. -/
def remainder (outcome : Outcome) (stack : Stack) : Stack :=
  (outcome.map (·.2)).getD stack

end Outcome

end Rpn
