import Rpn.Evaluation.Basic

/-!
# Evaluation from the bottom up

The other way to run a program reads it as it was typed, bottom first, and keeps
the values that were found, latest first. An operand adds a value. An operator
takes as many of the latest values as it has operands and leaves its result
instead; if there are too few of them, none is left. At the end the latest value
is the result, and the others are those of the complete expressions beneath.
-/

namespace Rpn.Machine

/-- The values after one more operation. The result of an operator is that of its
function (`Unary.apply_of_ok`, `Binary.apply_of_ok`), and a fault if the function
fails (`Unary.apply_of_error`, `Binary.apply_of_error`). -/
def step : List Float → Operation → Except Fault (List Float)
  | values, .operand value => .ok (value :: values)
  | only :: values, .unary op => (op.apply only).map (· :: values)
  | nearer :: deeper :: values, .binary op => (op.apply nearer deeper).map (· :: values)
  | _, .foreign object => .error (.notOperation object.label)
  | _, _ => .ok []

/-- The values after operations in the order in which they were typed. -/
def run : List Float → List Operation → Except Fault (List Float)
  | values, [] => .ok values
  | values, op :: rest =>
    match step values op with
    | .ok values => run values rest
    | .error fault => .error fault

/-- The values of a stack. -/
def values (stack : Stack) : Except Fault (List Float) :=
  run [] stack.reverse

end Rpn.Machine
