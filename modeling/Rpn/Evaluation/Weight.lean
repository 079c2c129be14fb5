import Rpn.Evaluation.Basic

/-!
# Weights

An operation changes the number of values at hand by its weight: an operand adds
one, and an operator takes its operands and gives one result back. Operations
from the top down make up a complete expression as soon as their weights add up
to one.
-/

namespace Rpn

/-- By how much an operation changes the number of values at hand. An object
that is no operation does not take part in the count. -/
def Operation.weight : Operation → Int
  | .operand _ => 1
  | .unary _ => 0
  | .binary _ => -1
  | .foreign _ => 0

/-- The weight of a row of operations. -/
def Stack.weight : Stack → Int
  | [] => 0
  | op :: rest => op.weight + weight rest

end Rpn
