import Rpn.Evaluation.Descent

/-!
# Calls

A call is an operator at its place on a stack, together with the operands that
it is given there. Evaluating by descent calls one operator after another:
first those of the nearer operand, then those of the deeper one, and then the
operator itself, if both operands could be had. An operand that cannot be had
and a function that fails both end the row of calls.
-/

namespace Rpn

/-- An operator, its operands, and what lies beneath it. -/
inductive Call where
  | unary (op : Unary) (only : Float) (beneath : Stack)
  | binary (op : Binary) (nearer deeper : Float) (beneath : Stack)

namespace Call

/-- The symbol of the operator. -/
def symbol : Call → String
  | unary op _ _ => op.symbol
  | binary op _ _ _ => op.symbol

/-- The operands, the nearer one first. -/
def operands : Call → List Float
  | unary _ only _ => [only]
  | binary _ nearer deeper _ => [nearer, deeper]

/-- What the function of the operator makes of them. -/
def response : Call → Except Failure Float
  | unary op only _ => op.function only
  | binary op nearer deeper _ => op.function nearer deeper

end Call

/-- The calls that evaluating a stack makes, in order. -/
def Stack.calls (stack : Stack) : List Call :=
  match stack with
  | [] | .operand _ :: _ | .foreign _ :: _ => []
  | .unary op :: rest =>
    calls rest ++
      match Evaluation.descendWithin rest with
      | .ok ⟨some (only, _), _⟩ => [.unary op only rest]
      | _ => []
  | .binary op :: rest =>
    calls rest ++
      match Evaluation.descendWithin rest with
      | .ok ⟨some (nearer, middle), h⟩ =>
        have _ : middle.length < rest.length := h _ _ rfl
        calls middle ++
          match Evaluation.descendWithin middle with
          | .ok ⟨some (deeper, _), _⟩ => [.binary op nearer deeper rest]
          | _ => []
      | _ => []
termination_by stack.length
decreasing_by
  · simp
  · simp
  · simp only [List.length_cons]
    omega

end Rpn
