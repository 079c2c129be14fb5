import Rpn.Evaluation.Basic

/-!
# Expressions

An expression is a tree of operands and operators. Written for the calculator it
becomes a row of operations: first the deeper operand of an operator, then the
nearer one, then the operator. Here the row is kept top first, as on a stack, so
an operator comes before its operands.

Reading a spelled expression from the top has the same effect as finding its
value on top (`scan_spell`), whatever waits for it and whatever lies beneath.
-/

namespace Rpn

/-- A tree of operands and operators. -/
inductive Expression where
  | literal (value : Float)
  | unary (op : Unary) (only : Expression)
  | binary (op : Binary) (nearer deeper : Expression)

namespace Expression

/-- The operations that spell an expression, top first. -/
def spell : Expression → Stack
  | literal value => [.operand value]
  | unary op only => .unary op :: only.spell
  | binary op nearer deeper => .binary op :: (nearer.spell ++ deeper.spell)

/-- The value of an expression. Of several faults the one found first counts: in
the nearer operand, then in the deeper one, then in the operator itself. What the
function of an operator has to do with its result on operands is in
`Unary.apply_of_ok`, `Unary.apply_of_error`, `Binary.apply_of_ok` and
`Binary.apply_of_error`. -/
def value : Expression → Except Fault Float
  | literal value => .ok value
  | unary op only =>
    match only.value with
    | .ok x => op.apply x
    | .error fault => .error fault
  | binary op nearer deeper =>
    match nearer.value with
    | .error fault => .error fault
    | .ok x =>
      match deeper.value with
      | .ok y => op.apply x y
      | .error fault => .error fault

/-- Goes on reading a stack as if a value lay on top of it, if there is one. -/
def resume (pending : List Waiting) (rest : Stack) : Except Fault Float → Except Fault Outcome
  | .ok value => Evaluation.scan pending (.operand value :: rest)
  | .error fault => .error fault

/-- To an operator of one operand that waits, finding a value is finding its
result. -/
theorem resume_unary {op : Unary} {pending : List Waiting} {rest : Stack} {x : Float} :
    resume (.unary op :: pending) rest (.ok x) = resume pending rest (op.apply x) := by
  cases h : op.apply x <;> simp [resume, Evaluation.scan, Evaluation.supply, h]

/-- To an operator of two operands that has one, finding a value is finding its
result. -/
theorem resume_binaryWith {op : Binary} {pending : List Waiting} {rest : Stack} {x y : Float} :
    resume (.binaryWith op x :: pending) rest (.ok y) = resume pending rest (op.apply x y) := by
  cases h : op.apply x y <;> simp [resume, Evaluation.scan, Evaluation.supply, h]

/-- Reading a spelled expression is finding its value. -/
theorem scan_spell (e : Expression) (pending : List Waiting) (rest : Stack) :
    Evaluation.scan pending (e.spell ++ rest) = resume pending rest e.value := by
  induction e generalizing pending rest with
  | literal value => rfl
  | unary op only ih =>
    simp only [spell, List.cons_append, Evaluation.scan, ih, value]
    cases only.value with
    | error fault => rfl
    | ok x => exact resume_unary
  | binary op nearer deeper ihn ihd =>
    simp only [spell, List.cons_append, List.append_assoc, Evaluation.scan, ihn, value]
    cases nearer.value with
    | error fault => rfl
    | ok x =>
      simp only [resume, Evaluation.scan, Evaluation.supply, ihd]
      cases deeper.value with
      | error fault => rfl
      | ok y => exact resume_binaryWith

end Expression

end Rpn
