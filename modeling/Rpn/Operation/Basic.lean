import Rpn.Fault

/-!
# Operations

A program is a row of operations: operands, and operators of one or two of them.
A caller may also register an object of its own that is none of these; it can be
saved and loaded like an operation, and only evaluating it is a fault.

The function of a binary operator takes the nearer operand first, the one on
top, and the deeper one second.
-/

namespace Rpn

/-- An operator of one operand. -/
structure Unary where
  symbol : String
  function : Float → Except Failure Float

/-- An operator of two operands, the nearer one first. -/
structure Binary where
  symbol : String
  function : Float → Float → Except Failure Float

namespace Unary

/-- The result on an operand. A failure that is laid to the operator names it and
the operand. -/
def apply (op : Unary) (only : Float) : Except Fault Float :=
  (op.function only).mapError (Fault.ofFailure op.symbol [only])

theorem apply_of_ok {op : Unary} {only value : Float}
    (h : op.function only = .ok value) : op.apply only = .ok value := by
  rw [apply, h]
  rfl

end Unary

namespace Binary

/-- The result on two operands. A failure that is laid to the operator names it
and both of them. -/
def apply (op : Binary) (nearer deeper : Float) : Except Fault Float :=
  (op.function nearer deeper).mapError (Fault.ofFailure op.symbol [nearer, deeper])

theorem apply_of_ok {op : Binary} {nearer deeper value : Float}
    (h : op.function nearer deeper = .ok value) :
    op.apply nearer deeper = .ok value := by
  rw [apply, h]
  rfl

end Binary

/-- An object of a caller's that is no operation: what it is saved as, and what
it is shown as. -/
structure Foreign where
  symbol : String
  label : String

/-- One step of a program. -/
inductive Operation where
  | operand (value : Float)
  | unary (op : Unary)
  | binary (op : Binary)
  | foreign (object : Foreign)

namespace Operation

/-- What an operation is saved as, and registered under. An operand is saved as
its number. -/
def symbol : Operation → String
  | operand value => numberText value
  | unary op => op.symbol
  | binary op => op.symbol
  | foreign object => object.symbol

/-- What an operation is shown as. -/
def label : Operation → String
  | foreign object => object.label
  | op => op.symbol

/-- A row of operations, as it is shown. -/
def rowLabel (row : List Operation) : String :=
  "[" ++ ", ".intercalate (row.map label) ++ "]"

end Operation

end Rpn
