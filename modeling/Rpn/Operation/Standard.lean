import Rpn.Operation.Basic
import Rpn.Operation.Breakdown

/-!
# The standard operators

Eight operators are always there, in this order. The ones that do not commute
take the deeper operand on the left, so that `8 2 −` is 6.
-/

namespace Rpn.Operation

/-- An operator of two operands, written as usual with the deeper one on the
left, whose function has a result for all doubles. -/
def totalBinary (symbol : String) (function : Float → Float → Float) : Operation :=
  binary ⟨symbol, fun nearer deeper => .ok (function deeper nearer)⟩

/-- An operator of one operand whose function may break down. -/
def partialUnary (symbol : String) (function : Float → Except Arithmetic.Breakdown Float) :
    Operation :=
  unary ⟨symbol, fun only => (function only).mapError Arithmetic.Breakdown.failure⟩

/-- An operator of two operands, the deeper one on the left, whose function may
break down. -/
def partialBinary (symbol : String)
    (function : Float → Float → Except Arithmetic.Breakdown Float) : Operation :=
  binary ⟨symbol, fun nearer deeper =>
    (function deeper nearer).mapError Arithmetic.Breakdown.failure⟩

/-- The standard operators. -/
def standard : List Operation := [
  totalBinary "×" (· * ·),
  partialBinary "÷" Arithmetic.divide,
  totalBinary "+" (· + ·),
  totalBinary "−" (· - ·),
  partialUnary "√" (Arithmetic.orNan Arithmetic.Bare.root),
  partialBinary "^" Arithmetic.raise,
  partialUnary "sin" (Arithmetic.orNan Arithmetic.Bare.sine),
  partialUnary "cos" (Arithmetic.orNan Arithmetic.Bare.cosine)
]

end Rpn.Operation
