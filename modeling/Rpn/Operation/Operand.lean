import Rpn.Fault
import Rpn.Number.Reader

/-!
# Values as operands

An operand is a double, and this is how a value becomes one. Texts are read as
free text, whole numbers are rounded to the nearest double, and truth values
count as one and zero.
-/

namespace Rpn.Value

/-- The double that a value stands for. A whole number beyond the doubles is a
fault, where a text would give an infinity. -/
def toFloat : Value → Except Fault Float
  | .real x => .ok x
  | .whole n =>
    let x := Decimal.toFloat ⟨n < 0, n.natAbs, 0⟩
    if x.isInf then .error .tooLarge else .ok x
  | .truth b => .ok (if b then 1 else 0)
  | .text s =>
    match Number.read? s with
    | some x => .ok x
    | none => .error (.unreadable s)
  | .absent => .error (.notReal absent.kind)
  | .list items => .error (.notReal (list items).kind)

end Rpn.Value
