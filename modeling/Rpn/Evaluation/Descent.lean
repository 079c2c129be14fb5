import Rpn.Evaluation.Basic

/-!
# Evaluation by descent

The plain account of evaluation, by recursion on what lies on top: an operand is
its own value, and an operator evaluates what lies beneath it once for each of
its operands, the nearer one first, and each time goes on from what was left. An
operand that cannot be had leaves the whole stack without result.

The recursion ends because what is left is always shorter; every outcome is
found together with the proof of that, and `descend` forgets it again.
-/

namespace Rpn

namespace Evaluation

/-- An outcome that leaves fewer operations than a number. -/
def Shrinking (size : Nat) :=
  { outcome : Outcome // ∀ value rest, outcome = some (value, rest) → rest.length < size }

/-- The outcome without a result. -/
def Shrinking.nothing {size : Nat} : Shrinking size :=
  ⟨none, nofun⟩

/-- A result with what it leaves. -/
def Shrinking.result {size : Nat} (value : Float) (rest : Stack) (h : rest.length < size) :
    Shrinking size :=
  ⟨some (value, rest), fun _ _ e => by cases e; exact h⟩

/-- The outcome of a stack, by recursion. -/
def descendWithin (stack : Stack) : Except Fault (Shrinking stack.length) :=
  match stack with
  | [] => .ok .nothing
  | .operand value :: rest => .ok (.result value rest (by simp))
  | .foreign object :: _ => .error (.notOperation object.label)
  | .unary op :: rest =>
    match descendWithin rest with
    | .error fault => .error fault
    | .ok ⟨none, _⟩ => .ok .nothing
    | .ok ⟨some (only, left), h⟩ =>
      match op.apply only with
      | .error fault => .error fault
      | .ok value => .ok (.result value left (Nat.lt_succ_of_lt (h _ _ rfl)))
  | .binary op :: rest =>
    match descendWithin rest with
    | .error fault => .error fault
    | .ok ⟨none, _⟩ => .ok .nothing
    | .ok ⟨some (nearer, middle), h⟩ =>
      have hmiddle : middle.length < rest.length := h _ _ rfl
      match descendWithin middle with
      | .error fault => .error fault
      | .ok ⟨none, _⟩ => .ok .nothing
      | .ok ⟨some (deeper, left), hleft⟩ =>
        match op.apply nearer deeper with
        | .error fault => .error fault
        | .ok value =>
          .ok (.result value left (Nat.lt_succ_of_lt (Nat.lt_trans (hleft _ _ rfl) hmiddle)))
termination_by stack.length
decreasing_by
  · simp
  · simp
  · simp only [List.length_cons]
    omega

end Evaluation

/-- The outcome of a stack, found by descent. -/
def Stack.descend (stack : Stack) : Except Fault Outcome :=
  (Evaluation.descendWithin stack).map (·.1)

end Rpn
