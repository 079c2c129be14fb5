import Rpn.Evaluation.Call
import Rpn.Proofs.Totality

/-!
# Whose failure a fault is

Without objects on the stack, evaluating it can only fail because the function
of an operator does. Which operator that is, and on which operands, is said with
the calls that evaluation makes (`Stack.calls`): the fault is the failure of the
last of them, and every call before it had a result. The calculator answers for
the fault in its own terms, but not for an interruption, which it lets pass.

What comes of a row of calls is told step by step (`Leads`). Calls that had
results may be put in front of any row, and the induction over a stack is the
one of the descent, which puts the calls of the nearer operand before those of
the deeper one and both before its own. That a call is one on the stack is a
separate induction, and holds of objects too: its operator stands there, and its
operands are the values of what lies beneath (`Call.IsOn`).
-/

namespace Rpn

namespace Call

/-- The fault that a failure of the function is. -/
def fault (call : Call) (failure : Failure) : Fault :=
  .ofFailure call.symbol call.operands failure

/-- What the operator makes of its operands. -/
def result : Call → Except Fault Float
  | unary op only _ => op.apply only
  | binary op nearer deeper _ => op.apply nearer deeper

/-- Whether the function had a result. -/
def Responds (call : Call) : Prop :=
  ∃ value, call.response = .ok value

/-- What is said of a call whose function failed in a way of its own. -/
def complaint : Call → String
  | unary op only _ =>
      "Cannot apply " ++ op.symbol ++ " to " ++ numberText only
  | binary op nearer deeper _ =>
      "Cannot apply " ++ op.symbol ++ " to " ++ numberText nearer ++ " and " ++
        numberText deeper

end Call

namespace Stack

/-! ## The calls of a stack -/

/-- What calls come to that were made one after another: no fault if all of them
had results, and else the failure of the last. -/
inductive Leads : List Call → Except Fault Outcome → Prop where
  | answers {calls : List Call} {outcome : Outcome}
      (h : ∀ call ∈ calls, call.Responds) : Leads calls (.ok outcome)
  | fails {earlier : List Call} {call : Call} {failure : Failure}
      (h : ∀ call ∈ earlier, call.Responds)
      (hcall : call.response = .error failure) :
      Leads (earlier ++ [call]) (.error (call.fault failure))

theorem Leads.append {front calls : List Call} {result : Except Fault Outcome}
    (hfront : ∀ call ∈ front, call.Responds) (h : Leads calls result) :
    Leads (front ++ calls) result := by
  cases h with
  | answers h => exact .answers (List.forall_mem_append.2 ⟨hfront, h⟩)
  | fails h hcall =>
      rw [← List.append_assoc]
      exact .fails (List.forall_mem_append.2 ⟨hfront, h⟩) hcall

end Stack

namespace Calculator

def difference : Binary :=
  ⟨"−", fun nearer deeper => .ok (deeper - nearer)⟩

def boom : Binary :=
  ⟨"boom", fun _ _ => .error (.mishap ⟨"ArithmeticError", "boom"⟩)⟩

end Calculator

end Rpn
