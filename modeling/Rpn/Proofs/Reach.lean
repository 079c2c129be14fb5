import Rpn.Operation.Standard
import Rpn.Proofs.Descent

/-!
# How far an evaluation reads

A scan stops at the operation that completes the topmost expression, and what
lies beneath that has no part in it. To say so of a scan that is under way, with
operators that wait, the place where it stands has to be named: `advance` reads
a row of operations and ends either with a value and what of the row it did not
need, or at the end of the row with the operators that wait there. Reading one
row and then another is reading the first and going on from that place
(`scan_append`), and everything here follows from this one equation.

What lies beneath a stack cannot matter once the stack decides by itself
(`decided_above`). And a finished expression may be replaced by its value under
whatever is entered later (`evaluate_compacted`): to the operators that wait at
the border the two are the same, however many there are and whatever they have
been given already.
-/

namespace Rpn

namespace Evaluation

/-- How far a row of operations takes a scan: to a value, with what of the row
was not read, or to its end, with the operators that wait there. -/
inductive Progress where
  | found (value : Float) (unread : Stack)
  | waiting (pending : List Waiting)

/-- Reads a row of operations on behalf of the operators that wait. -/
def advance : List Waiting → Stack → Except Fault Progress
  | pending, [] => .ok (.waiting pending)
  | pending, .operand value :: rest =>
    match supply pending value with
    | .ok (.result result) => .ok (.found result rest)
    | .ok (.waiting pending) => advance pending rest
    | .error fault => .error fault
  | pending, .unary op :: rest => advance (.unary op :: pending) rest
  | pending, .binary op :: rest => advance (.binary op :: pending) rest
  | _, .foreign object :: _ => .error (.notOperation object.label)

/-- Reading on is going on from where the first row has led. -/
theorem advance_append (pending : List Waiting) (front back : Stack) :
    advance pending (front ++ back) =
      match advance pending front with
      | .error fault => .error fault
      | .ok (.found value unread) => .ok (.found value (unread ++ back))
      | .ok (.waiting pending) => advance pending back := by
  induction front generalizing pending with
  | nil => rfl
  | cons op rest ih =>
      cases op with
      | operand value =>
          rw [List.cons_append, advance, advance]
          rcases supply pending value with fault | pending | result
          · rfl
          · exact ih pending
          · rfl
      | unary op => exact ih (.unary op :: pending)
      | binary op => exact ih (.binary op :: pending)
      | foreign object => rfl

/-- A scan goes as far as its stack takes it, and has no result if operators
wait at the end. -/
theorem scan_eq_advance (pending : List Waiting) (stack : Stack) :
    scan pending stack =
      match advance pending stack with
      | .error fault => .error fault
      | .ok (.found value unread) => .ok (some (value, unread))
      | .ok (.waiting _) => .ok none := by
  induction stack generalizing pending with
  | nil => rfl
  | cons op rest ih =>
      cases op with
      | operand value =>
          rw [scan, advance]
          rcases supply pending value with fault | pending | result
          · rfl
          · exact ih pending
          · rfl
      | unary op => exact ih (.unary op :: pending)
      | binary op => exact ih (.binary op :: pending)
      | foreign object => rfl

theorem scan_append (pending : List Waiting) (front back : Stack) :
    scan pending (front ++ back) =
      match advance pending front with
      | .error fault => .error fault
      | .ok (.found value unread) => .ok (some (value, unread ++ back))
      | .ok (.waiting pending) => scan pending back := by
  rw [scan_eq_advance, advance_append]
  rcases advance pending front with fault | ⟨value, unread⟩ | pending
  · rfl
  · rfl
  · exact (scan_eq_advance pending back).symm

/-- A value is found at an operand: up to it operators waited, and it supplied
them all. -/
theorem advance_found {pending : List Waiting} {row unread : Stack}
    {value : Float} (h : advance pending row = .ok (.found value unread)) :
    ∃ front x pending', row = front ++ .operand x :: unread ∧
      advance pending front = .ok (.waiting pending') ∧
      supply pending' x = .ok (.result value) := by
  induction row generalizing pending with
  | nil =>
      rw [advance] at h
      cases h
  | cons op rest ih =>
      cases op with
      | operand x =>
          rw [advance] at h
          rcases hsupply : supply pending x with fault | pending' | result <;>
            rw [hsupply] at h
          · cases h
          · obtain ⟨front, y, last, hrest, hfront, hlast⟩ := ih h
            refine ⟨.operand x :: front, y, last, ?_, ?_, hlast⟩
            · rw [hrest, List.cons_append]
            · rw [advance, hsupply]
              exact hfront
          · cases h
            exact ⟨[], x, pending, rfl, rfl, hsupply⟩
      | unary op =>
          obtain ⟨front, y, last, hrest, hfront, hlast⟩ := ih h
          exact ⟨.unary op :: front, y, last, by rw [hrest, List.cons_append],
            hfront, hlast⟩
      | binary op =>
          obtain ⟨front, y, last, hrest, hfront, hlast⟩ := ih h
          exact ⟨.binary op :: front, y, last, by rw [hrest, List.cons_append],
            hfront, hlast⟩
      | foreign object =>
          rw [advance] at h
          cases h

/-- Whatever waits, a scan that finds a value has read something. -/
theorem scan_shorter {pending : List Waiting} {stack rest : Stack}
    {value : Float} (h : scan pending stack = .ok (some (value, rest))) :
    rest.length < stack.length := by
  rw [scan_eq_advance] at h
  rcases hrow : advance pending stack with fault | ⟨result, unread⟩ | last <;>
    rw [hrow] at h
  · cases h
  · cases h
    obtain ⟨front, x, _, hstack, _⟩ := advance_found hrow
    rw [hstack, List.length_append, List.length_cons]
    omega
  · cases h

/-- To operators that wait, a stack with a value is that value on what it
leaves. -/
theorem scan_of_evaluate {stack rest : Stack} {value : Float}
    (h : stack.evaluate = .ok (some (value, rest))) (pending : List Waiting) :
    scan pending stack = scan pending (.operand value :: rest) := by
  rw [Stack.evaluate_eq_descend] at h
  rw [scan_eq, h]
  rfl

end Evaluation

namespace Stack

open Evaluation

/-- What remains of a stack is what lies at its bottom, and all of it only if
there is no value. -/
theorem remainder_suffix {stack : Stack} {outcome : Outcome}
    (h : stack.evaluate = .ok outcome) :
    outcome.remainder stack <:+ stack ∧
      (outcome.remainder stack = stack ↔ outcome.value? = none) := by
  rw [evaluate, scan_eq_advance] at h
  rcases hread : advance [] stack with fault | ⟨value, unread⟩ | last <;>
    rw [hread] at h <;> cases h
  · obtain ⟨front, x, _, hstack, _⟩ := advance_found hread
    show unread <:+ stack ∧ (unread = stack ↔ some value = none)
    refine ⟨⟨front ++ [.operand x], ?_⟩, fun hall => ?_, fun hnone => ?_⟩
    · rw [hstack, List.append_assoc, List.singleton_append]
    · have hlength := congrArg List.length (hall.trans hstack)
      rw [List.length_append, List.length_cons] at hlength
      omega
    · cases hnone
  · exact ⟨List.suffix_refl _, fun _ => rfl, fun _ => rfl⟩

/-- A stack that has a value or a fault by itself has the same on top of
whatever else, which is left where it was. A value that leaves all of what lies
beneath is the value of the stack alone. -/
theorem decided_above (stack beneath : Stack) :
    (∀ value rest,
      stack.evaluate = .ok (some (value, rest)) ↔
        Stack.evaluate (stack ++ beneath) =
          .ok (some (value, rest ++ beneath))) ∧
    ∀ fault, stack.evaluate = .error fault →
      Stack.evaluate (stack ++ beneath) = .error fault := by
  rw [Stack.evaluate, Stack.evaluate, scan_append, scan_eq_advance]
  rcases advance [] stack with fault | ⟨value, unread⟩ | pending
  · refine ⟨fun value rest => ⟨fun h => ?_, fun h => ?_⟩, fun _ h => h⟩
    · cases h
    · cases h
  · refine ⟨fun value' rest => ?_, fun fault h => ?_⟩
    · simp only [Except.ok.injEq, Option.some.injEq, Prod.mk.injEq,
        List.append_cancel_right_eq]
    · cases h
  · refine ⟨fun value rest => ⟨fun h => ?_, fun h => ?_⟩, fun fault h => ?_⟩
    · cases h
    · -- The operators that wait would have to find a value without reading.
      have hlt := scan_shorter h
      rw [List.length_append] at hlt
      omega
    · cases h

/-- A sum that lacks an operand, of an operator that fails: `2 boom +`. -/
def failing : Stack :=
  [Operation.totalBinary "+" (· + ·),
    .unary ⟨"boom", fun _ => .error (.mishap ⟨"ArithmeticError", "boom"⟩)⟩,
    .operand 2]

theorem failing_above_object :
    failing.evaluate =
        .error (.inapplicable "boom" [2] ⟨"ArithmeticError", "boom"⟩) ∧
      Stack.evaluate (failing ++ [.foreign ⟨"?", "object"⟩]) =
        .error (.inapplicable "boom" [2] ⟨"ArithmeticError", "boom"⟩) :=
  ⟨rfl, (decided_above failing [.foreign ⟨"?", "object"⟩]).2 _ rfl⟩

/-- A finished expression can be replaced by its value: whatever is entered on
top of either, the answer is the same. -/
theorem evaluate_compacted {stack rest : Stack} {value : Float}
    (h : stack.evaluate = .ok (some (value, rest))) (above : Stack) :
    (Stack.evaluate (above ++ stack)).map Outcome.value? =
      (Stack.evaluate (above ++ .operand value :: rest)).map
        Outcome.value? := by
  rw [Stack.evaluate, Stack.evaluate, scan_append, scan_append]
  rcases advance [] above with fault | ⟨result, unread⟩ | pending
  · rfl
  · rfl
  · simp only []
    rw [scan_of_evaluate h]

/-- A difference on top of an object: `object 8 2 −`. -/
def difference : Stack :=
  [Operation.totalBinary "−" (· - ·), .operand 2, .operand 8,
    .foreign ⟨"?", "object"⟩]

/-- A sum needs more than the difference, and comes upon the object either way.
-/
theorem difference_compacted :
    difference.evaluate = .ok (some (6, [.foreign ⟨"?", "object"⟩])) ∧
      (Stack.evaluate ([Operation.totalBinary "+" (· + ·)] ++ difference)).map
          Outcome.value? =
        (Stack.evaluate ([Operation.totalBinary "+" (· + ·)] ++
          .operand 6 :: [.foreign ⟨"?", "object"⟩])).map Outcome.value? ∧
      (Stack.evaluate ([Operation.totalBinary "+" (· + ·)] ++ difference)).map
        Outcome.value? = .error (.notOperation "object") := by
  have hdifference : (8 : Float) - 2 = 6 := by decide +kernel
  have hvalue : difference.evaluate =
      .ok (some (6, [.foreign ⟨"?", "object"⟩])) := by
    rw [← hdifference]
    rfl
  exact ⟨hvalue, evaluate_compacted hvalue _, rfl⟩

end Stack

end Rpn
