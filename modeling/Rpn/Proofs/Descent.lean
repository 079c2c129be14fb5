import Rpn.Evaluation.Descent
import Rpn.Expression

/-!
# The scan is the descent

`Stack.evaluate` reads a stack once, with the operators that wait kept in a
list; `Stack.descend` calls itself for every operand. The two agree because
the list is the descent's row of unfinished calls, and nothing else: on behalf
of any operators that wait, reading a stack comes to descending into it and
then going on as if the value had lain on top of what is left (`scan_eq`). A
fault or a missing operand ends both at once, whatever waits, which is why the
list can be dropped when one of them turns up.

`descends_iff` says it without naming the descent: the answers of the scan,
a value or none with the operations that remain, are the only ones that obey
the rules of evaluation by recursion.
-/

namespace Rpn

namespace Stack

/-! ## The rules of the descent

One equation for each way a stack can begin. The proofs of shrinking that
`descendWithin` carries are gone from them, and only `descend_shorter` keeps
what they said. -/

theorem descend_nil : descend [] = .ok none := by
  rw [descend, Evaluation.descendWithin]
  rfl

theorem descend_operand {value : Float} {rest : Stack} :
    descend (.operand value :: rest) = .ok (some (value, rest)) := by
  rw [descend, Evaluation.descendWithin]
  rfl

theorem descend_foreign {object : Foreign} {rest : Stack} :
    descend (.foreign object :: rest) =
      .error (.notOperation object.label) := by
  rw [descend, Evaluation.descendWithin]
  rfl

theorem descend_unary {op : Unary} {rest : Stack} :
    descend (.unary op :: rest) =
      match descend rest with
      | .error fault => .error fault
      | .ok none => .ok none
      | .ok (some (only, left)) =>
        (op.apply only).map fun value => some (value, left) := by
  simp only [descend]
  rw [Evaluation.descendWithin]
  rcases Evaluation.descendWithin rest with fault | ⟨_ | ⟨only, left⟩, h⟩
  · rfl
  · rfl
  · simp only [Except.map]
    cases op.apply only <;> rfl

theorem descend_binary {op : Binary} {rest : Stack} :
    descend (.binary op :: rest) =
      match descend rest with
      | .error fault => .error fault
      | .ok none => .ok none
      | .ok (some (nearer, middle)) =>
        match descend middle with
        | .error fault => .error fault
        | .ok none => .ok none
        | .ok (some (deeper, left)) =>
          (op.apply nearer deeper).map fun value => some (value, left) := by
  simp only [descend]
  rw [Evaluation.descendWithin]
  rcases Evaluation.descendWithin rest with fault | ⟨_ | ⟨nearer, middle⟩, h⟩
  · rfl
  · rfl
  · simp only [Except.map]
    rcases Evaluation.descendWithin middle with
      fault | ⟨_ | ⟨deeper, left⟩, hleft⟩
    · rfl
    · rfl
    · simp only []
      cases op.apply nearer deeper <;> rfl

theorem descend_shorter {stack rest : Stack} {value : Float}
    (h : stack.descend = .ok (some (value, rest))) :
    rest.length < stack.length := by
  rw [descend] at h
  rcases hd : Evaluation.descendWithin stack with fault | ⟨outcome, hlt⟩
  · rw [hd] at h
    cases h
  · rw [hd] at h
    cases h
    exact hlt _ _ rfl

/-! A value on top of an operator came from values of its operands. -/

theorem descend_unary_eq_some {op : Unary} {rest left : Stack} {value : Float}
    (h : descend (.unary op :: rest) = .ok (some (value, left))) :
    ∃ only, descend rest = .ok (some (only, left)) ∧
      op.apply only = .ok value := by
  rw [descend_unary] at h
  rcases hrest : descend rest with fault | _ | ⟨only, left'⟩ <;>
    rw [hrest] at h
  · cases h
  · cases h
  · simp only [] at h
    cases happly : op.apply only with
    | error fault =>
        rw [happly] at h
        cases h
    | ok result =>
        rw [happly] at h
        cases h
        exact ⟨only, rfl, happly⟩

theorem descend_binary_eq_some {op : Binary} {rest left : Stack}
    {value : Float}
    (h : descend (.binary op :: rest) = .ok (some (value, left))) :
    ∃ nearer middle deeper, descend rest = .ok (some (nearer, middle)) ∧
      descend middle = .ok (some (deeper, left)) ∧
      op.apply nearer deeper = .ok value := by
  rw [descend_binary] at h
  rcases hrest : descend rest with fault | _ | ⟨nearer, middle⟩ <;>
    rw [hrest] at h
  · cases h
  · cases h
  · simp only [] at h
    rcases hmiddle : descend middle with fault | _ | ⟨deeper, left'⟩ <;>
      rw [hmiddle] at h
    · cases h
    · cases h
    · simp only [] at h
      cases happly : op.apply nearer deeper with
      | error fault =>
          rw [happly] at h
          cases h
      | ok result =>
          rw [happly] at h
          cases h
          exact ⟨nearer, middle, deeper, rfl, hmiddle, happly⟩

end Stack

/-! ## The scan, with whatever waits -/

namespace Evaluation

/-- Goes on from the outcome of a stack on behalf of the operators that wait:
its value is read as if it lay on what is left, and without a value there is
nothing to go on with. -/
def goOn (pending : List Waiting) : Except Fault Outcome → Except Fault Outcome
  | .error fault => .error fault
  | .ok none => .ok none
  | .ok (some (value, rest)) => Expression.resume pending rest (.ok value)

theorem goOn_map {pending : List Waiting} {rest : Stack}
    {result : Except Fault Float} :
    goOn pending (result.map fun value => some (value, rest)) =
      Expression.resume pending rest result := by
  cases result <;> rfl

theorem goOn_nil {outcome : Except Fault Outcome} :
    goOn [] outcome = outcome := by
  rcases outcome with fault | _ | ⟨value, rest⟩ <;> rfl

/-- Reading a stack is descending into it and going on from there. The
induction is on the length of the stack and holds for all operators that wait,
since each operator read adds itself to them. -/
theorem scan_eq (pending : List Waiting) (stack : Stack) :
    scan pending stack = goOn pending stack.descend := by
  match stack with
  | [] => rw [Stack.descend_nil, scan, goOn]
  | .operand value :: rest =>
      rw [Stack.descend_operand, goOn, Expression.resume]
  | .foreign object :: rest => rw [Stack.descend_foreign, scan, goOn]
  | .unary op :: rest =>
      rw [scan, scan_eq _ rest, Stack.descend_unary]
      rcases Stack.descend rest with fault | _ | ⟨only, left⟩
      · rfl
      · rfl
      · simp only [goOn_map]
        rw [goOn, Expression.resume_unary]
  | .binary op :: rest =>
      rw [scan, scan_eq _ rest, Stack.descend_binary]
      rcases hrest : Stack.descend rest with fault | _ | ⟨nearer, middle⟩
      · rfl
      · rfl
      · have hlt := Stack.descend_shorter hrest
        simp only []
        rw [goOn, Expression.resume, scan, supply]
        simp only []
        rw [scan_eq _ middle]
        rcases Stack.descend middle with fault | _ | ⟨deeper, left⟩
        · rfl
        · rfl
        · simp only [goOn_map]
          rw [goOn, Expression.resume_binaryWith]
termination_by stack.length
decreasing_by
  all_goals
    simp only [List.length_cons]
    omega

end Evaluation

theorem Stack.evaluate_eq_descend (stack : Stack) :
    stack.evaluate = stack.descend := by
  rw [evaluate, Evaluation.scan_eq, Evaluation.goOn_nil]

/-! ## The rules determine the answers -/

/-- What a stack is answered with: its value, if it has one, and the
operations that remain, which are all of them if it has none. -/
def Stack.answer (stack : Stack) : Except Fault (Option Float × Stack) :=
  stack.evaluate.map fun outcome => (outcome.value?, outcome.remainder stack)

/-- The rules of evaluation by recursion, for a function that answers each
stack with a value or none and with the operations that remain. An operand
that cannot be had gives back the stack that asked for it, however much of it
had been read. With its operands at hand, an operator has the result of its
function (`Unary.apply_of_ok`, `Binary.apply_of_ok`) or the fault that a failure
of the function is (`Unary.apply_of_error`, `Binary.apply_of_error`). -/
structure Descends
    (answer : Stack → Except Fault (Option Float × Stack)) : Prop where
  empty : answer [] = .ok (none, [])
  operand : ∀ value rest,
    answer (.operand value :: rest) = .ok (some value, rest)
  foreign : ∀ object rest,
    answer (.foreign object :: rest) = .error (.notOperation object.label)
  unary : ∀ op rest,
    answer (.unary op :: rest) =
      match answer rest with
      | .error fault => .error fault
      | .ok (none, _) => .ok (none, .unary op :: rest)
      | .ok (some only, left) =>
        (op.apply only).map fun value => (some value, left)
  binary : ∀ op rest,
    answer (.binary op :: rest) =
      match answer rest with
      | .error fault => .error fault
      | .ok (none, _) => .ok (none, .binary op :: rest)
      | .ok (some nearer, middle) =>
        match answer middle with
        | .error fault => .error fault
        | .ok (none, _) => .ok (none, .binary op :: rest)
        | .ok (some deeper, left) =>
          (op.apply nearer deeper).map fun value => (some value, left)

/-- An answer as it is found by descent. -/
theorem Stack.answer_eq (stack : Stack) :
    stack.answer =
      match stack.descend with
      | .error fault => .error fault
      | .ok none => .ok (none, stack)
      | .ok (some (value, rest)) => .ok (some value, rest) := by
  rw [answer, evaluate_eq_descend]
  rcases stack.descend with fault | _ | ⟨value, rest⟩ <;> rfl

theorem Stack.answer_descends : Descends Stack.answer where
  empty := by rw [answer_eq, descend_nil]
  operand value rest := by rw [answer_eq, descend_operand]
  foreign object rest := by rw [answer_eq, descend_foreign]
  unary op rest := by
    rw [answer_eq, answer_eq rest, descend_unary]
    rcases Stack.descend rest with fault | _ | ⟨only, left⟩
    · rfl
    · rfl
    · simp only []
      cases op.apply only <;> rfl
  binary op rest := by
    rw [answer_eq, answer_eq rest, descend_binary]
    rcases Stack.descend rest with fault | _ | ⟨nearer, middle⟩
    · rfl
    · rfl
    · simp only []
      rw [answer_eq middle]
      rcases Stack.descend middle with fault | _ | ⟨deeper, left⟩
      · rfl
      · rfl
      · simp only []
        cases op.apply nearer deeper <;> rfl

/-- What is left of a stack that has a value is shorter than the stack. -/
theorem Stack.answer_shorter {stack rest : Stack} {value : Float}
    (h : stack.answer = .ok (some value, rest)) :
    rest.length < stack.length := by
  rw [answer_eq] at h
  rcases hd : stack.descend with fault | _ | ⟨value', rest'⟩
  · rw [hd] at h
    cases h
  · rw [hd] at h
    cases h
  · rw [hd] at h
    cases h
    exact descend_shorter hd

theorem Descends.eq_answer
    {answer : Stack → Except Fault (Option Float × Stack)}
    (h : Descends answer) (stack : Stack) : answer stack = stack.answer := by
  match stack with
  | [] => rw [h.empty, Stack.answer_descends.empty]
  | .operand value :: rest => rw [h.operand, Stack.answer_descends.operand]
  | .foreign object :: rest => rw [h.foreign, Stack.answer_descends.foreign]
  | .unary op :: rest =>
      rw [h.unary, Stack.answer_descends.unary, h.eq_answer rest]
  | .binary op :: rest =>
      rw [h.binary, Stack.answer_descends.binary, h.eq_answer rest]
      rcases hrest : Stack.answer rest with fault | ⟨_ | nearer, middle⟩
      · rfl
      · rfl
      · have hlt := Stack.answer_shorter hrest
        simp only []
        rw [h.eq_answer middle]
termination_by stack.length
decreasing_by
  all_goals
    simp only [List.length_cons]
    omega

/-- The scan obeys the rules of evaluation by recursion, and whatever obeys
them gives the same answers, faults included. -/
theorem descends_iff
    {answer : Stack → Except Fault (Option Float × Stack)} :
    Descends answer ↔ answer = Stack.answer := by
  refine ⟨fun h => funext h.eq_answer, ?_⟩
  intro h
  rw [h]
  exact Stack.answer_descends

end Rpn
