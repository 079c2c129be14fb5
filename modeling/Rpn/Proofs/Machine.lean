import Rpn.Evaluation.Machine
import Rpn.Operation.Standard
import Rpn.Proofs.Descent

/-!
# One pass from the bottom finds every value

`Stack.evaluate` looks for one value from the top and stops; the machine of
`Rpn.Machine` passes over the whole stack from the bottom and ends with a row
of values. The row is what evaluating again and again would find: the value of
the stack, then that of its remainder, and so on until there is none
(`Stack.Yields`).

The two read in opposite directions, but a stack is a list with its top at the
head, so one induction along it serves both: the machine reads the top last,
and the descent asks for the values of the rest first. What one more operation
does to the row is then the same on both sides, too few operands included: the
machine drops the row because an operator over too few values blocks all that
lies beneath it from ever being reached.

Operators must have a result for all operands. The machine applies an operator
wherever it stands; the descent never gets to one that lies beneath the answer.
-/

namespace Rpn

/-- Whether an operation can be evaluated with any operands: its function
always has a result. -/
def Operation.IsTotal : Operation → Prop
  | .operand _ => True
  | .unary op => ∀ only, ∃ value, op.function only = .ok value
  | .binary op =>
      ∀ nearer deeper, ∃ value, op.function nearer deeper = .ok value
  | .foreign _ => False

/-- A stack yields its value, the value of what remains, and so on until what
remains has none. -/
inductive Stack.Yields : Stack → List Float → Prop where
  | stop {stack : Stack} (h : stack.evaluate = .ok none) : Yields stack []
  | next {stack rest : Stack} {value : Float} {values : List Float}
      (h : stack.evaluate = .ok (some (value, rest)))
      (hrest : Yields rest values) : Yields stack (value :: values)

namespace Stack

theorem Yields.evaluate_eq_none {stack : Stack} (h : Yields stack []) :
    stack.evaluate = .ok none := by
  cases h with
  | stop h => exact h

theorem Yields.evaluate_eq_some {stack : Stack} {value : Float}
    {values : List Float} (h : Yields stack (value :: values)) :
    ∃ rest, stack.evaluate = .ok (some (value, rest)) ∧ Yields rest values := by
  cases h with
  | next h hrest => exact ⟨_, h, hrest⟩

theorem Yields.head {stack : Stack} {values : List Float}
    (h : Yields stack values) :
    stack.evaluate.map Outcome.value? = .ok values.head? := by
  cases h with
  | stop h => rw [h]; rfl
  | next h _ => rw [h]; rfl

theorem Yields.unique {stack : Stack} {values values' : List Float}
    (h : Yields stack values) (h' : Yields stack values') :
    values = values' := by
  induction h generalizing values' with
  | stop hnone =>
      cases h' with
      | stop _ => rfl
      | next hsome _ =>
          rw [hnone] at hsome
          cases hsome
  | next hsome _ ih =>
      cases h' with
      | stop hnone =>
          rw [hnone] at hsome
          cases hsome
      | next hsome' hrest' =>
          rw [hsome] at hsome'
          cases hsome'
          rw [ih hrest']

/-! ## One more operation on top

Each lemma says what an operation makes of the row of the rest. -/

theorem yields_operand {value : Float} {rest : Stack} {values : List Float}
    (h : Yields rest values) :
    Yields (.operand value :: rest) (value :: values) := by
  refine .next ?_ h
  rw [evaluate_eq_descend, descend_operand]

theorem yields_unary {op : Unary} {rest : Stack} {only value : Float}
    {values : List Float} (hop : op.apply only = .ok value)
    (h : Yields rest (only :: values)) :
    Yields (.unary op :: rest) (value :: values) := by
  obtain ⟨left, hrest, hleft⟩ := h.evaluate_eq_some
  refine .next ?_ hleft
  rw [evaluate_eq_descend] at hrest ⊢
  rw [descend_unary, hrest]
  simp only []
  rw [hop]
  rfl

theorem yields_unary_nil {op : Unary} {rest : Stack} (h : Yields rest []) :
    Yields (.unary op :: rest) [] := by
  have hrest := h.evaluate_eq_none
  refine .stop ?_
  rw [evaluate_eq_descend] at hrest ⊢
  rw [descend_unary, hrest]

theorem yields_binary {op : Binary} {rest : Stack} {nearer deeper value : Float}
    {values : List Float} (hop : op.apply nearer deeper = .ok value)
    (h : Yields rest (nearer :: deeper :: values)) :
    Yields (.binary op :: rest) (value :: values) := by
  obtain ⟨middle, hrest, hmiddle⟩ := h.evaluate_eq_some
  obtain ⟨left, hdeeper, hleft⟩ := hmiddle.evaluate_eq_some
  refine .next ?_ hleft
  rw [evaluate_eq_descend] at hrest hdeeper ⊢
  rw [descend_binary, hrest]
  simp only []
  rw [hdeeper]
  simp only []
  rw [hop]
  rfl

theorem yields_binary_nil {op : Binary} {rest : Stack} (h : Yields rest []) :
    Yields (.binary op :: rest) [] := by
  have hrest := h.evaluate_eq_none
  refine .stop ?_
  rw [evaluate_eq_descend] at hrest ⊢
  rw [descend_binary, hrest]

theorem yields_binary_single {op : Binary} {rest : Stack} {nearer : Float}
    (h : Yields rest [nearer]) : Yields (.binary op :: rest) [] := by
  obtain ⟨middle, hrest, hmiddle⟩ := h.evaluate_eq_some
  have hnone := hmiddle.evaluate_eq_none
  refine .stop ?_
  rw [evaluate_eq_descend] at hrest hnone ⊢
  rw [descend_binary, hrest]
  simp only []
  rw [hnone]

end Stack

/-! ## The machine -/

namespace Machine

theorem run_append (values : List Float) (front back : List Operation) :
    run values (front ++ back) =
      match run values front with
      | .ok values => run values back
      | .error fault => .error fault := by
  induction front generalizing values with
  | nil => rfl
  | cons op front ih =>
      rw [List.cons_append, run, run]
      cases step values op with
      | error fault => rfl
      | ok values => exact ih values

theorem values_cons (op : Operation) (rest : Stack) :
    values (op :: rest) =
      match values rest with
      | .ok values => step values op
      | .error fault => .error fault := by
  rw [values, List.reverse_cons, run_append, ← values]
  cases values rest with
  | error fault => rfl
  | ok row =>
      simp only [run]
      cases step row op <;> rfl

/-- A machine step over the row that the rest yields ends in the row that the
stack yields. -/
theorem step_yields {op : Operation} {rest : Stack} {row : List Float}
    (hop : op.IsTotal) (h : Stack.Yields rest row) :
    ∃ row', step row op = .ok row' ∧ Stack.Yields (op :: rest) row' := by
  match op, row with
  | .operand value, row => exact ⟨value :: row, rfl, Stack.yields_operand h⟩
  | .foreign _, _ => exact False.elim hop
  | .unary op, [] => exact ⟨[], rfl, Stack.yields_unary_nil h⟩
  | .unary op, only :: row =>
      obtain ⟨value, hvalue⟩ := hop only
      have happly := Unary.apply_of_ok hvalue
      refine ⟨value :: row, ?_, Stack.yields_unary happly h⟩
      rw [step, happly]
      rfl
  | .binary op, [] => exact ⟨[], rfl, Stack.yields_binary_nil h⟩
  | .binary op, [nearer] => exact ⟨[], rfl, Stack.yields_binary_single h⟩
  | .binary op, nearer :: deeper :: row =>
      obtain ⟨value, hvalue⟩ := hop nearer deeper
      have happly := Binary.apply_of_ok hvalue
      refine ⟨value :: row, ?_, Stack.yields_binary happly h⟩
      rw [step, happly]
      rfl

theorem values_yields (stack : Stack) (h : ∀ op ∈ stack, op.IsTotal) :
    ∃ row, values stack = .ok row ∧ Stack.Yields stack row := by
  induction stack with
  | nil => exact ⟨[], rfl, .stop rfl⟩
  | cons op rest ih =>
      obtain ⟨row, hrow, hrest⟩ := ih fun op hop => h op (by simp [hop])
      obtain ⟨row', hstep, hyields⟩ := step_yields (h op (by simp)) hrest
      refine ⟨row', ?_, hyields⟩
      rw [values_cons, hrow]
      exact hstep

/-- The machine never fails on operators that are total. Its row is the one and
only row that the stack yields, so the stack's value is the first of it. -/
theorem values_eq_yields (stack : Stack) (h : ∀ op ∈ stack, op.IsTotal) :
    ∃ row, values stack = .ok row ∧
      stack.evaluate.map Outcome.value? = .ok row.head? ∧
      ∀ row', Stack.Yields stack row' ↔ row' = row := by
  obtain ⟨row, hrow, hyields⟩ := values_yields stack h
  refine ⟨row, hrow, hyields.head, fun row' => ?_⟩
  refine ⟨fun h' => h'.unique hyields, ?_⟩
  intro h'
  rw [h']
  exact hyields

/-- A sum above a product that has only one operand: `3 × 4 5 +`. -/
def dangling : Stack :=
  [Operation.totalBinary "+" (· + ·), .operand 5, .operand 4,
    Operation.totalBinary "×" (· * ·), .operand 3]

theorem values_dangling :
    values dangling = .ok [9] ∧
      dangling.evaluate.map Outcome.value? = .ok (some 9) ∧
      ∀ row, Stack.Yields dangling row ↔ row = [9] := by
  have htotal : ∀ op ∈ dangling, op.IsTotal := by
    intro op hop
    simp only [dangling, List.mem_cons, List.not_mem_nil, or_false] at hop
    rcases hop with rfl | rfl | rfl | rfl | rfl
    · exact fun _ _ => ⟨_, rfl⟩
    · exact trivial
    · exact trivial
    · exact fun _ _ => ⟨_, rfl⟩
    · exact trivial
  have hsum : (4 : Float) + 5 = 9 := by decide +kernel
  have hvalues : values dangling = .ok [9] := by
    rw [← hsum]
    rfl
  obtain ⟨row, hrow, hvalue, hyields⟩ := values_eq_yields dangling htotal
  rw [hvalues] at hrow
  obtain rfl : [9] = row := Except.ok.inj hrow
  exact ⟨hvalues, hvalue, hyields⟩

end Machine

end Rpn
