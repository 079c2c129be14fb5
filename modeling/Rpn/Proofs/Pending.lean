import Mathlib.Data.List.Forall2
import Rpn.Evaluation.Loop
import Rpn.Expression

/-!
# Operators wait for as long as they lack operands

The loop keeps operands in lists that may have any length, and the scan has a
constructor for each way of waiting. What an entry of the loop's books stands
for in the scan is `Stands`. No entry that stands for anything has as many
operands as its operator takes, so it is enough that the two go on side by side.

They do so operation by operation (`steps_read`). An operator that is read
begins to wait, and an operand is handed up: every operator that it completes is
applied to just the operands it takes, and the last of the results is the value
of the whole, or goes to an operator that waits on. No operator is lost or
doubled on the way, so those that were applied and those that still wait are
always the ones that were read. The induction over the places of the program is
`orderly_run`; when it ends with a value none waits any more, and each operator
that was read has been applied once (`ofProgram_is_orderly`).
-/

namespace Rpn.Loop

open Evaluation (scan)

/-- The operator of an entry, with its place. -/
def Pending.origin (p : Pending) : Nat × Operator :=
  (p.place, p.operator)

/-- Whether an operator lacks operands. -/
def Pending.IsShort (p : Pending) : Prop :=
  p.operands.length < p.operator.arity

/-- Whether an operator has just the operands that it takes. -/
def Pending.IsComplete (p : Pending) : Prop :=
  p.operands.length = p.operator.arity

/-- What an entry stands for among the operators that wait for the scan. -/
inductive Stands : Pending → Waiting → Prop where
  | unary (place : Nat) (op : Unary) :
      Stands ⟨place, .unary op, []⟩ (.unary op)
  | binary (place : Nat) (op : Binary) :
      Stands ⟨place, .binary op, []⟩ (.binary op)
  | binaryWith (place : Nat) (op : Binary) (nearer : Float) :
      Stands ⟨place, .binary op, [nearer]⟩ (.binaryWith op nearer)

theorem Stands.isShort {p : Pending} {w : Waiting} (h : Stands p w) :
    p.IsShort := by
  cases h with
  | unary place op => exact Nat.zero_lt_one
  | binary place op => exact Nat.zero_lt_two
  | binaryWith place op nearer => exact Nat.one_lt_two

theorem isShort_of_stands {pending : List Pending} {waiting : List Waiting}
    (h : List.Forall₂ Stands pending waiting) : ∀ p ∈ pending, p.IsShort := by
  induction h with
  | nil => exact nofun
  | cons hp _ ih => exact List.forall_mem_cons.2 ⟨hp.isShort, ih⟩

/-- The operator that an operation at a place is, with the place. -/
def originAt? (place : Nat) (op : Operation) : Option (Nat × Operator) :=
  op.operator?.map (place, ·)

theorem originAt?_operand (place : Nat) (value : Float) :
    originAt? place (.operand value) = none := rfl

/-! ## One operation -/

/-- How reading an operation goes on while the scan reads it too: with other
entries that stand for what waits in the scan by then, or to the same end.
Operators are applied only if they have all their operands, and together with
those that go on waiting they are the ones that waited before and the one that
was read. -/
inductive Steps (pending : List Pending) (waiting : List Waiting) (place : Nat)
    (op : Operation) : Round → Prop where
  | again {applied left : List Pending} {next : List Waiting}
      (hcomplete : ∀ call ∈ applied, call.IsComplete)
      (horigins : ((applied ++ left).map Pending.origin).Perm
        (pending.map Pending.origin ++ (originAt? place op).toList))
      (hstands : List.Forall₂ Stands left next)
      (hscan : ∀ rest, scan waiting (op :: rest) = scan next rest) :
      Steps pending waiting place op ⟨applied, .again left⟩
  | value {applied : List Pending} {value : Float}
      (hcomplete : ∀ call ∈ applied, call.IsComplete)
      (horigins : (applied.map Pending.origin).Perm
        (pending.map Pending.origin ++ (originAt? place op).toList))
      (hscan : ∀ rest, scan waiting (op :: rest) = .ok (some (value, rest))) :
      Steps pending waiting place op ⟨applied, .ended (.value value)⟩
  | fault {applied : List Pending} {fault : Fault}
      (hcomplete : ∀ call ∈ applied, call.IsComplete)
      (hscan : ∀ rest, scan waiting (op :: rest) = .error fault) :
      Steps pending waiting place op ⟨applied, .ended (.fault fault)⟩

section HandUp

variable {pending : List Pending} {waiting : List Waiting} {place : Nat}
  {p call : Pending} {w : Waiting} {value result : Float}

/-- A value that completes the innermost operator goes on as the result of
that. -/
theorem Steps.handOn {round : Round}
    (h : Steps pending waiting place (.operand result) round)
    (hcall : call.IsComplete) (horigin : call.origin = p.origin)
    (hscan : ∀ rest, scan (w :: waiting) (.operand value :: rest) =
      scan waiting (.operand result :: rest)) :
    Steps (p :: pending) (w :: waiting) place (.operand value)
      { round with applied := call :: round.applied } := by
  cases h with
  | again hcomplete horigins hstands hrest =>
      refine .again (List.forall_mem_cons.2 ⟨hcall, hcomplete⟩) ?_ hstands
        fun rest => (hscan rest).trans (hrest rest)
      rw [List.cons_append, List.map_cons, List.map_cons, horigin]
      exact horigins.cons _
  | value hcomplete horigins hrest =>
      refine .value (List.forall_mem_cons.2 ⟨hcall, hcomplete⟩) ?_
        fun rest => (hscan rest).trans (hrest rest)
      rw [List.map_cons, List.map_cons, horigin]
      exact horigins.cons _
  | fault hcomplete hrest =>
      exact .fault (List.forall_mem_cons.2 ⟨hcall, hcomplete⟩)
        fun rest => (hscan rest).trans (hrest rest)

theorem steps_complete {outcome : Except Fault Float}
    (hcomplete : (p.collect value).IsComplete)
    (happly : p.operator.result? (p.collect value).operands = some outcome)
    (hscan : ∀ rest, scan (w :: waiting) (.operand value :: rest) =
      Expression.resume waiting rest outcome)
    (ih : ∀ result, Steps pending waiting place (.operand result)
      (handUp pending result)) :
    Steps (p :: pending) (w :: waiting) place (.operand value)
      (handUp (p :: pending) value) := by
  have hfull : ¬ (p.collect value).operands.length <
      (p.collect value).operator.arity :=
    Nat.not_lt.2 (Nat.le_of_eq hcomplete.symm)
  have happly' : (p.collect value).operator.result?
      (p.collect value).operands = some outcome := happly
  rw [handUp, if_neg hfull, happly']
  cases outcome with
  | error fault =>
      refine .fault (fun call hcall => ?_) hscan
      rw [List.mem_singleton.1 hcall]
      exact hcomplete
  | ok result => exact (ih result).handOn hcomplete rfl hscan

theorem steps_handUp (h : List.Forall₂ Stands pending waiting) (place : Nat)
    (value : Float) :
    Steps pending waiting place (.operand value) (handUp pending value) := by
  induction h generalizing value with
  | nil => exact .value nofun .rfl fun _ => rfl
  | cons hp hrest ih =>
      cases hp with
      | unary here op =>
          exact steps_complete rfl rfl (fun _ => Expression.resume_unary) ih
      | binary here op =>
          refine .again nofun ?_ (.cons (.binaryWith here op value) hrest)
            fun _ => rfl
          rw [originAt?_operand, Option.toList_none, List.append_nil]
          exact .rfl
      | binaryWith here op nearer =>
          exact steps_complete rfl rfl
            (fun _ => Expression.resume_binaryWith) ih

end HandUp

/-- An operator that is read waits from then on, innermost. -/
theorem steps_begin {pending : List Pending} {waiting : List Waiting}
    {place : Nat} {op : Operation} {operator : Operator} {w : Waiting}
    (h : List.Forall₂ Stands pending waiting)
    (hop : op.operator? = some operator)
    (hw : Stands ⟨place, operator, []⟩ w)
    (hscan : ∀ rest, scan waiting (op :: rest) = scan (w :: waiting) rest) :
    Steps pending waiting place op
      ⟨[], .again (⟨place, operator, []⟩ :: pending)⟩ := by
  refine .again nofun ?_ (.cons hw h) hscan
  rw [originAt?, hop]
  exact (List.perm_append_singleton _ _).symm

theorem steps_read {pending : List Pending} {waiting : List Waiting}
    (h : List.Forall₂ Stands pending waiting) (place : Nat) (op : Operation) :
    Steps pending waiting place op (read pending place op) := by
  cases op with
  | operand value => exact steps_handUp h place value
  | unary op => exact steps_begin h rfl (.unary place op) fun _ => rfl
  | binary op => exact steps_begin h rfl (.binary place op) fun _ => rfl
  | foreign object => exact .fault nofun fun _ => rfl

/-! ## All operations -/

/-- The operator at a place of a program, with the place. -/
def operatorAt? (ops : List Operation) (place : Nat) : Option (Nat × Operator) :=
  ops[place]?.bind (originAt? place)

/-- What the books of a run say that begins with so many operations to be read,
while these operators wait. -/
structure IsOrderly (ops : List Operation) (top : Nat) (pending : List Pending)
    (waiting : List Waiting) (r : Run) : Prop where
  heads : ∀ head ∈ r.heads, ∀ p ∈ head.pending, p.IsShort
  applied : ∀ call ∈ r.applied, call.IsComplete
  outcome_eq : r.outcome? ops = some (scan waiting (ops.take top).reverse)
  exhausted : r.ending = .exhausted → r.top = 0
  top_le : r.top ≤ top
  visited_eq : r.visited = (List.range' r.top (top - r.top)).reverse
  origins : ∀ value, r.ending = .value value →
    (r.applied.map Pending.origin).Perm
      (pending.map Pending.origin ++ r.visited.filterMap (operatorAt? ops))

theorem reverse_take_succ {ops : List Operation} {top : Nat}
    (h : top < ops.length) :
    (ops.take (top + 1)).reverse = ops[top] :: (ops.take top).reverse := by
  rw [← List.take_append_getElem h, List.reverse_append, List.reverse_singleton,
    List.singleton_append]

theorem operatorAt?_of_lt {ops : List Operation} {place : Nat}
    (h : place < ops.length) :
    operatorAt? ops place = originAt? place ops[place] := by
  rw [operatorAt?, List.getElem?_eq_getElem h, Option.bind_some]

theorem reverse_range'_succ {low top : Nat} (h : low ≤ top) :
    (List.range' low (top + 1 - low)).reverse =
      top :: (List.range' low (top - low)).reverse := by
  rw [Nat.succ_sub h, List.range'_concat, List.reverse_append,
    List.reverse_singleton, List.singleton_append, Nat.one_mul,
    Nat.add_sub_cancel' h]

section Run

variable {ops : List Operation} {pending : List Pending}
  {waiting : List Waiting} {top : Nat}

theorem isOrderly_exhausted (h : List.Forall₂ Stands pending waiting) :
    IsOrderly ops 0 pending waiting ⟨[⟨0, pending⟩], [], [], 0, .exhausted⟩ where
  heads := List.forall_mem_singleton.2 (isShort_of_stands h)
  applied := nofun
  outcome_eq := rfl
  exhausted _ := rfl
  top_le := Nat.le_refl 0
  visited_eq := rfl
  origins := nofun

/-- The books of a run that ends with the operation on top. -/
theorem isOrderly_ended {applied : List Pending} {ending : Ending}
    (h : List.Forall₂ Stands pending waiting) (hlt : top < ops.length)
    (hcomplete : ∀ call ∈ applied, call.IsComplete)
    (houtcome : Run.outcome? ops ⟨[⟨top + 1, pending⟩], [top], applied, top, ending⟩ =
      some (scan waiting (ops[top] :: (ops.take top).reverse)))
    (hended : ending ≠ .exhausted)
    (horigins : ∀ value, ending = .value value →
      (applied.map Pending.origin).Perm
        (pending.map Pending.origin ++ (originAt? top ops[top]).toList)) :
    IsOrderly ops (top + 1) pending waiting
      ⟨[⟨top + 1, pending⟩], [top], applied, top, ending⟩ where
  heads := List.forall_mem_singleton.2 (isShort_of_stands h)
  applied := hcomplete
  outcome_eq := by
    rw [reverse_take_succ hlt]
    exact houtcome
  exhausted heq := absurd heq hended
  top_le := Nat.le_succ top
  visited_eq := by
    rw [reverse_range'_succ (Nat.le_refl top), Nat.sub_self]
    rfl
  origins value heq := by
    rw [List.filterMap_eq_flatMap_toList, List.flatMap_singleton,
      operatorAt?_of_lt hlt]
    exact horigins value heq

/-- The books of a run that goes on. The operators that it applies later are
those that go on waiting and those that are read later. -/
theorem IsOrderly.again {applied left : List Pending} {next : List Waiting}
    {later : Run} (hlater : IsOrderly ops top left next later)
    (h : List.Forall₂ Stands pending waiting) (hlt : top < ops.length)
    (hcomplete : ∀ call ∈ applied, call.IsComplete)
    (horigins : ((applied ++ left).map Pending.origin).Perm
      (pending.map Pending.origin ++ (originAt? top ops[top]).toList))
    (hscan : ∀ rest, scan waiting (ops[top] :: rest) = scan next rest) :
    IsOrderly ops (top + 1) pending waiting
      { later with
        heads := ⟨top + 1, pending⟩ :: later.heads
        visited := top :: later.visited
        applied := applied ++ later.applied } where
  heads := List.forall_mem_cons.2 ⟨isShort_of_stands h, hlater.heads⟩
  applied := List.forall_mem_append.2 ⟨hcomplete, hlater.applied⟩
  outcome_eq := by
    rw [reverse_take_succ hlt, hscan]
    exact hlater.outcome_eq
  exhausted := hlater.exhausted
  top_le := Nat.le_succ_of_le hlater.top_le
  visited_eq := by
    rw [reverse_range'_succ hlater.top_le, ← hlater.visited_eq]
  origins value heq := by
    let read := (originAt? top ops[top]).toList
    let unread := later.visited.filterMap (operatorAt? ops)
    have hrest := hlater.origins value heq
    rw [List.filterMap_eq_flatMap_toList, List.flatMap_cons,
      ← List.filterMap_eq_flatMap_toList, operatorAt?_of_lt hlt]
    calc (applied ++ later.applied).map Pending.origin
        = applied.map Pending.origin ++ later.applied.map Pending.origin :=
          List.map_append
      List.Perm _ (applied.map Pending.origin ++
            (left.map Pending.origin ++ unread)) := hrest.append_left _
      _ = (applied ++ left).map Pending.origin ++ unread := by
          rw [List.map_append, List.append_assoc]
      List.Perm _ (pending.map Pending.origin ++ read ++ unread) :=
          horigins.append_right _
      _ = pending.map Pending.origin ++ (read ++ unread) :=
          List.append_assoc ..

theorem orderly_run (top : Nat) (htop : top ≤ ops.length)
    (h : List.Forall₂ Stands pending waiting) :
    IsOrderly ops top pending waiting (run ops top htop pending) := by
  induction top generalizing pending waiting with
  | zero => exact isOrderly_exhausted h
  | succ top ih =>
      have hlt : top < ops.length := htop
      have hsteps := steps_read h top ops[top]
      rw [run]
      generalize read pending top ops[top] = round at hsteps
      cases hsteps with
      | again hcomplete horigins hstands hscan =>
          have hlater := ih (Nat.le_of_lt hlt) hstands
          exact hlater.again h hlt hcomplete horigins hscan
      | value hcomplete horigins hscan =>
          refine isOrderly_ended h hlt hcomplete ?_ nofun fun _ _ => horigins
          rw [hscan]
          rfl
      | fault hcomplete hscan =>
          refine isOrderly_ended h hlt hcomplete ?_ nofun nofun
          rw [hscan]
          rfl

end Run

/-- Whenever the loop comes to its head, every operator that waits has fewer
operands than it takes, so it is only applied to just as many. The run comes to
what evaluating the stack does, and without a value or a fault only when nothing
is left to be read. The places are read from the top down, one after another.
When the run ends with a value, the operators that it applied are those that it
read, each of them once. -/
theorem ofProgram_is_orderly (ops : List Operation) :
    let r := ofProgram ops
    (∀ head ∈ r.heads, ∀ p ∈ head.pending,
      p.operands.length < p.operator.arity) ∧
    (∀ call ∈ r.applied, call.operands.length = call.operator.arity) ∧
    r.outcome? ops = some (Stack.evaluate ops.reverse) ∧
    (r.ending = .exhausted → r.top = 0) ∧
    r.top ≤ ops.length ∧
    r.visited = (List.range' r.top (ops.length - r.top)).reverse ∧
    ∀ value, r.ending = .value value →
      (r.applied.map fun call => (call.place, call.operator)).Perm
        ((List.range' r.top (ops.length - r.top)).filterMap (operatorAt? ops)) := by
  intro r
  have h : IsOrderly ops ops.length [] [] r := orderly_run _ _ .nil
  refine ⟨h.heads, h.applied, ?_, h.exhausted, h.top_le, h.visited_eq,
    fun value heq => ?_⟩
  · rw [h.outcome_eq, List.take_length]
    rfl
  · have horigins := h.origins value heq
    rw [h.visited_eq, List.filterMap_reverse] at horigins
    exact horigins.trans (List.reverse_perm _)

/-- A difference on top of an operand that is not looked at: `1 8 2 −`. -/
example :
    let r := ofProgram [.operand 1, .operand 8, .operand 2,
      .binary ⟨"−", fun nearer deeper => .ok (deeper - nearer)⟩]
    r.visited = [3, 2, 1] ∧ r.applied.map Pending.place = [3] ∧ r.top = 1 := by
  decide +kernel

end Rpn.Loop
