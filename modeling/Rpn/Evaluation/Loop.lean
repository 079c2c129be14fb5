import Rpn.Evaluation.Basic

/-!
# Evaluation with open books

The same way of evaluating, with everything written down that the scan leaves to
its types. A program is a row of operations as they were typed, bottom first,
and the loop counts down how many of them are not read yet. An operator that
waits has its place in the program and a list of the operands found so far. A
value that is found goes to the operator that waits innermost; that one is
applied unless it has fewer operands than it takes.

Nothing here keeps an operator from being applied to too many operands or too
few of them. That would end the run in a way of its own.
-/

namespace Rpn

/-- An operation that takes operands. -/
inductive Operator where
  | unary (op : Unary)
  | binary (op : Binary)

namespace Operator

/-- How many operands an operator takes. -/
def arity : Operator → Nat
  | unary _ => 1
  | binary _ => 2

/-- The result on operands, the nearest one first, if their number is right. -/
def result? : Operator → List Float → Option (Except Fault Float)
  | unary op, [only] => some (op.apply only)
  | binary op, [nearer, deeper] => some (op.apply nearer deeper)
  | _, _ => none

end Operator

/-- The operator that an operation is, if it takes operands. -/
def Operation.operator? : Operation → Option Operator
  | unary op => some (.unary op)
  | binary op => some (.binary op)
  | _ => none

namespace Loop

/-- An operator with its place in the program, counted from the bottom, and the
operands found for it so far, the nearest one first. -/
structure Pending where
  place : Nat
  operator : Operator
  operands : List Float

/-- The operator with one more operand. -/
def Pending.collect (value : Float) (p : Pending) : Pending :=
  { p with operands := p.operands ++ [value] }

/-- How a run ends. -/
inductive Ending where
  | value (value : Float)
  | exhausted
  | fault (fault : Fault)
  /-- An operator was applied to a wrong number of operands. -/
  | misapplied

/-- How it goes on after an operation was read: with the operators that wait,
innermost first, or not at all. -/
inductive Next where
  | again (pending : List Pending)
  | ended (ending : Ending)

/-- What comes of reading an operation: the operators that were applied to their
operands, in order, and how it goes on. -/
structure Round where
  applied : List Pending
  next : Next

/-- Hands a value up to the operators that wait, until one of them needs more
operands. -/
def handUp : List Pending → Float → Round
  | [], value => ⟨[], .ended (.value value)⟩
  | p :: pending, value =>
    let call := p.collect value
    if call.operands.length < call.operator.arity then ⟨[], .again (call :: pending)⟩
    else
      match call.operator.result? call.operands with
      | none => ⟨[call], .ended .misapplied⟩
      | some (.error fault) => ⟨[call], .ended (.fault fault)⟩
      | some (.ok result) =>
        let later := handUp pending result
        { later with applied := call :: later.applied }

/-- Reads the operation at a place. -/
def read (pending : List Pending) (place : Nat) : Operation → Round
  | .operand value => handUp pending value
  | .unary op => ⟨[], .again (⟨place, .unary op, []⟩ :: pending)⟩
  | .binary op => ⟨[], .again (⟨place, .binary op, []⟩ :: pending)⟩
  | .foreign object => ⟨[], .ended (.fault (.notOperation object.label))⟩

/-- The head of the loop: how many operations are not read yet, and the
operators that wait. -/
structure Head where
  top : Nat
  pending : List Pending

/-- The books of a run: the heads that it came to, the places that it read, the
operators that it applied to their operands, all in order; and at its end the
number of operations that were not read. -/
structure Run where
  heads : List Head
  visited : List Nat
  applied : List Pending
  top : Nat
  ending : Ending

/-- The run from a head on. -/
def run (ops : List Operation) :
    (top : Nat) → top ≤ ops.length → List Pending → Run
  | 0, _, pending => ⟨[⟨0, pending⟩], [], [], 0, .exhausted⟩
  | top + 1, h, pending =>
    have hread : top < ops.length := h
    let round := read pending top ops[top]
    match round.next with
    | .ended ending => ⟨[⟨top + 1, pending⟩], [top], round.applied, top, ending⟩
    | .again left =>
      let later := run ops top (Nat.le_of_lt hread) left
      { later with
        heads := ⟨top + 1, pending⟩ :: later.heads
        visited := top :: later.visited
        applied := round.applied ++ later.applied }

/-- The run on a whole program. -/
def ofProgram (ops : List Operation) : Run :=
  run ops ops.length (Nat.le_refl _) []

/-- What a run comes to, if it ends in one of the ways in which evaluation does.
-/
def Run.outcome? (ops : List Operation) (r : Run) : Option (Except Fault Outcome) :=
  match r.ending with
  | .value value => some (.ok (some (value, (ops.take r.top).reverse)))
  | .exhausted => some (.ok none)
  | .fault fault => some (.error fault)
  | .misapplied => none

end Loop

end Rpn
