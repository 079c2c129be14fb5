import Rpn.Operation.Operand
import Rpn.Operation.Standard
import Rpn.Program

/-!
# Calculators

A calculator holds the stack of what was entered, together with what was settled
when it was set up: the registry and its settings. Whatever is done to it yields
a report, which holds the outcome, the calculator afterwards, and the notices
given on the way. The calculator afterwards is there after a fault too, because
some faults arise only once the stack has changed: an operation that was put on
the stack stays there when evaluating it fails.

Evaluating never changes the stack. The observer is told of every evaluation
that has an outcome; it may keep silent, write it down or log it. A caller's own
observer may fail at it, and with it what the evaluation was part of.
-/

namespace Rpn

/-- What distinguishes one kind of calculator from another. -/
structure Settings where
  name : String
  /-- What a display shows after a reset. -/
  resetValue : Float
  /-- Whether programs are read strictly unless the calculator is told
  otherwise. -/
  strict : Bool

/-- The settings of an ordinary calculator. -/
def Settings.standard : Settings where
  name := "Evaluator"
  resetValue := 0
  strict := false

/-- What happens after an evaluation. -/
inductive Observer where
  | silent
  | recording
  | logging
  /-- A caller's own observer. -/
  | calling (observe : Stack → Outcome → Except Mishap Unit)

/-- An observer that fails at every evaluation. -/
def Observer.failing (cause : Mishap) : Observer :=
  calling fun _ _ => .error cause

/-- What a calculator lets be known in passing. The last two go to the log under
every observer. -/
inductive Notice where
  | evaluated (stack : Stack) (outcome : Outcome)
  | ignored (symbol : Value)
  | dropped (token : Value)

namespace Notice

/-- The line of a log that gives a notice, if the value in it can be shown.
Stacks are shown bottom first. -/
def message : Notice → String
  | evaluated stack outcome =>
    Operation.rowLabel stack.reverse ++ " = " ++
      (outcome.value?.map numberText).getD Value.absent.shown ++ " with " ++
      Operation.rowLabel (outcome.remainder stack).reverse ++ " remaining"
  | ignored symbol => "Ignoring unknown operation " ++ symbol.shown
  | dropped token => "Dropping unrecognised token " ++ token.shown

end Notice

/-- Whether an observer writes a notice down for itself, so that it does not go
to the log. -/
def Observer.keeps : Observer → Notice → Bool
  | recording, .evaluated .. => true
  | _, _ => false

/-- A calculator. -/
structure Calculator where
  settings : Settings
  registry : Registry
  stack : Stack
  strict : Bool
  observer : Observer

/-- What came of doing something to a calculator. -/
structure Report (α : Type) where
  outcome : Except Fault α
  after : Calculator
  notices : List Notice

/-- A report with notices given earlier. -/
def Report.following {α : Type} (earlier : List Notice) (r : Report α) : Report α :=
  { r with notices := earlier ++ r.notices }

namespace Calculator

/-- A calculator with an empty stack. Its registry holds the standard operators
and then the extra operations; its own strictness is that of its settings unless
one is given. -/
def new (settings : Settings) (extra : List Operation) (observer : Observer)
    (strict : Option Bool) : Calculator where
  settings := settings
  registry := .ofList (Operation.standard ++ extra)
  stack := []
  strict := strict.getD settings.strict
  observer := observer

/-- The calculator with an operation on top of its stack. -/
def add (op : Operation) (c : Calculator) : Calculator :=
  { c with stack := op :: c.stack }

/-- Evaluates the stack, and tells the observer. -/
def evaluate (c : Calculator) : Report (Option Float) :=
  match c.stack.evaluate with
  | .error fault => ⟨.error fault, c, []⟩
  | .ok outcome =>
    match c.observer with
    | .silent => ⟨.ok outcome.value?, c, []⟩
    | .recording | .logging => ⟨.ok outcome.value?, c, [.evaluated c.stack outcome]⟩
    | .calling observe =>
      match observe c.stack outcome with
      | .ok () => ⟨.ok outcome.value?, c, []⟩
      | .error cause => ⟨.error (.observer cause), c, []⟩

/-- Puts an operand on the stack and evaluates. -/
def push (value : Value) (c : Calculator) : Report (Option Float) :=
  match value.toFloat with
  | .error fault => ⟨.error fault, c, []⟩
  | .ok x => (c.add (.operand x)).evaluate

/-- Puts the operation that a symbol names on the stack, if it names any, and
evaluates either way. A list cannot even be looked up. -/
def perform (symbol : Value) (c : Calculator) : Report (Option Float) :=
  match symbol with
  | .list items => ⟨.error (.notName (Value.list items).kind), c, []⟩
  | symbol =>
    match symbol.text?.bind c.registry.find? with
    | some op => (c.add op).evaluate
    | none => c.evaluate.following [.ignored symbol]

/-- Clears the stack, and answers with what a display should then show. -/
def reset (c : Calculator) : Report Float :=
  ⟨.ok c.settings.resetValue, { c with stack := [] }, []⟩

/-- The program on the stack. -/
def program (c : Calculator) : List String :=
  Program.ofStack c.stack

/-- Replaces the stack by a program. Given or else the calculator's own,
strictness decides whether tokens that stand for nothing are dropped or refused;
the stack is replaced only if nothing is wrong. -/
def load (tokens : Value) (strict : Option Bool) (c : Calculator) : Report Unit :=
  match tokens with
  | .text _ => ⟨.error .textForProgram, c, []⟩
  | .list items =>
    let strict := strict.getD c.strict
    let sorted := Program.sort c.registry 0 items
    let notices := (sorted.dropped strict).map .dropped
    match sorted.stack strict with
    | .error fault => ⟨.error fault, c, notices⟩
    | .ok stack => ⟨.ok (), { c with stack := stack }, notices⟩
  | value => ⟨.error (.notSequence value.kind), c, []⟩

/-- What the calculator is shown as. -/
def label (c : Calculator) : String :=
  c.settings.name ++ "(" ++ Operation.rowLabel c.stack.reverse ++ ")"

/-- Evaluates, and puts the result on the stack if there is one. -/
def repush (c : Calculator) : Report (Option Float) :=
  let first := c.evaluate
  match first.outcome with
  | .ok (some x) => (first.after.push (.real x)).following first.notices
  | _ => first

/-- A calculator set up like this one, with an empty stack, its settings'
strictness and no observer. -/
def replica (c : Calculator) : Calculator :=
  { c with stack := [], strict := c.settings.strict, observer := .silent }

/-- A replica into which the program was loaded. -/
def reloaded (c : Calculator) : Report Unit :=
  c.replica.load (.list (c.program.map .text)) none

end Calculator

end Rpn
