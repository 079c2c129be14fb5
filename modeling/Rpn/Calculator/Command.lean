import Rpn.Calculator.Basic

/-!
# Commands

A session is a row of commands to one calculator. A command that fails does not
end the session: the next one acts on the calculator as the failure left it.
-/

namespace Rpn

/-- What can be asked of a calculator. -/
inductive Command where
  | push (value : Value)
  | perform (symbol : Value)
  | evaluate
  | repush
  | reset
  | load (tokens : Value) (strict : Option Bool)
  | setStrict (strict : Bool)
  | setObserver (observer : Observer)

/-- What a command answers. -/
inductive Reply where
  | result (value : Option Float)
  | display (value : Float)
  | done

namespace Calculator

/-- A report with its answer turned into a reply. -/
private def answered {α : Type} (reply : α → Reply) (r : Report α) : Report Reply :=
  ⟨r.outcome.map reply, r.after, r.notices⟩

/-- Carries out a command. -/
def execute (c : Calculator) : Command → Report Reply
  | .push value => answered .result (c.push value)
  | .perform symbol => answered .result (c.perform symbol)
  | .evaluate => answered .result c.evaluate
  | .repush => answered .result c.repush
  | .reset => answered .display c.reset
  | .load tokens strict => answered (fun _ => .done) (c.load tokens strict)
  | .setStrict strict => ⟨.ok .done, { c with strict := strict }, []⟩
  | .setObserver observer => ⟨.ok .done, { c with observer := observer }, []⟩

/-- The reports of a session, one for each command. -/
def session (c : Calculator) : List Command → List (Report Reply)
  | [] => []
  | command :: rest =>
    let report := c.execute command
    report :: session report.after rest

end Calculator

end Rpn
