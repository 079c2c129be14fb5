import Rpn.Calculator.Basic

/-!
# Entering lines

A line is entered token by token, each acting at once: the clear key, a
registered operation, a number, or something unknown, which is refused or passed
over. The answer to a line is that of its last token, and a line without tokens
is answered by evaluating what is there. A fault ends the line; what was entered
before it stays.
-/

namespace Rpn.Calculator

/-- The token that clears the stack. -/
def clearKey : String := "C"

/-- Enters one token. -/
def enterToken (token : String) (c : Calculator) : Report (Option Float) :=
  if token = clearKey then
    let report := c.reset
    ⟨report.outcome.map some, report.after, report.notices⟩
  else if c.registry.contains token then c.perform (.text token)
  else if Number.isNumber token then
    match Token.number token with
    | .ok x => c.push (.real x)
    | .error fault => ⟨.error fault, c, []⟩
  else if c.strict then ⟨.error (.unknownToken token), c, []⟩
  else c.perform (.text token)

/-- Enters tokens one after another, after what was reported so far. -/
def enterTokens (sofar : Report (Option Float)) : List String → Report (Option Float)
  | [] => sofar
  | token :: rest =>
    match sofar.outcome with
    | .error _ => sofar
    | .ok _ => enterTokens ((sofar.after.enterToken token).following sofar.notices) rest

/-- Enters a line. -/
def enter (line : String) (c : Calculator) : Report (Option Float) :=
  enterTokens c.evaluate (Token.ofLine line)

end Rpn.Calculator
