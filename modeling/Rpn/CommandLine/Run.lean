import Rpn.CommandLine.Lines
import Rpn.CommandLine.Options
import Rpn.CommandLine.Transcript
import Rpn.Number.GrammarText

/-!
# Runs

A run takes its lines from one of three places: the words of an expression,
which make up one line, the keyboard, or standard input. It enters them all and
then writes out the program if that was asked for, or it does nothing but show
the grammar.
-/

namespace Rpn.CommandLine

/-- The calculator that a run begins with. -/
def Options.calculator (o : Options) : Calculator :=
  .new .standard [] .logging (some o.strict)

/-- Where the lines of a run come from. -/
inductive Source where
  | expression (line : String)
  | keyboard
  | input

/-- The words of an expression are one line. An empty prompt is no prompt. -/
def Options.source (o : Options) : Source :=
  match o.expression?, o.prompt? with
  | some words, _ => .expression (" ".intercalate words)
  | none, some prompt => if prompt = "" then .input else .keyboard
  | none, none => .input

/-- The lines of a run, given what standard input holds and what is typed. -/
def Source.lines (input keys : String) : Source → Typed
  | .expression line => ⟨[line], false⟩
  | .keyboard => .ofText keys
  | .input => ⟨linesOf input, false⟩

/-- A run on given lines. -/
def Options.run (o : Options) (typed : Typed) : Transcript :=
  match o.task with
  | .showGrammar => ⟨[.answer Number.grammarText], .finished⟩
  | task =>
    let (entered, c) := enterLines o.calculator typed.lines
    match entered.ending with
    | .finished =>
      if typed.interrupted then { entered with ending := .interrupted }
      else if task = .calculateAndDump then { entered with outputs := entered.outputs ++ dump c }
      else entered
    | _ => entered

/-- The exit code of a run. -/
def Ending.exitCode : Ending → Nat
  | finished | helped => 0
  | interrupted | escaped _ => 1
  | misused => 2

/-- How the program is called. -/
def usage : String :=
  "usage: rpn [-h] [-v] [-s] [-e ... | -p [PROMPT]] [-G | -D]"

/-- What a refused command line comes to. -/
def Refusal.transcript : Refusal → Transcript
  | helpWanted => ⟨[.answer usage], .helped⟩
  | wrongUsage => ⟨[.complaint usage], .misused⟩

/-- A run as it is seen from outside. -/
structure Seen where
  output : String
  error : String
  ending : Ending

/-- A transcript as it is seen with the log or without it. -/
def Transcript.seen (t : Transcript) (verbose : Bool) : Seen :=
  ⟨t.standardOutput, t.standardError verbose, t.ending⟩

/-- A run of the program on a command line, given what standard input holds and
what is typed. -/
def run (arguments : List String) (input keys : String) : Seen :=
  match Options.ofArguments arguments with
  | .ok o => (o.run (o.source.lines input keys)).seen o.verbose
  | .error refusal => refusal.transcript.seen false

end Rpn.CommandLine
