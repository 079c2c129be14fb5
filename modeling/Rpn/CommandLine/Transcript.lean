import Rpn.Calculator.Entry

/-!
# Transcripts

A run of the program answers each line of input by one line: the result goes to
standard output, or the message of a fault in what was typed goes to standard
error, and the next line is read. A fault of any other kind ends the run. At the
end the program on the stack may be written out, one symbol a line.

The calculator always logs. Whether the log is seen is a matter of reading the
transcript, so that it cannot change anything else.
-/

namespace Rpn.CommandLine

/-- A line that is written in a run. That of the log is made up only when it is
wanted. -/
inductive Output where
  | answer (line : String)
  | complaint (line : String)
  | log (notice : Notice)

/-- How a run ends. -/
inductive Ending where
  | finished
  | interrupted
  | escaped (fault : Fault)
  | helped
  | misused

/-- All that is written in a run, in order, and its ending. -/
structure Transcript where
  outputs : List Output
  ending : Ending

/-- What stands for the result of a line that has none. -/
def noResult : String := "-"

/-- What stands before a line of the log. -/
def logName : String := "rpneval.evaluator: "

/-- The answer to a line, as it is written. -/
def answerText (result : Option Float) : String :=
  (result.map numberText).getD noResult

/-- Enters lines one after another, and gives the calculator as they leave it.
-/
def enterLines (c : Calculator) : List String → Transcript × Calculator
  | [] => (⟨[], .finished⟩, c)
  | line :: rest =>
    let report := c.enter line
    let logged := report.notices.map Output.log
    match report.outcome with
    | .ok result =>
      let (later, c) := enterLines report.after rest
      ({ later with outputs := logged ++ .answer (answerText result) :: later.outputs }, c)
    | .error fault =>
      if fault.isOwn then
        let (later, c) := enterLines report.after rest
        ({ later with outputs := logged ++ .complaint fault.message :: later.outputs }, c)
      else (⟨logged, .escaped fault⟩, report.after)

/-- The lines that write out a program. The empty program is one empty line. -/
def dump (c : Calculator) : List Output :=
  match c.program with
  | [] => [.answer ""]
  | symbols => symbols.map .answer

/-- The line that an output puts on standard output. -/
def Output.onOutput? : Output → Option String
  | answer line => some line
  | _ => none

/-- The line that an output puts on standard error. -/
def Output.onError? (verbose : Bool) : Output → Option String
  | answer _ => none
  | complaint line => some line
  | log notice => if verbose then some (logName ++ notice.message) else none

/-- Lines as the text that they are written as. -/
def asText (lines : List String) : String :=
  String.join (lines.map (· ++ "\n"))

/-- What a transcript puts on standard output. -/
def Transcript.standardOutput (t : Transcript) : String :=
  asText (t.outputs.filterMap Output.onOutput?)

/-- What a transcript puts on standard error. -/
def Transcript.standardError (t : Transcript) (verbose : Bool) : String :=
  asText (t.outputs.filterMap (Output.onError? verbose))

end Rpn.CommandLine
