import Rpn.CommandLine.Run

/-!
# The program

Reads lines, has each of them entered, and writes what the transcript of that
line says at once, so that the program can be used from a terminal as well as in
a pipe.
-/

namespace Rpn.CommandLine

/-- Writes the lines of a transcript where they belong. -/
def write (verbose : Bool) (outputs : List Output) : IO Unit := do
  let out ← IO.getStdout
  let err ← IO.getStderr
  for output in outputs do
    match output.onOutput?, output.onError? verbose with
    | some line, _ => out.putStrLn line
    | none, some line => err.putStrLn line
    | none, none => pure ()
  out.flush

/-- Writes a whole transcript, and what escaped from the run. -/
def finish (verbose : Bool) (t : Transcript) : IO UInt32 := do
  write verbose t.outputs
  if let .escaped fault := t.ending then
    (← IO.getStderr).putStrLn fault.message
  return t.ending.exitCode.toUInt32

/-- Enters the lines of standard input one by one, each after a prompt if there
is one. -/
partial def converse (o : Options) (prompt : String) (c : Calculator) : IO UInt32 := do
  let out ← IO.getStdout
  out.putStr prompt
  out.flush
  let text ← (← IO.getStdin).getLine
  if text.isEmpty then
    if o.task = .calculateAndDump then write o.verbose (dump c)
    return 0
  let (entered, c) := enterLines c (linesOf text)
  write o.verbose entered.outputs
  match entered.ending with
  | .finished => converse o prompt c
  | _ => finish o.verbose { entered with outputs := [] }

/-- Carries out a command line. -/
def start (arguments : List String) : IO UInt32 := do
  match Options.ofArguments arguments with
  | .error refusal => finish false refusal.transcript
  | .ok o =>
    match o.task, o.source with
    | .showGrammar, _ | _, .expression _ => finish o.verbose (o.run (o.source.lines "" ""))
    | _, .keyboard => converse o (o.prompt?.getD Reading.usualPrompt) o.calculator
    | _, .input =>
      let terminal := (← (← IO.getStdin).isTty) && (← (← IO.getStdout).isTty)
      converse o (if terminal then Reading.usualPrompt else "") o.calculator

end Rpn.CommandLine

/-- Runs the program on the words of its command line. -/
def main (arguments : List String) : IO UInt32 :=
  Rpn.CommandLine.start arguments
