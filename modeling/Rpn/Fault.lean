import Rpn.Value

/-!
# Faults

Everything that can go wrong is a constructor here, carrying what its message
speaks of; the wording is `Fault.message` alone. A fault belongs to one of two
families. The calculator's own faults concern what was typed or loaded, and a
command line reports them and goes on. The others concern how the calculator was
used, or come from code that it calls and does not answer for.
-/

namespace Rpn

/-- A failure in code that is not the calculator's own, by its kind and its text.
-/
structure Mishap where
  kind : String
  text : String
deriving DecidableEq

/-- How a caller's function fails: in the calculator's own terms, in some way of
its own, or by asking for an end of everything, which is not for the calculator
to hold up. -/
inductive Failure where
  | refusal (message : String)
  | mishap (cause : Mishap)
  | interruption (cause : Mishap)
deriving DecidableEq

/-- What can go wrong. -/
inductive Fault where
  /-- A caller's function refused its operands in the calculator's own terms. -/
  | refused (message : String)
  /-- A caller's function failed on these operands, the nearer one first. -/
  | inapplicable (symbol : String) (operands : List Float) (cause : Mishap)
  /-- A token that should be a number is none. -/
  | notNumber (token : String)
  /-- A token on a line is neither an operation nor a number. -/
  | unknownToken (token : String)
  /-- Tokens of a program, with their places in it, are neither operations nor
  numbers. -/
  | unrecognised (tokens : List (Nat × Value))
  /-- What the stack holds is no operation. -/
  | notOperation (label : String)
  /-- A text is not that of a number. -/
  | unreadable (text : String)
  /-- A value of this kind is never a number. -/
  | notReal (kind : String)
  /-- A whole number lies beyond the largest double. -/
  | tooLarge
  /-- A program was given as one text. -/
  | textForProgram
  /-- A program was given as a value that has no parts. -/
  | notSequence (kind : String)
  /-- A value of this kind cannot name an operation. -/
  | notName (kind : String)
  /-- Something that the calculator calls failed, and its failure is passed on as
  it is. -/
  | passed (cause : Mishap)

namespace Fault

/-- The observer of evaluations failed. -/
@[match_pattern]
abbrev observer (cause : Mishap) : Fault := passed cause

/-- A value that should be listed in a message cannot be shown. -/
def unshowable : Fault :=
  passed ⟨"ValueError",
    "Exceeds the limit (" ++ toString Value.digitLimit ++
      " digits) for integer string conversion; " ++
      "use sys.set_int_max_str_digits() to increase the limit"⟩

/-- What became of a caller's function that failed on some operands. -/
def ofFailure (symbol : String) (operands : List Float) : Failure → Fault
  | .refusal message => refused message
  | .mishap cause => inapplicable symbol operands cause
  | .interruption cause => passed cause

/-- Whether a fault concerns what was typed or loaded. -/
def isOwn : Fault → Bool
  | refused _ | inapplicable .. | notNumber _ | unknownToken _ | unrecognised _ => true
  | notOperation _ | unreadable _ | notReal _ | tooLarge | textForProgram | notSequence _
  | notName _ | passed _ => false

/-- The wording of a fault. -/
def message : Fault → String
  | refused message => message
  | inapplicable symbol operands _ =>
    "Cannot apply " ++ symbol ++ " to " ++ " and ".intercalate (operands.map numberText)
  | notNumber token => "Not a number " ++ Text.quoted token
  | unknownToken token => "Unknown token " ++ Text.quoted token
  | unrecognised tokens =>
    "Unrecognised program token(s): " ++
      ", ".intercalate (tokens.map fun (place, token) => token.shown ++ " at " ++ toString place)
  | notOperation label => "Not an operation: " ++ label
  | unreadable text => "could not convert string to float: " ++ Text.quoted text
  | notReal kind => "float() argument must be a string or a real number, not '" ++ kind ++ "'"
  | tooLarge => "int too large to convert to float"
  | textForProgram => "Program must be a sequence of tokens, not a str"
  | notSequence kind => "'" ++ kind ++ "' object is not iterable"
  | notName kind => "unhashable type: '" ++ kind ++ "'"
  | passed cause => cause.text

end Fault

end Rpn
