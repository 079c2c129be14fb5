/-!
# Flags

Every option has a short spelling, one letter after a dash, and a long one, a
word after two dashes. Some options cannot be given together.
-/

namespace Rpn.CommandLine

/-- The options by meaning. -/
inductive Flag where
  | help
  | verbose
  | strict
  | expression
  | prompt
  | rawGrammar
  | dump
deriving DecidableEq

namespace Flag

/-- All options. -/
def all : List Flag :=
  [help, verbose, strict, expression, prompt, rawGrammar, dump]

/-- The letter of the short spelling, after one dash. -/
def letter : Flag → Char
  | help => 'h'
  | verbose => 'v'
  | strict => 's'
  | expression => 'e'
  | prompt => 'p'
  | rawGrammar => 'G'
  | dump => 'D'

/-- The long spelling, after two dashes. -/
def word : Flag → String
  | help => "help"
  | verbose => "verbose"
  | strict => "strict"
  | expression => "expression"
  | prompt => "prompt"
  | rawGrammar => "raw-grammar"
  | dump => "dump"

/-- Whether an option takes an argument. -/
def takesArgument : Flag → Bool
  | expression | prompt => true
  | _ => false

/-- The option that cannot be given together with this one. -/
def rival? : Flag → Option Flag
  | expression => some prompt
  | prompt => some expression
  | rawGrammar => some dump
  | dump => some rawGrammar
  | _ => none

/-- The option with a short spelling. -/
def ofLetter? (c : Char) : Option Flag :=
  all.find? (·.letter = c)

/-- The option with a spelling in full, dashes included. -/
def ofSpelling? : List Char → Option Flag
  | ['-', c] => ofLetter? c
  | '-' :: '-' :: cs => all.find? (·.word.toList = cs)
  | _ => none

end Flag

end Rpn.CommandLine
