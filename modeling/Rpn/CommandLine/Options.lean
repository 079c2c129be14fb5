import Rpn.CommandLine.Word

/-!
# Options

The words of a command line are options, with whatever belongs to them, and
nothing else: any word that is left over makes the command line wrong.

Two options take an argument. The prompt takes the next word if that does not
look like an option, and the expression takes all words that follow, whatever
they look like, up to a word of two dashes.
-/

namespace Rpn.CommandLine

/-- What a run of the program is to do. -/
inductive Task where
  | calculate
  | calculateAndDump
  | showGrammar
deriving DecidableEq

/-- The options of one run. -/
structure Options where
  verbose : Bool
  strict : Bool
  expression? : Option (List String)
  prompt? : Option String
  task : Task

/-- What is in force when no option is given. -/
def Options.standard : Options where
  verbose := false
  strict := false
  expression? := none
  prompt? := none
  task := .calculate

/-- Why a command line gives no options. -/
inductive Refusal where
  | helpWanted
  | wrongUsage
deriving DecidableEq

/-- The options so far, those that were given, and whether a word was left over.
-/
structure Reading where
  options : Options
  given : List Flag
  leftOver : Bool

namespace Reading

/-- The prompt of an option that gives none itself. -/
def usualPrompt : String := "> "

/-- The effect of an option with its arguments. -/
def take (r : Reading) (flag : Flag) (arguments : List String) : Except Refusal Reading :=
  if flag.rival?.any r.given.contains then .error .wrongUsage
  else
    let put (options : Options) : Except Refusal Reading :=
      .ok { r with options := options, given := flag :: r.given }
    match flag with
    | .help => .error .helpWanted
    | .verbose => put { r.options with verbose := true }
    | .strict => put { r.options with strict := true }
    | .expression => put { r.options with expression? := some arguments }
    | .prompt => put { r.options with prompt? := some (arguments.headD usualPrompt) }
    | .rawGrammar => put { r.options with task := .showGrammar }
    | .dump => put { r.options with task := .calculateAndDump }

/-- The effect of several options without arguments. -/
def takeAll (r : Reading) : List Flag → Except Refusal Reading
  | [] => .ok r
  | flag :: flags =>
    match r.take flag [] with
    | .ok r => takeAll r flags
    | .error refusal => .error refusal

end Reading

/-- What a word of options run together comes to: options without arguments, and
then the last one. That has its argument in the word, or it finds none there and
may look further. -/
structure Cluster where
  before : List Flag
  last : Flag
  argument? : Option String

/-- Splits what stands behind an option. If the option takes an argument, all of
it is the argument. Behind one that takes none there have to be more short
options, and it has to be short itself. -/
def Cluster.ofBehind? (flag : Flag) (isShort : Bool) (text : List Char) : Option Cluster :=
  if flag.takesArgument then some ⟨[], flag, some (String.ofList text)⟩
  else
    match text with
    | [] => none
    | c :: rest =>
      if isShort then do
        let next ← Flag.ofLetter? c
        let cluster ← if rest.isEmpty then some ⟨[], next, none⟩ else ofBehind? next true rest
        some { cluster with before := flag :: cluster.before }
      else none

/-- The words that an option takes from those that follow. -/
def takeArguments (flag : Flag) (words : List (String × Word)) : List String :=
  match flag, words with
  | .expression, words => (words.takeWhile (!·.2.isDivider)).map (·.1)
  | .prompt, (text, .plain) :: _ => [text]
  | _, _ => []

/-- Reads words from left to right. After a divider all words are left over. -/
def Reading.readAll (r : Reading) : List (String × Word) → Except Refusal Reading
  | [] => .ok r
  | (_, .divider) :: _ => .ok { r with leftOver := true }
  | (_, .option flag isShort behind) :: rest =>
    let cluster? : Option Cluster := match behind with
      | none => some ⟨[], flag, none⟩
      | some text => Cluster.ofBehind? flag isShort text
    match cluster? with
    | none => .error .wrongUsage
    | some ⟨before, last, some argument⟩ =>
      match (r.takeAll before).bind (·.take last [argument]) with
      | .ok r => readAll r rest
      | .error refusal => .error refusal
    | some ⟨before, last, none⟩ =>
      match (r.takeAll before).bind (·.take last (takeArguments last rest)) with
      | .ok r => readAll r (rest.drop (takeArguments last rest).length)
      | .error refusal => .error refusal
  | _ :: rest => readAll { r with leftOver := true } rest
termination_by words => words.length
decreasing_by
  all_goals simp only [List.length_cons, List.length_drop]
  all_goals omega

/-- The options that a command line gives. -/
def Options.ofArguments (arguments : List String) : Except Refusal Options :=
  let words := arguments.map fun text => (text, Word.ofText text)
  if hasAmbiguous (words.map (·.2)) then .error .wrongUsage
  else
    match Reading.readAll ⟨.standard, [], false⟩ words with
    | .ok r => if r.leftOver then .error .wrongUsage else .ok r.options
    | .error refusal => .error refusal

end Rpn.CommandLine
