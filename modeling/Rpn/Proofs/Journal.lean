import Mathlib.Data.List.Forall2
import Rpn.Proofs.Reach
import Rpn.Proofs.Replay
import Rpn.Proofs.VerboseOption

/-!
# What the log adds

The calculator of a run logs whether anyone reads the log or not, so verbosity
can only add lines. Which ones can be told from the input alone: every line of it
opens with the state that it finds, and every token that is entered adds what
`tokenEntries` says, on the stack that the tokens before it have left. The
`journal` of a run puts these together, line by line.

`Reports` is the step and the run at once: it says that something done to a
calculator has an answer, which calculator it leaves and which entries it logs.
It holds of an evaluation, of one token (`Logs.enterToken`) and so of a row of
them (`Logs.enterTokens`). A line that is refused stops in the middle of its row,
but what it has logged by then stays (`Logs.enter`).

An entry names a stack, and its line shows the symbols on that stack, its value
and what remains of it. That the stack has a value needs standard operators only,
and so does the claim that what is shown of an operation is its symbol.
-/

namespace Rpn

namespace CommandLine

open Calculator (clearKey)
open Token (entered firstUnknown? isRecognised ofLine)

/-! ## The journal -/

/-- What a line of the log tells: that a stack was evaluated, or that a token was
passed over. -/
inductive Entry where
  | evaluation (stack : Stack)
  | ignored (token : String)

/-- The program on a stack, as the log shows it. -/
def shownStack (stack : Stack) : String :=
  "[" ++ ", ".intercalate (Program.ofStack stack) ++ "]"

/-- Whether a text is the line of the log for an entry. -/
structure Entry.Tells (entry : Entry) (line : String) : Prop where
  oneLine : '\n' ∉ line.toList
  text_eq :
    match entry with
    | evaluation stack =>
      ∃ outcome, stack.evaluate = .ok outcome ∧
        line = logName ++ shownStack stack ++ " = " ++
          (outcome.value?.map numberText).getD "None" ++ " with " ++
          shownStack (outcome.remainder stack) ++ " remaining"
    | ignored token =>
      line = logName ++ "Ignoring unknown operation " ++ Text.quoted token

section Journal

variable (registry : Registry)

/-- The entries of a token that is entered on a stack. -/
def tokenEntries (stack : Stack) (token : String) : List Entry :=
  if token = clearKey then []
  else if isRecognised registry token then
    [.evaluation (entered registry stack token)]
  else [.ignored token, .evaluation stack]

/-- The entries of tokens that are entered one after another. -/
def rowEntries (stack : Stack) : List String → List Entry
  | [] => []
  | token :: rest =>
    tokenEntries registry stack token ++
      rowEntries (entered registry stack token) rest

/-- The tokens of a line that are entered. Strictly, only those before the first
one that is not recognised are. -/
def enteredTokens (strict : Bool) (line : String) : List String :=
  if strict then (ofLine line).takeWhile (isRecognised registry) else ofLine line

/-- The token of a line that is refused. -/
def refused? (strict : Bool) (line : String) : Option String :=
  if strict then firstUnknown? registry line else none

/-- The entries of lines that are entered one after another, line by line. -/
def journal (strict : Bool) (stack : Stack) : List String → List (List Entry)
  | [] => []
  | line :: rest =>
    let tokens := enteredTokens registry strict line
    (.evaluation stack :: rowEntries registry stack tokens) ::
      journal strict (tokens.foldl (entered registry) stack) rest

/-- The complaint about a line, if there is one. -/
def complaints (strict : Bool) (line : String) : List String :=
  (refused? registry strict line).toList.map
    fun token => "Unknown token " ++ Text.quoted token

end Journal

variable {registry : Registry} {strict : Bool} {line token : String}

theorem enteredTokens_of_accepted (h : refused? registry strict line = none) :
    enteredTokens registry strict line = ofLine line := by
  cases strict with
  | false => rfl
  | true =>
      rw [enteredTokens, if_pos rfl, List.takeWhile_eq_self_iff]
      rw [refused?, if_pos rfl, firstUnknown?, List.find?_eq_none] at h
      intro token hmem
      simpa using h token hmem

theorem ofLine_of_refused (h : refused? registry strict line = some token) :
    strict = true ∧ isRecognised registry token = false ∧
      ∃ rest, ofLine line = enteredTokens registry strict line ++ token :: rest := by
  cases strict with
  | false => cases h
  | true =>
      rw [refused?, if_pos rfl, firstUnknown?, List.find?_eq_head?_dropWhile_not] at h
      simp only [Bool.not_not] at h
      obtain ⟨rest, hdrop⟩ := List.head?_eq_some_iff.1 h
      have hstop := List.head?_dropWhile_not (isRecognised registry) (ofLine line)
      rw [hdrop] at hstop
      refine ⟨rfl, by simpa using hstop, rest, ?_⟩
      rw [enteredTokens, if_pos rfl, ← hdrop, List.takeWhile_append_dropWhile]

theorem mem_enteredTokens (h : token ∈ enteredTokens registry strict line) :
    token ∈ ofLine line ∧ (strict = false ∨ isRecognised registry token = true) := by
  cases strict with
  | false => exact ⟨h, Or.inl rfl⟩
  | true =>
      rw [enteredTokens, if_pos rfl] at h
      exact ⟨(List.takeWhile_sublist _).mem h, Or.inr (List.mem_takeWhile_imp h)⟩

/-! ## What is shown -/

/-- The line of the log that a notice gives. -/
def logLine (notice : Notice) : String :=
  logName ++ notice.message

theorem newline_not_mem_logName : '\n' ∉ logName.toList := by decide

theorem newline_not_mem_row {symbols : List String}
    (h : ∀ symbol ∈ symbols, '\n' ∉ symbol.toList) :
    '\n' ∉ (", ".intercalate symbols).toList := by
  induction symbols with
  | nil => decide
  | cons symbol rest ih =>
      obtain ⟨hsymbol, hrest⟩ := List.forall_mem_cons.1 h
      cases rest with
      | nil =>
          rw [String.intercalate_singleton]
          exact hsymbol
      | cons next rest =>
          have hcomma : '\n' ∉ ", ".toList := by decide
          rw [String.intercalate_cons_cons, String.toList_append,
            String.toList_append]
          simp only [List.mem_append, not_or]
          exact ⟨⟨hsymbol, hcomma⟩, ih hrest⟩

theorem newline_not_mem_shownStack {stack : Stack}
    (h : ∀ op ∈ stack, (Registry.ofList Operation.standard).Holds op) :
    '\n' ∉ (shownStack stack).toList := by
  have hrow : '\n' ∉ (", ".intercalate (Program.ofStack stack)).toList := by
    refine newline_not_mem_row fun symbol hsymbol hnewline => ?_
    obtain ⟨op, hop, rfl⟩ := List.mem_map.1 hsymbol
    have hheld := h op (List.mem_reverse.1 hop)
    exact (Registry.isLine_symbol hheld '\n' hnewline).1 rfl
  simp only [shownStack, String.toList_append, List.mem_append, not_or]
  exact ⟨⟨by decide, hrow⟩, by decide⟩

theorem rowLabel_reverse {stack : Stack} (h : ∀ op ∈ stack, op.IsTotal) :
    Operation.rowLabel stack.reverse = shownStack stack := by
  have hlabel : stack.reverse.map Operation.label = Program.ofStack stack := by
    refine List.map_congr_left fun op hop => ?_
    have htotal := h op (List.mem_reverse.1 hop)
    cases op with
    | foreign object => cases htotal
    | operand value => rfl
    | unary op => rfl
    | binary op => rfl
  rw [Operation.rowLabel, hlabel, shownStack]

-- Rewriting with the equations of `message` would have Lean evaluate what an
-- absent value is shown as; unfolding does not.
theorem message_evaluated (stack : Stack) (outcome : Outcome) :
    (Notice.evaluated stack outcome).message =
      Operation.rowLabel stack.reverse ++ " = " ++
        (outcome.value?.map numberText).getD "None" ++ " with " ++
        Operation.rowLabel (outcome.remainder stack).reverse ++ " remaining" := by
  unfold Notice.message
  rw [Value.shown]

theorem message_ignored (token : String) :
    (Notice.ignored (.text token)).message =
      "Ignoring unknown operation " ++ Text.quoted token := by
  unfold Notice.message
  simp only [Value.shown]

theorem tells_ignored (token : String) :
    (Entry.ignored token).Tells (logLine (.ignored (.text token))) := by
  have hline : logLine (.ignored (.text token)) =
      logName ++ "Ignoring unknown operation " ++ Text.quoted token := by
    rw [logLine, message_ignored, String.append_assoc]
  refine ⟨?_, hline⟩
  rw [hline]
  simp only [String.toList_append, List.mem_append, not_or]
  exact ⟨⟨newline_not_mem_logName, by decide⟩, Text.newline_not_mem_quoted token⟩

end CommandLine

namespace Calculator

open CommandLine
open Token (NumbersConvert entered isRecognised ofLine)

variable {c : Calculator} {token : String}

/-! ## One token and a row of them -/

/-- A calculator of a run: an ordinary one, which logs. -/
structure Logs (c : Calculator) : Prop where
  ordinary : Ordinary c
  observer_eq : c.observer = .logging

theorem Logs.afterTokens (h : Logs c) (tokens : List String) :
    Logs (c.afterTokens tokens) :=
  ⟨h.ordinary.afterTokens tokens, h.observer_eq⟩

theorem Logs.tells_evaluated (h : Logs c) {outcome : Outcome}
    (houtcome : c.stack.evaluate = .ok outcome) :
    (Entry.evaluation c.stack).Tells (logLine (.evaluated c.stack outcome)) := by
  have hsub : ∀ op ∈ outcome.remainder c.stack, op ∈ c.stack :=
    fun _ hop => (Stack.remainder_suffix houtcome).1.mem hop
  have hheld : ∀ op ∈ c.stack, (Registry.ofList Operation.standard).Holds op := by
    rw [← h.ordinary.registry_eq]
    exact h.ordinary.holds
  have htotal := h.ordinary.steady.stacked
  have hmessage : logLine (.evaluated c.stack outcome) =
      logName ++ shownStack c.stack ++ " = " ++
        (outcome.value?.map numberText).getD "None" ++ " with " ++
        shownStack (outcome.remainder c.stack) ++ " remaining" := by
    rw [logLine, message_evaluated, rowLabel_reverse htotal,
      rowLabel_reverse fun op hop => htotal op (hsub op hop)]
    simp only [String.append_assoc]
  refine ⟨?_, outcome, houtcome, hmessage⟩
  have hvalue : '\n' ∉ ((outcome.value?.map numberText).getD "None").toList := by
    cases outcome.value? with
    | none => decide
    | some x =>
        intro hmem
        exact absurd (not_blank_numberText x '\n' hmem) (by decide)
  have hstack := newline_not_mem_shownStack hheld
  have hremainder := newline_not_mem_shownStack
    fun op hop => hheld op (hsub op hop)
  rw [hmessage]
  simp only [String.toList_append, List.mem_append, not_or]
  exact ⟨⟨⟨⟨⟨⟨newline_not_mem_logName, hstack⟩, by decide⟩, hvalue⟩, by decide⟩,
    hremainder⟩, by decide⟩

/-- Whether a report has an answer, leaves this calculator and puts these entries
in the log. -/
structure Reports (report : Report (Option Float)) (after : Calculator)
    (entries : List Entry) : Prop where
  answers : ∃ result, report.outcome = .ok result
  after_eq : report.after = after
  tells : List.Forall₂ Entry.Tells entries (report.notices.map logLine)

theorem Reports.following {report : Report (Option Float)} {after : Calculator}
    {earlier later : List Entry} {notices : List Notice}
    (h : Reports report after later)
    (hearlier : List.Forall₂ Entry.Tells earlier (notices.map logLine)) :
    Reports (report.following notices) after (earlier ++ later) := by
  refine ⟨h.answers, h.after_eq, ?_⟩
  rw [Report.following, List.map_append]
  exact List.rel_append hearlier h.tells

theorem Logs.evaluate (h : Logs c) :
    Reports c.evaluate c [.evaluation c.stack] := by
  obtain ⟨outcome, houtcome⟩ :=
    Stack.evaluate_of_isTotal h.ordinary.steady.stacked
  have hevaluate : c.evaluate =
      ⟨.ok outcome.value?, c, [.evaluated c.stack outcome]⟩ := by
    rw [Calculator.evaluate, houtcome, h.observer_eq]
  rw [hevaluate]
  exact ⟨⟨_, rfl⟩, rfl, .cons (h.tells_evaluated houtcome) .nil⟩

/-- A token that is recognised gives no notice but that of the evaluation. -/
theorem enterToken_of_recognised (h : Takes c token) (hclear : token ≠ clearKey)
    (hknown : isRecognised c.registry token = true) :
    c.enterToken token = (c.afterTokens [token]).evaluate := by
  cases hfound : c.registry.find? token with
  | some op =>
      rw [afterTokens_of_some hclear (Token.meaning?_of_find? hfound),
        enterToken_of_find? hclear hfound]
  | none =>
      have hnumber : Number.isNumber token = true := by
        simpa [isRecognised, Registry.contains, hclear, hfound] using hknown
      obtain ⟨x, hx⟩ := h.converts hnumber
      rw [afterTokens_of_some hclear (Token.meaning?_of_number hfound hnumber hx),
        enterToken_of_number hclear hfound hnumber hx]

theorem Logs.enterToken (h : Logs c) (htoken : Takes c token) :
    Reports (c.enterToken token) (c.afterTokens [token])
      (tokenEntries c.registry c.stack token) := by
  by_cases hclear : token = clearKey
  · rw [tokenEntries, if_pos hclear, Calculator.enterToken, if_pos hclear, hclear,
      afterTokens_clear]
    exact ⟨⟨_, rfl⟩, rfl, .nil⟩
  · rw [tokenEntries, if_neg hclear]
    cases hknown : isRecognised c.registry token with
    | true =>
        rw [if_pos rfl, enterToken_of_recognised htoken hclear hknown]
        exact (h.afterTokens [token]).evaluate
    | false =>
        have hlenient : c.strict = false := by
          rcases htoken.known with hlenient | hrecognised
          · exact hlenient
          · rw [hknown] at hrecognised
            cases hrecognised
        have hsame : c.afterTokens [token] = c := by
          have hunknown := hknown
          simp only [isRecognised, Bool.or_eq_false_iff] at hunknown
          have hfree : c.registry.find? token = none := by
            simpa [Registry.contains] using hunknown.1.2
          exact afterTokens_of_none hclear
            (Token.meaning?_of_unknown hfree hunknown.2)
        rw [if_neg Bool.false_ne_true, enterToken_of_unknown hknown, hlenient, hsame]
        have hignored : List.Forall₂ Entry.Tells [.ignored token]
            ([Notice.ignored (.text token)].map logLine) :=
          .cons (tells_ignored token) .nil
        exact h.evaluate.following hignored

theorem Logs.enterTokens (h : Logs c) {tokens : List String}
    (htokens : ∀ token ∈ tokens, Takes c token) {sofar : Report (Option Float)}
    {entries : List Entry} (hsofar : Reports sofar c entries) :
    Reports (Calculator.enterTokens sofar tokens) (c.afterTokens tokens)
      (entries ++ rowEntries c.registry c.stack tokens) := by
  induction tokens generalizing c sofar entries with
  | nil =>
      rw [rowEntries, List.append_nil]
      exact hsofar
  | cons token rest ih =>
      obtain ⟨htoken, hrest⟩ := List.forall_mem_cons.1 htokens
      obtain ⟨result, hresult⟩ := hsofar.answers
      have hstep := (h.enterToken htoken).following hsofar.tells
      have hnext : ∀ later ∈ rest, Takes (c.afterTokens [token]) later :=
        fun later hmem => (hrest later hmem).afterTokens [token]
      rw [enterTokens_of_ok hresult, hsofar.after_eq, rowEntries,
        ← List.append_assoc]
      exact ih (h.afterTokens [token]) hnext hstep

/-! ## A line -/

/-- What a line comes to: it is entered up to the token that is refused, or to
its end if none is, and what it puts in the log stands in the journal. -/
structure Enters (c : Calculator) (line : String) : Prop where
  outcome : match refused? c.registry c.strict line with
    | none => ∃ result, (c.enter line).outcome = .ok result
    | some token => (c.enter line).outcome = .error (.unknownToken token)
  after_eq : (c.enter line).after =
    c.afterTokens (enteredTokens c.registry c.strict line)
  tells : List.Forall₂ Entry.Tells
    (.evaluation c.stack ::
      rowEntries c.registry c.stack (enteredTokens c.registry c.strict line))
    ((c.enter line).notices.map logLine)

theorem Logs.enter (h : Logs c) {line : String}
    (hconvert : NumbersConvert (ofLine line)) : Enters c line := by
  have htakes : ∀ token ∈ enteredTokens c.registry c.strict line, Takes c token := by
    intro token htoken
    obtain ⟨hmem, hknown⟩ := mem_enteredTokens htoken
    exact ⟨hconvert token hmem, hknown⟩
  have hrow := h.enterTokens htakes h.evaluate
  cases hrefused : refused? c.registry c.strict line with
  | none =>
      have hline : c.enter line = Calculator.enterTokens c.evaluate
          (enteredTokens c.registry c.strict line) := by
        rw [Calculator.enter, enteredTokens_of_accepted hrefused]
      constructor
      · rw [hrefused, hline]
        exact hrow.answers
      · rw [hline]
        exact hrow.after_eq
      · rw [hline]
        exact hrow.tells
  | some token =>
      obtain ⟨hstrict, hunknown, rest, hsplit⟩ := ofLine_of_refused hrefused
      obtain ⟨result, hresult⟩ := hrow.answers
      -- The fault of the token leaves the report as the row before it has made
      -- it, but for the outcome.
      have hline : c.enter line =
          { Calculator.enterTokens c.evaluate
              (enteredTokens c.registry c.strict line) with
            outcome := .error (.unknownToken token) } := by
        have hfault : (c.afterTokens
            (enteredTokens c.registry c.strict line)).enterToken token =
              ⟨.error (.unknownToken token), c.afterTokens
                (enteredTokens c.registry c.strict line), []⟩ := by
          rw [enterToken_of_unknown (c := c.afterTokens _) hunknown]
          exact if_pos hstrict
        rw [Calculator.enter, hsplit, enterTokens_append, enterTokens_of_ok hresult,
          hrow.after_eq, hfault, enterTokens_of_error rfl, Report.following,
          List.append_nil, ← hrow.after_eq]
      constructor
      · rw [hrefused, hline]
      · rw [hline]
        exact hrow.after_eq
      · rw [hline]
        exact hrow.tells

end Calculator

namespace CommandLine

open Calculator (Enters Logs)
open Token (NumbersConvert ofLine)

variable {c : Calculator}

/-! ## The lines of a run -/

theorem newline_not_mem_complaints (registry : Registry) (strict : Bool)
    (line : String) :
    ∀ complaint ∈ complaints registry strict line, '\n' ∉ complaint.toList := by
  intro complaint hmem
  obtain ⟨token, _, rfl⟩ := List.mem_map.1 hmem
  exact newline_not_mem_unknownToken token

theorem onError?_logs (verbose : Bool) (notices : List Notice) :
    (notices.map Output.log).filterMap (Output.onError? verbose) =
      if verbose then notices.map logLine else [] := by
  rw [List.filterMap_map]
  cases verbose with
  | false => exact List.filterMap_eq_nil_iff.2 fun _ _ => rfl
  | true => exact congrFun List.filterMap_eq_map notices

theorem onError?_cons (verbose : Bool) (output : Output) (rest : List Output) :
    (output :: rest).filterMap (Output.onError? verbose) =
      (output.onError? verbose).toList ++
        rest.filterMap (Output.onError? verbose) := by
  rw [List.filterMap_cons]
  cases output.onError? verbose with
  | none => rfl
  | some line => rfl

theorem outputs_enterLines {line : String} {reply : Output}
    (h : reply? (c.enter line).outcome = some reply) (rest : List String) :
    (enterLines c (line :: rest)).1.outputs =
      (c.enter line).notices.map .log ++
        reply :: (enterLines (c.enter line).after rest).1.outputs := by
  rw [enterLines]
  cases houtcome : (c.enter line).outcome with
  | ok result =>
      rw [houtcome] at h
      cases h
      rfl
  | error fault =>
      rw [houtcome, reply?] at h
      cases hown : fault.isOwn with
      | false =>
          rw [hown] at h
          cases h
      | true =>
          rw [hown] at h
          cases h
          simp only [hown, if_true]

/-- A line is replied to by its complaint or by nothing on standard error. -/
theorem exists_reply_of_enters {line : String} (h : Enters c line) :
    ∃ reply, reply? (c.enter line).outcome = some reply ∧
      ∀ verbose, (reply.onError? verbose).toList =
        complaints c.registry c.strict line := by
  have houtcome := h.outcome
  rw [complaints]
  cases hrefused : refused? c.registry c.strict line with
  | none =>
      rw [hrefused] at houtcome
      obtain ⟨result, hresult⟩ := houtcome
      rw [hresult]
      exact ⟨_, rfl, fun _ => rfl⟩
  | some token =>
      rw [hrefused] at houtcome
      simp only [] at houtcome
      rw [houtcome]
      exact ⟨_, rfl, fun _ => rfl⟩

/-- What lines put on standard error: the complaints, and with the log, before
the complaint of each line, the page of the journal on that line. -/
structure Journals (c : Calculator) (lines : List String)
    (pages : List (List String)) : Prop where
  tells : List.Forall₂ (List.Forall₂ Entry.Tells)
    (journal c.registry c.strict c.stack lines) pages
  quiet : (enterLines c lines).1.outputs.filterMap (Output.onError? false) =
    lines.flatMap (complaints c.registry c.strict)
  loud : (enterLines c lines).1.outputs.filterMap (Output.onError? true) =
    (List.zipWith (fun page line => page ++ complaints c.registry c.strict line)
      pages lines).flatten

theorem exists_journals (h : Logs c) {lines : List String}
    (hconvert : ∀ line ∈ lines, NumbersConvert (ofLine line)) :
    ∃ pages, Journals c lines pages := by
  induction lines generalizing c with
  | nil => exact ⟨[], .nil, rfl, rfl⟩
  | cons line rest ih =>
      obtain ⟨hline, hrest⟩ := List.forall_mem_cons.1 hconvert
      have henter := h.enter hline
      obtain ⟨reply, hreply, hcomplaint⟩ := exists_reply_of_enters henter
      obtain ⟨pages, hpages⟩ := ih (h.afterTokens
        (enteredTokens c.registry c.strict line)) hrest
      have hwritten : ∀ verbose,
          (enterLines c (line :: rest)).1.outputs.filterMap (Output.onError? verbose) =
            (if verbose then (c.enter line).notices.map logLine else []) ++
              (complaints c.registry c.strict line ++
                (enterLines (c.afterTokens (enteredTokens c.registry c.strict line))
                  rest).1.outputs.filterMap (Output.onError? verbose)) := by
        intro verbose
        rw [outputs_enterLines hreply, List.filterMap_append, onError?_logs,
          onError?_cons, hcomplaint, henter.after_eq]
      refine ⟨(c.enter line).notices.map logLine :: pages,
        .cons henter.tells hpages.tells, ?_, ?_⟩
      · rw [hwritten, hpages.quiet]
        rfl
      · rw [hwritten, hpages.loud, if_pos rfl, List.zipWith_cons_cons,
          List.flatten_cons, List.append_assoc]
        rfl

/-! ## The whole run -/

theorem outputs_run {o : Options} (htask : o.task ≠ .showGrammar) (typed : Typed)
    (h : (enterLines o.calculator typed.lines).1.ending = .finished) :
    ∃ answers : List String, (o.run typed).outputs =
      (enterLines o.calculator typed.lines).1.outputs ++ answers.map .answer := by
  rw [Options.run]
  cases hname : o.task with
  | showGrammar => exact absurd hname htask
  | calculate =>
      refine ⟨[], ?_⟩
      simp only [h, reduceCtorEq, if_false, List.map_nil, List.append_nil]
      split
      · rfl
      · rfl
  | calculateAndDump =>
      simp only [h, if_true]
      split
      · exact ⟨[], (List.append_nil _).symm⟩
      · exact ⟨_, by rw [dump_eq]⟩

theorem standardError_run {o : Options} (htask : o.task ≠ .showGrammar)
    (typed : Typed)
    (hconvert : ∀ line ∈ typed.lines, NumbersConvert (ofLine line))
    (verbose : Bool) :
    (o.run typed).standardError verbose =
      asText ((enterLines o.calculator typed.lines).1.outputs.filterMap
        (Output.onError? verbose)) := by
  obtain ⟨answers, houtputs⟩ :=
    outputs_run htask typed (finished_of_convert o hconvert)
  have hanswers : (answers.map Output.answer).filterMap
      (Output.onError? verbose) = [] := by
    rw [List.filterMap_map]
    exact List.filterMap_eq_nil_iff.2 fun _ _ => rfl
  rw [Transcript.standardError, houtputs, List.filterMap_append, hanswers,
    List.append_nil]

theorem run_of_ok {arguments : List String} {o : Options}
    (h : Options.ofArguments arguments = .ok o) (input keys : String) :
    run arguments input keys =
      (o.run (o.source.lines input keys)).seen o.verbose := by
  rw [run, h]

/-- The verbose option in front of a command line leaves the ending and standard
output of its run as they are, and the lines on standard error too, but for the
pages of the journal that stand between them: before the complaint of each line,
or where it would be, one record of the state before the line, and then for each
token that is entered nothing, one record or two. -/
theorem verbose_adds_journal (input keys : String) {arguments : List String}
    {o : Options} (harguments : Options.ofArguments arguments = .ok o)
    (hquiet : o.verbose = false) (htask : o.task ≠ .showGrammar)
    (hconvert : ∀ line ∈ (o.source.lines input keys).lines,
      NumbersConvert (ofLine line)) :
    let registry := Registry.ofList Operation.standard
    let lines := (o.source.lines input keys).lines
    let quiet := run arguments input keys
    let loud := run ("-v" :: arguments) input keys
    loud.ending = quiet.ending ∧
    loud.output = quiet.output ∧
    (∀ line ∈ lines, ∀ complaint ∈ complaints registry o.strict line,
      '\n' ∉ complaint.toList) ∧
    quiet.error = asText (lines.flatMap (complaints registry o.strict)) ∧
    ∃ pages : List (List String),
      List.Forall₂ (List.Forall₂ Entry.Tells)
        (journal registry o.strict [] lines) pages ∧
      loud.error = asText
        (List.zipWith (fun page line => page ++ complaints registry o.strict line)
          pages lines).flatten := by
  intro registry lines quiet loud
  have hverbose : Options.ofArguments ("-v" :: arguments) =
      .ok { o with verbose := true } := by
    rw [ofArguments_verbose, harguments]
    rfl
  have hquietRun : quiet = (o.run (o.source.lines input keys)).seen false := by
    rw [← hquiet]
    exact run_of_ok harguments input keys
  have hloudRun : loud = (o.run (o.source.lines input keys)).seen true :=
    run_of_ok hverbose input keys
  obtain ⟨pages, hpages⟩ :=
    exists_journals ⟨ordinary_calculator o, rfl⟩ hconvert
  refine ⟨?_, ?_, fun line _ => newline_not_mem_complaints registry o.strict line,
    ?_, pages, hpages.tells, ?_⟩
  · rw [hquietRun, hloudRun]
    rfl
  · rw [hquietRun, hloudRun]
    rfl
  · rw [hquietRun]
    exact (standardError_run htask _ hconvert false).trans
      (congrArg asText hpages.quiet)
  · rw [hloudRun]
    exact (standardError_run htask _ hconvert true).trans
      (congrArg asText hpages.loud)

theorem ofArguments_strict_dump :
    Options.ofArguments ["-s", "-D"] =
      .ok { Options.standard with strict := true, task := .calculateAndDump } := by
  have hstrict : Word.ofText "-s" = .option .strict true none := rfl
  have hdump : Word.ofText "-D" = .option .dump true none := rfl
  have hread : Reading.readAll ⟨.standard, [], false⟩
      [("-s", .option .strict true none), ("-D", .option .dump true none)] =
        .ok ⟨{ Options.standard with strict := true, task := .calculateAndDump },
          [.dump, .strict], false⟩ := by
    rw [Reading.readAll_alone rfl]
    show Reading.readAll ⟨{ Options.standard with strict := true }, _, _⟩ _ = _
    rw [Reading.readAll_alone rfl]
    show Reading.readAll _ [] = _
    rw [Reading.readAll]
  simp only [Options.ofArguments, List.map_cons, List.map_nil, hstrict, hdump, hread]
  rfl

/-- Two lines, of which the second clears the stack and is refused at its third
token. -/
def refusedLate : String := "8 2 −\nC 5 frob 1\n"

theorem journal_of_refusedLate :
    let quiet := run ["-s", "-D"] refusedLate ""
    let loud := run ["-v", "-s", "-D"] refusedLate ""
    loud.ending = quiet.ending ∧ loud.output = quiet.output ∧
      quiet.error = "Unknown token 'frob'\n" ∧
      loud.error = asText [
        "rpneval.evaluator: [] = None with [] remaining",
        "rpneval.evaluator: [8.0] = 8.0 with [] remaining",
        "rpneval.evaluator: [8.0, 2.0] = 2.0 with [8.0] remaining",
        "rpneval.evaluator: [8.0, 2.0, −] = 6.0 with [] remaining",
        "rpneval.evaluator: [8.0, 2.0, −] = 6.0 with [] remaining",
        "rpneval.evaluator: [5.0] = 5.0 with [] remaining",
        "Unknown token 'frob'"] := by
  intro quiet loud
  have hread : ∀ line ∈ linesOf refusedLate, ∀ token ∈ ofLine line,
      token.toList.any Number.isUnread = false := by decide +kernel
  have hconvert : ∀ line ∈ linesOf refusedLate, NumbersConvert (ofLine line) := by
    intro line hline token htoken hnumber
    refine (Token.exists_number_iff hnumber).2 fun c hc => ?_
    simpa using List.any_eq_false.1 (hread line hline token htoken) c hc
  obtain ⟨hending, houtput, _, herror, _⟩ := verbose_adds_journal refusedLate ""
    ofArguments_strict_dump rfl (by decide) hconvert
  refine ⟨hending, houtput, ?_, ?_⟩
  · refine herror.trans ?_
    decide +kernel
  · show (run ("-v" :: ["-s", "-D"]) refusedLate "").error = _
    rw [run, ofArguments_verbose, ofArguments_strict_dump]
    decide +kernel

end CommandLine

end Rpn
