import Rpn.Proofs.Endings
import Rpn.Proofs.NameClash

/-!
# A dump is a program to be typed

The program that a run writes out at its end is text, and the next run takes it
for lines like any others. Three things must be undone for it to come to the same
stack: the text is cut into the lines that it was put together from
(`linesOf_asText`), each of which is one symbol and so one token, and the token
stands for the operation that it was written for (`Ordinary.enter_symbol`). None
of the symbols is the clear key, and all are recognised, so neither clearing nor
strictness comes in.

An empty program is written as one empty line. That has no token, and is replied
to by what an empty stack has for a value, which is none.
-/

namespace Rpn

namespace CommandLine

/-! ## Text and lines -/

/-- Whether a text stays one line when it is read. -/
def IsLine (line : String) : Prop :=
  ∀ c ∈ line.toList, c ≠ '\n' ∧ c ≠ '\r'

theorem splitLines_append {line : List Char}
    (h : ∀ c ∈ line, c ≠ '\n' ∧ c ≠ '\r') (current rest : List Char) :
    splitLines current (line ++ '\n' :: rest) =
      (current.reverse ++ line) :: splitLines [] rest := by
  induction line generalizing current with
  | nil =>
      rw [List.nil_append, splitLines.eq_def]
      simp
  | cons c cs ih =>
      obtain ⟨⟨hnewline, hreturn⟩, hcs⟩ := List.forall_mem_cons.1 h
      have hgoesOn : ¬ (c = '\n' ∨ c = '\r') := not_or.2 ⟨hnewline, hreturn⟩
      rw [List.cons_append, splitLines, if_neg hgoesOn, ih hcs,
        List.reverse_cons, List.append_assoc, List.singleton_append]
      intro _ hc
      exact absurd hc hreturn

theorem asText_cons (line : String) (lines : List String) :
    asText (line :: lines) = line ++ "\n" ++ asText lines := by
  rw [asText, List.map_cons, String.join_cons, asText]

theorem asText_append (front back : List String) :
    asText (front ++ back) = asText front ++ asText back := by
  rw [asText, List.map_append, String.join_append, asText, asText]

/-- Lines that are written one under the other are read again as they were. -/
theorem linesOf_asText {lines : List String} (h : ∀ line ∈ lines, IsLine line) :
    linesOf (asText lines) = lines := by
  induction lines with
  | nil => rfl
  | cons line rest ih =>
      obtain ⟨hline, hrest⟩ := List.forall_mem_cons.1 h
      have hih := ih hrest
      rw [linesOf] at hih ⊢
      rw [asText_cons, String.toList_append, String.toList_append,
        List.append_assoc]
      show (splitLines [] (line.toList ++ '\n' :: (asText rest).toList)).map
        String.ofList = _
      rw [splitLines_append hline, List.map_cons, hih]
      simp

/-- The lines of a dump. The empty program is one empty line. -/
def dumpedLines (c : Calculator) : List String :=
  if c.program = [] then [""] else c.program

theorem dump_eq (c : Calculator) : dump c = (dumpedLines c).map .answer := by
  rw [dump, dumpedLines]
  cases hprogram : c.program with
  | nil => rfl
  | cons symbol rest => rfl

theorem onOutput?_answers (lines : List String) :
    (lines.map Output.answer).filterMap Output.onOutput? = lines := by
  rw [List.filterMap_map]
  exact List.filterMap_some

end CommandLine

/-! ## Symbols as lines -/

namespace Registry

open Calculator (clearKey)
open Text (isBlank)

theorem standard_symbols_are_words : ∀ op ∈ Operation.standard,
    op.symbol.toList ≠ [] ∧ op.symbol.toList.all (!isBlank ·) = true ∧
      op.symbol ≠ clearKey := by
  decide +kernel

theorem standard_leavesNumbers :
    (Registry.ofList Operation.standard).LeavesNumbers := by
  intro op hop _ x hsymbol
  have hname := Token.standard_names_no_number op (mem_of_mem_ofList hop)
  rw [hsymbol, isNumber_numberText] at hname
  cases hname

variable {op : Operation}

/-- What can stand on a stack has a word for a symbol, and never the clear key.
-/
theorem symbol_is_word (h : (ofList Operation.standard).Holds op) :
    op.symbol.toList ≠ [] ∧ (∀ c ∈ op.symbol.toList, isBlank c = false) ∧
      op.symbol ≠ clearKey := by
  rcases h with ⟨x, rfl⟩ | hfound
  · have hclear := Calculator.ne_clearKey_of_isNumber (isNumber_numberText x)
    exact ⟨numberText_ne_nil x, not_blank_numberText x, hclear⟩
  · obtain ⟨hne, hword, hclear⟩ :=
      standard_symbols_are_words op (mem_of_mem_ofList (mem_of_find? hfound))
    exact ⟨hne, by simpa using hword, hclear⟩

theorem ofLine_symbol (h : (ofList Operation.standard).Holds op) :
    Token.ofLine op.symbol = [op.symbol] := by
  obtain ⟨hne, hword, _⟩ := symbol_is_word h
  have hpadded : Token.ofLine
      (String.ofList ([] ++ (op.symbol.toList ++ []))) = [op.symbol] :=
    Token.ofLine_padded nofun nofun hne hword
  rwa [List.nil_append, List.append_nil, String.ofList_toList] at hpadded

theorem isLine_symbol (h : (ofList Operation.standard).Holds op) :
    CommandLine.IsLine op.symbol := by
  intro c hc
  have hblank := (symbol_is_word h).2.1 c hc
  constructor
  · rintro rfl
    exact absurd hblank (by decide)
  · rintro rfl
    exact absurd hblank (by decide)

theorem meaning?_symbol (h : (ofList Operation.standard).Holds op) :
    Token.meaning? (ofList Operation.standard) op.symbol = some op := by
  rw [Token.meaning?, classify_symbol h, standard_leavesNumbers.reread_eq_self h]

end Registry

namespace Calculator

variable {c : Calculator} {op : Operation}

theorem Ordinary.takes_symbol (h : Ordinary c) (hop : c.registry.Holds op) :
    Takes c op.symbol := by
  rcases hop with ⟨x, rfl⟩ | hfound
  · constructor
    · exact fun _ => ⟨x, number_numberText x⟩
    · have hnumber : Number.isNumber (Operation.operand x).symbol = true :=
        isNumber_numberText x
      exact Or.inr (by simp [Token.isRecognised, hnumber])
  · constructor
    · intro hnumber
      rw [h.registry_eq, Token.find?_standard_of_isNumber hnumber] at hfound
      cases hfound
    · exact Or.inr (by simp [Token.isRecognised, Registry.contains, hfound])

theorem Ordinary.add (h : Ordinary c) (hop : c.registry.Holds op) :
    Ordinary (c.add op) :=
  ⟨h.registry_eq, List.forall_mem_cons.2 ⟨hop, h.holds⟩, h.quiet⟩

/-- Typing the symbol of an operation puts the operation on the stack. -/
theorem Ordinary.enter_symbol (h : Ordinary c) (hop : c.registry.Holds op) :
    (c.enter op.symbol).after = c.add op ∧
      ∃ result, (c.enter op.symbol).outcome = .ok result ∧
        (c.add op).stack.evaluate.map Outcome.value? = .ok result := by
  have hheld : (Registry.ofList Operation.standard).Holds op := by
    rw [← h.registry_eq]
    exact hop
  have hclear := (Registry.symbol_is_word hheld).2.2
  have hmeaning : Token.meaning? c.registry op.symbol = some op := by
    rw [h.registry_eq]
    exact Registry.meaning?_symbol hheld
  have htakes : ∀ token ∈ Token.ofLine op.symbol, Takes c token := by
    rw [Registry.ofLine_symbol hheld, List.forall_mem_singleton]
    exact h.takes_symbol hop
  obtain ⟨result, houtcome, hafter, hanswer⟩ := h.steady.enter htakes
  rw [Registry.ofLine_symbol hheld] at hafter hanswer
  rw [afterTokens_of_some hclear hmeaning] at hafter
  rw [answerTo, if_neg (by simpa using hclear),
    afterTokens_of_some hclear hmeaning] at hanswer
  exact ⟨hafter, result, houtcome, hanswer⟩

/-- A line without tokens is answered by evaluating what is there. -/
theorem Ordinary.enter_empty (h : Ordinary c) :
    (c.enter "").after = c ∧
      ∃ result, (c.enter "").outcome = .ok result ∧
        c.stack.evaluate.map Outcome.value? = .ok result := by
  have hnone : Token.ofLine "" = [] := by decide +kernel
  have htakes : ∀ token ∈ Token.ofLine "", Takes c token := by
    rw [hnone]
    exact nofun
  obtain ⟨result, houtcome, hafter, hanswer⟩ := h.steady.enter htakes
  rw [hnone] at hafter hanswer
  exact ⟨hafter, result, houtcome, hanswer⟩

end Calculator

namespace CommandLine

open Calculator (Ordinary)
open Token (NumbersConvert ofLine)

variable {c : Calculator}

/-! ## A program that is typed -/

/-- How lines come out that all have a result: these are the answers, this is
the stack that is left, and the last answer is its value. -/
structure Answered (c : Calculator) (lines answers : List String)
    (stack : Stack) : Prop where
  length_eq : answers.length = lines.length
  replies_eq : (enterLines c lines).1.replies = answers.map .answer
  finished : (enterLines c lines).1.ending = .finished
  after_eq : (enterLines c lines).2 = { c with stack := stack }
  last_eq : ∃ result, stack.evaluate.map Outcome.value? = .ok result ∧
    (lines ≠ [] → answers.getLast? = some (answerText result))

theorem answered_nil (h : Ordinary c) : Answered c [] [] c.stack := by
  obtain ⟨result, hresult, _⟩ := h.steady.evaluate
  exact ⟨rfl, rfl, rfl, rfl, result, hresult, fun hne => absurd rfl hne⟩

theorem Answered.cons {line : String} {rest answers : List String}
    {stack stack' : Stack} {result : Option Float}
    (houtcome : (c.enter line).outcome = .ok result)
    (hafter : (c.enter line).after = { c with stack := stack })
    (hresult : stack.evaluate.map Outcome.value? = .ok result)
    (h : Answered { c with stack := stack } rest answers stack') :
    Answered c (line :: rest) (answerText result :: answers) stack' := by
  have hreply : reply? (c.enter line).outcome =
      some (.answer (answerText result)) := by
    rw [houtcome]
    rfl
  obtain ⟨hreplies, hending, hend⟩ := enterLines_cons hreply rest
  rw [hafter] at hreplies hending hend
  constructor
  · rw [List.length_cons, List.length_cons, h.length_eq]
  · rw [hreplies, h.replies_eq, List.map_cons]
  · rw [hending, h.finished]
  · rw [hend, h.after_eq]
  · obtain ⟨last, hlast, hshown⟩ := h.last_eq
    refine ⟨last, hlast, fun _ => ?_⟩
    cases rest with
    | nil =>
        -- Nothing came after the line, so its stack is the last one.
        obtain rfl : answers = [] := List.length_eq_zero_iff.1 h.length_eq
        have hsame : stack = stack' := congrArg Calculator.stack h.after_eq
        rw [← hsame, hresult] at hlast
        cases hlast
        rfl
    | cons next rest =>
        have hlater := hshown (List.cons_ne_nil next rest)
        rw [List.getLast?_cons, hlater]
        rfl

/-- Typing the symbols of a row puts the row on the stack. -/
theorem answered_symbols (h : Ordinary c) {row : List Operation}
    (hrow : ∀ op ∈ row, c.registry.Holds op) :
    ∃ answers, Answered c (row.map Operation.symbol) answers
      (row.reverse ++ c.stack) := by
  induction row generalizing c with
  | nil => exact ⟨[], answered_nil h⟩
  | cons op rest ih =>
      obtain ⟨hop, hrest⟩ := List.forall_mem_cons.1 hrow
      obtain ⟨hafter, result, houtcome, hresult⟩ := h.enter_symbol hop
      obtain ⟨answers, hanswered⟩ := ih (h.add hop) hrest
      rw [List.reverse_cons, List.append_assoc]
      exact ⟨answerText result :: answers,
        .cons houtcome hafter hresult hanswered⟩

/-- Typing a dump on a calculator with an empty stack brings the stack back. -/
theorem answered_dumpedLines {fresh : Calculator} (hfresh : Ordinary fresh)
    (hempty : fresh.stack = []) (h : Ordinary c) :
    ∃ answers, Answered fresh (dumpedLines c) answers c.stack := by
  rw [dumpedLines]
  split
  · next hprogram =>
      obtain ⟨hafter, result, houtcome, hresult⟩ := hfresh.enter_empty
      have hstack : c.stack = fresh.stack := by
        rw [hempty]
        simpa [Calculator.program, Program.ofStack] using hprogram
      rw [hstack]
      exact ⟨[answerText result],
        .cons houtcome hafter hresult (answered_nil hfresh)⟩
  · have hrow : ∀ op ∈ c.stack.reverse, fresh.registry.Holds op := by
      intro op hop
      rw [hfresh.registry_eq, ← h.registry_eq]
      exact h.holds op (List.mem_reverse.1 hop)
    have hanswered := answered_symbols hfresh hrow
    rwa [List.reverse_reverse, hempty, List.append_nil] at hanswered

theorem dumpedLines_ne_nil (c : Calculator) : dumpedLines c ≠ [] := by
  rw [dumpedLines]
  split
  · exact List.cons_ne_nil _ _
  · next hne => exact hne

theorem isLine_of_mem_dumpedLines (h : Ordinary c) :
    ∀ line ∈ dumpedLines c, IsLine line := by
  intro line hline
  rw [dumpedLines] at hline
  split at hline
  · obtain rfl := List.mem_singleton.1 hline
    exact nofun
  · rw [Calculator.program, Program.ofStack] at hline
    obtain ⟨op, hop, rfl⟩ := List.mem_map.1 hline
    refine Registry.isLine_symbol ?_
    rw [← h.registry_eq]
    exact h.holds op (List.mem_reverse.1 hop)

/-! ## The whole run -/

theorem finished_of_convert (o : Options) {lines : List String}
    (hconvert : ∀ line ∈ lines, NumbersConvert (ofLine line)) :
    (enterLines o.calculator lines).1.ending = .finished := by
  rw [(comesOut (ordinary_calculator o) lines).ending_eq]
  have hnone : lines.findSome? (Token.stopping? o.calculator.registry
      o.calculator.strict) = none := by
    rw [List.findSome?_eq_none_iff]
    intro line hline
    exact (hconvert line hline).stopping?_eq_none
  rw [hnone]
  rfl

theorem length_replies (o : Options) {lines : List String}
    (hconvert : ∀ line ∈ lines, NumbersConvert (ofLine line)) :
    (enterLines o.calculator lines).1.replies.length = lines.length := by
  have hreplies := congrArg List.length
    (comesOut (ordinary_calculator o) lines).replies_eq
  have hall : lines.takeWhile (fun line => (Token.stopping?
      o.calculator.registry o.calculator.strict line).isNone) = lines := by
    rw [List.takeWhile_eq_self_iff]
    intro line hline
    rw [(hconvert line hline).stopping?_eq_none]
    rfl
  rwa [List.length_map, List.length_map, length_outcomes, hall] at hreplies

theorem run_of_dump {o : Options} (htask : o.task = .calculateAndDump)
    {lines : List String}
    (h : (enterLines o.calculator lines).1.ending = .finished) :
    (o.run ⟨lines, false⟩).ending = .finished ∧
      (o.run ⟨lines, false⟩).replies =
        (enterLines o.calculator lines).1.replies ++
          dump (enterLines o.calculator lines).2 := by
  have hrun := run_of_finished (o := o) (by rw [htask]; decide) h
  rwa [Options.dumped, if_pos htask] at hrun

/-- The dump of a run, typed into another one of the same options, is answered
line by line without a complaint, by the value of the stack in the end, and is
dumped again as it was. -/
theorem dump_replays {o : Options} (htask : o.task = .calculateAndDump)
    {lines : List String}
    (hconvert : ∀ line ∈ lines, NumbersConvert (ofLine line)) :
    let c := (enterLines o.calculator lines).2
    let text := asText ((dump c).filterMap Output.onOutput?)
    let first := o.run ⟨lines, false⟩
    let second := o.run (Source.input.lines text "")
    (first.ending = .finished ∧
      ∃ replies : List Output, replies.length = lines.length ∧
        first.replies = replies ++ dump c ∧
        first.standardOutput =
          asText (replies.filterMap Output.onOutput?) ++ text) ∧
    second.ending = .finished ∧
    second.standardError false = "" ∧
    (∀ line, Output.complaint line ∉ second.outputs) ∧
    (enterLines o.calculator (linesOf text)).2.stack = c.stack ∧
    ∃ answers : List String,
      answers.length = (if c.program = [] then 1 else c.program.length) ∧
      second.replies = answers.map .answer ++ dump c ∧
      second.standardOutput = asText answers ++ text ∧
      ∃ result, c.stack.evaluate.map Outcome.value? = .ok result ∧
        answers.getLast? = some (answerText result) := by
  intro c text first second
  have hordinary : Ordinary c :=
    (comesOut (ordinary_calculator o) lines).ordinary
  obtain ⟨hfirst, hfirstReplies⟩ :=
    run_of_dump htask (finished_of_convert o hconvert)
  have htext : text = asText (dumpedLines c) := by
    show asText _ = _
    rw [dump_eq, onOutput?_answers]
  have hlines : linesOf text = dumpedLines c := by
    rw [htext, linesOf_asText (isLine_of_mem_dumpedLines hordinary)]
  obtain ⟨answers, hanswered⟩ :=
    answered_dumpedLines (ordinary_calculator o) rfl hordinary
  have hagain : dump (enterLines o.calculator (dumpedLines c)).2 = dump c := by
    rw [hanswered.after_eq]
    rfl
  have hsecond : second = o.run ⟨dumpedLines c, false⟩ := by
    show o.run ⟨linesOf text, false⟩ = _
    rw [hlines]
  obtain ⟨hending, hreplies⟩ := run_of_dump htask hanswered.finished
  rw [← hsecond] at hending hreplies
  rw [hanswered.replies_eq, hagain] at hreplies
  refine ⟨⟨hfirst, _, length_replies o hconvert, hfirstReplies, ?_⟩, hending,
    ?_, ?_, ?_, answers, ?_, hreplies, ?_, ?_⟩
  · rw [standardOutput_eq, hfirstReplies, List.filterMap_append, asText_append]
  · rw [standardError_eq, hreplies, List.filterMap_append, onError?_dump,
      List.append_nil, List.filterMap_map]
    exact congrArg asText (List.filterMap_eq_nil_iff.2 fun _ _ => rfl)
  · intro line hmem
    have hreply : Output.complaint line ∈ second.replies :=
      List.mem_filter.2 ⟨hmem, rfl⟩
    rw [hreplies, dump_eq, ← List.map_append] at hreply
    obtain ⟨_, _, hanswer⟩ := List.mem_map.1 hreply
    cases hanswer
  · rw [hlines, hanswered.after_eq]
  · rw [hanswered.length_eq, dumpedLines]
    split
    · rfl
    · rfl
  · rw [standardOutput_eq, hreplies, List.filterMap_append, onOutput?_answers,
      asText_append]
  · obtain ⟨result, hresult, hlast⟩ := hanswered.last_eq
    exact ⟨result, hresult, hlast (dumpedLines_ne_nil c)⟩

/-- Lines that leave an operator without operands at the bottom and more numbers
than are used, after a token that strictness refuses. -/
def overfull : List String := ["+ -0.0 -inf frob 1", "", "nan 1_000 +"]

theorem overfull_dump_replays :
    let strict : Options :=
      { Options.standard with strict := true, task := .calculateAndDump }
    let c := (enterLines strict.calculator overfull).2
    let text := asText ((dump c).filterMap Output.onOutput?)
    let second := strict.run (Source.input.lines text "")
    text = "+\n-0.0\n-inf\nnan\n1000.0\n+\n" ∧
      second.ending = .finished ∧
      second.standardError false = "" ∧
      ∃ answers : List String, answers.length = 6 ∧
        second.standardOutput = asText answers ++ text ∧
        answers.getLast? = some "nan" := by
  intro strict c text second
  have hconvert : ∀ line ∈ overfull, NumbersConvert (ofLine line) := by
    have hascii : ∀ line ∈ overfull, ∀ token ∈ ofLine line,
        token.toList.all (·.toNat < 128) = true := by decide +kernel
    exact fun line hline => Token.numbersConvert_of_ascii (hascii line hline)
  have hprogram : c.program = ["+", "-0.0", "-inf", "nan", "1000.0", "+"] := by
    decide +kernel
  have hvalue : (c.stack.evaluate.map Outcome.value?).toOption.map answerText =
      some "nan" := by decide +kernel
  obtain ⟨_, hending, herror, _, _, answers, hlength, _, houtput, result,
    hresult, hlast⟩ := dump_replays (o := strict) rfl hconvert
  have htext : text = "+\n-0.0\n-inf\nnan\n1000.0\n+\n" := by
    show asText ((dump c).filterMap Output.onOutput?) = _
    rw [dump_eq, onOutput?_answers, dumpedLines, hprogram]
    decide +kernel
  refine ⟨htext, hending, herror, answers, ?_, houtput, ?_⟩
  · rw [hlength, if_neg (by simp [c, hprogram]), hprogram]
    rfl
  · rw [hresult] at hvalue
    rw [hlast]
    exact hvalue

end CommandLine

end Rpn
