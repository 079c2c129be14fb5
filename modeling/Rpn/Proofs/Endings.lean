import Rpn.Proofs.NumberText
import Rpn.Proofs.Strictness

/-!
# How a run ends

Whatever is typed, the program replies to a line by one line, a result or the
message of a fault, and goes on with the next. Over the standard operators
nothing fails at evaluating, pushing or clearing, and what strictness refuses is
a fault that is reported. One fault is left that is not: a number that is
recognised but not read (`Token.Stops`). It is none of the calculator's own, so
it passes through everything and ends the run.

A line is entered up to the first token that ends it, if one does
(`Token.endsLine`). `Ordinary.enter` says what comes of the line in each case,
and the calculator that it leaves is of the same kind, so the next line can rely
on the same. `run_ends_only_at_unread` puts the lines together: a run ends early
exactly if some line has such a number before anything that ends the line by a
message, and every line before that one has its reply.
-/

namespace Rpn

open Number (isNumber isUnread)

namespace Token

/-! ## Where a line ends -/

theorem stops_iff (registry : Registry) (token : String) :
    Stops registry token ↔
      (!registry.contains token && isNumber token &&
        token.toList.any isUnread) = true := by
  simp [Stops, Registry.contains, and_assoc]

instance (registry : Registry) (token : String) :
    Decidable (Stops registry token) :=
  decidable_of_iff' _ (stops_iff registry token)

/-- Whether a token ends the line that it is on: it cannot be read, or it is
refused for not being recognised. -/
def endsLine (registry : Registry) (strict : Bool) (token : String) : Bool :=
  decide (Stops registry token) || (strict && !isRecognised registry token)

/-- The first token that ends a line. -/
def lineEnd? (registry : Registry) (strict : Bool) (line : String) :
    Option String :=
  (ofLine line).find? (endsLine registry strict)

/-- The token of a line that ends the run. -/
def stopping? (registry : Registry) (strict : Bool) (line : String) :
    Option String :=
  (lineEnd? registry strict line).filter (Stops registry ·)

variable {registry : Registry} {strict : Bool} {line token : String}

theorem stopping?_eq_some (h : stopping? registry strict line = some token) :
    token ∈ ofLine line ∧ Stops registry token := by
  obtain ⟨hfound, hstops⟩ := Option.filter_eq_some_iff.1 h
  exact ⟨List.mem_of_find?_eq_some hfound, of_decide_eq_true hstops⟩

theorem NumbersConvert.stopping?_eq_none (h : NumbersConvert (ofLine line)) :
    stopping? registry strict line = none := by
  cases hstop : stopping? registry strict line with
  | none => rfl
  | some token =>
      obtain ⟨hmem, _, hnumber, hunread⟩ := stopping?_eq_some hstop
      obtain ⟨x, hx⟩ := h token hmem hnumber
      rw [number_of_unread hnumber hunread] at hx
      cases hx

theorem standard_names_no_number :
    ∀ op ∈ Operation.standard, isNumber op.symbol = false := by
  decide +kernel

theorem find?_standard_of_isNumber (h : isNumber token = true) :
    (Registry.ofList Operation.standard).find? token = none := by
  cases hfound : (Registry.ofList Operation.standard).find? token with
  | none => rfl
  | some op =>
      have hop := Registry.mem_of_mem_ofList (Registry.mem_of_find? hfound)
      have hname := standard_names_no_number op hop
      rw [Registry.symbol_of_find? hfound, h] at hname
      cases hname

end Token

namespace Calculator

open Token (endsLine lineEnd? isRecognised ofLine Stops stopping?)

/-- A calculator as a command line has it: over the standard operators alone,
whatever was entered, and with an observer that cannot fail. -/
structure Ordinary (c : Calculator) : Prop where
  registry_eq : c.registry = .ofList Operation.standard
  holds : ∀ op ∈ c.stack, c.registry.Holds op
  quiet : c.observer.IsQuiet

variable {c : Calculator} {token : String}

theorem Ordinary.steady (h : Ordinary c) : Steady c := by
  have hregistered : ∀ op ∈ c.registry.operations, op.IsTotal := by
    intro op hop
    rw [h.registry_eq] at hop
    exact Operation.standard_isTotal op (Registry.mem_of_mem_ofList hop)
  refine ⟨hregistered, ?_, h.quiet⟩
  intro op hop
  exact Registry.isTotal_of_holds hregistered (h.holds op hop)

theorem Ordinary.afterTokens (h : Ordinary c) (tokens : List String) :
    Ordinary (afterTokens tokens c) := by
  induction tokens generalizing c with
  | nil => exact h
  | cons token rest ih =>
      refine ih (c := { c with stack := Token.entered c.registry c.stack token })
        ⟨h.registry_eq, ?_, h.quiet⟩
      intro op hop
      rw [Token.entered] at hop
      split at hop
      · cases hop
      · rcases List.mem_append.1 hop with hmeaning | hstack
        · rw [Option.mem_toList] at hmeaning
          exact Token.holds_of_meaning? hmeaning
        · exact h.holds op hstack

/-! ## One line -/

/-- What does not end a line is taken. -/
theorem Ordinary.takes (h : Ordinary c)
    (htoken : endsLine c.registry c.strict token = false) : Takes c token := by
  rw [endsLine, Bool.or_eq_false_iff, decide_eq_false_iff_not] at htoken
  obtain ⟨hstops, hknown⟩ := htoken
  constructor
  · intro hnumber
    refine (Token.exists_number_iff hnumber).2 fun ch hch => ?_
    rw [← Bool.not_eq_true]
    intro hunread
    refine hstops ⟨?_, hnumber, ch, hch, hunread⟩
    rw [h.registry_eq]
    exact Token.find?_standard_of_isNumber hnumber
  · cases hstrict : c.strict with
    | false => exact Or.inl rfl
    | true =>
        rw [hstrict] at hknown
        exact Or.inr (by simpa using hknown)

/-- The fault of a token that ends a line. -/
def endingFault (registry : Registry) (token : String) : Fault :=
  if Stops registry token then .unreadable (Token.plain token)
  else .unknownToken token

theorem ne_clearKey_of_isNumber (h : isNumber token = true) :
    token ≠ clearKey := by
  rintro rfl
  exact absurd h (by decide +kernel)

theorem enterToken_of_stops (h : Stops c.registry token) :
    c.enterToken token = ⟨.error (.unreadable (Token.plain token)), c, []⟩ := by
  obtain ⟨hfree, hnumber, hunread⟩ := h
  have hclear := ne_clearKey_of_isNumber hnumber
  have hcontains : ¬ c.registry.contains token = true := by
    rw [Registry.contains, hfree]
    decide
  rw [enterToken, if_neg hclear, if_neg hcontains, if_pos hnumber,
    Token.number_of_unread hnumber hunread]

theorem enterToken_of_endsLine
    (h : endsLine c.registry c.strict token = true) :
    c.enterToken token = ⟨.error (endingFault c.registry token), c, []⟩ := by
  rw [endingFault]
  by_cases hstops : Stops c.registry token
  · rw [if_pos hstops, enterToken_of_stops hstops]
  · rw [endsLine, decide_eq_false hstops, Bool.false_or, Bool.and_eq_true,
      Bool.not_eq_true'] at h
    rw [if_neg hstops, enterToken_of_unknown h.2, if_pos h.1]

/-- A line is entered up to the first token that ends it. If there is none the
line has a result, and otherwise the fault of that token. -/
theorem Ordinary.enter (h : Ordinary c) (line : String) :
    (∃ tokens, (c.enter line).after = c.afterTokens tokens) ∧
      match lineEnd? c.registry c.strict line with
      | none => ∃ result, (c.enter line).outcome = .ok result
      | some token =>
        (c.enter line).outcome = .error (endingFault c.registry token) := by
  let ends := endsLine c.registry c.strict
  have htakes : ∀ token ∈ (ofLine line).takeWhile (!ends ·), Takes c token := by
    intro token hmem
    exact h.takes (by simpa using List.mem_takeWhile_imp hmem)
  obtain ⟨first, _, hfirst⟩ := h.steady.evaluate
  obtain ⟨result, hresult⟩ :=
    h.steady.enterTokens (follows_evaluate c) ⟨first, hfirst⟩ htakes
  have hafter := (((follows_evaluate c).enterTokens htakes) result hresult).1
  have hline : c.enter line =
      enterTokens (enterTokens c.evaluate ((ofLine line).takeWhile (!ends ·)))
        ((ofLine line).dropWhile (!ends ·)) := by
    rw [Calculator.enter, ← enterTokens_append, List.takeWhile_append_dropWhile]
  rw [lineEnd?, List.find?_eq_head?_dropWhile_not, hline]
  cases hdrop : (ofLine line).dropWhile (!ends ·) with
  | nil => exact ⟨⟨_, hafter⟩, result, hresult⟩
  | cons token rest =>
      have hstop := List.head?_dropWhile_not (!ends ·) (ofLine line)
      rw [hdrop] at hstop
      have hends : ends token = true := by simpa using hstop
      rw [enterTokens_of_ok hresult, hafter,
        enterToken_of_endsLine (c := c.afterTokens _) hends,
        enterTokens_of_error rfl]
      exact ⟨⟨_, rfl⟩, rfl⟩

end Calculator

namespace CommandLine

open Calculator (Ordinary endingFault)
open Token (lineEnd? ofLine Stops stopping?)

variable {c : Calculator}

/-! ## The lines of a run -/

/-- What entering lines one after another comes to, line by line. -/
def outcomes (c : Calculator) : List String → List (Except Fault (Option Float))
  | [] => []
  | line :: rest => (c.enter line).outcome :: outcomes (c.enter line).after rest

theorem length_outcomes (c : Calculator) (lines : List String) :
    (outcomes c lines).length = lines.length := by
  induction lines generalizing c with
  | nil => rfl
  | cons line rest ih => rw [outcomes, List.length_cons, List.length_cons, ih]

/-- Whether an output is a reply in one line. -/
def Output.IsOneLine (output : Output) : Prop :=
  ∃ text, '\n' ∉ text.toList ∧ (output = .answer text ∨ output = .complaint text)

theorem newline_not_mem_answerText (result : Option Float) :
    '\n' ∉ (answerText result).toList := by
  cases result with
  | none => decide
  | some x =>
      intro hmem
      have hblank := not_blank_numberText x '\n' hmem
      exact absurd hblank (by decide)

theorem newline_not_mem_unknownToken (token : String) :
    '\n' ∉ (Fault.unknownToken token).message.toList := by
  show '\n' ∉ ("Unknown token " ++ Text.quoted token).toList
  simp [Text.newline_not_mem_quoted]

theorem exists_reply (h : Ordinary c) {line : String}
    (hline : stopping? c.registry c.strict line = none) :
    ∃ reply, reply? (c.enter line).outcome = some reply ∧ reply.IsOneLine := by
  have houtcome := (h.enter line).2
  rw [stopping?] at hline
  cases hend : lineEnd? c.registry c.strict line with
  | none =>
      rw [hend] at houtcome
      obtain ⟨result, hresult⟩ := houtcome
      rw [hresult]
      exact ⟨_, rfl, answerText result, newline_not_mem_answerText result,
        Or.inl rfl⟩
  | some token =>
      rw [hend] at hline houtcome
      simp only [] at houtcome
      have hstops : ¬ Stops c.registry token := by simpa using hline
      rw [houtcome, endingFault, if_neg hstops]
      exact ⟨_, rfl, _, newline_not_mem_unknownToken token, Or.inr rfl⟩

theorem outcome_of_stopping (h : Ordinary c) {line token : String}
    (hline : stopping? c.registry c.strict line = some token) :
    (c.enter line).outcome = .error (.unreadable (Token.plain token)) := by
  have houtcome := (h.enter line).2
  obtain ⟨hend, hstops⟩ := Option.filter_eq_some_iff.1 hline
  rw [hend] at houtcome
  simp only [] at houtcome
  rw [houtcome, endingFault, if_pos (of_decide_eq_true hstops)]

theorem enterLines_escaped {line : String} {fault : Fault}
    (h : (c.enter line).outcome = .error fault) (hown : fault.isOwn = false)
    (rest : List String) :
    (enterLines c (line :: rest)).1.replies = [] ∧
      (enterLines c (line :: rest)).1.ending = .escaped fault ∧
      (enterLines c (line :: rest)).2 = (c.enter line).after := by
  rw [enterLines, h]
  simp only [hown, Bool.false_eq_true, if_false, Transcript.replies,
    filter_isReply_log, and_self]

/-- The ending of a run, by the token that ends it early if there is one. -/
def endingAt : Option String → Ending
  | none => .finished
  | some token => .escaped (.unreadable (Token.plain token))

/-- How lines come out on a calculator: those before the first that ends the run
have a reply each, and the calculator stays an ordinary one. -/
structure ComesOut (c : Calculator) (lines : List String) : Prop where
  ordinary : Ordinary (enterLines c lines).2
  ending_eq : (enterLines c lines).1.ending =
    endingAt (lines.findSome? (stopping? c.registry c.strict))
  replies_eq : (enterLines c lines).1.replies.map some =
    (outcomes c (lines.takeWhile
      fun line => (stopping? c.registry c.strict line).isNone)).map reply?
  oneLine : ∀ reply ∈ (enterLines c lines).1.replies, reply.IsOneLine

theorem comesOut (h : Ordinary c) (lines : List String) :
    ComesOut c lines := by
  induction lines generalizing c with
  | nil => exact ⟨h, rfl, rfl, nofun⟩
  | cons line rest ih =>
      obtain ⟨tokens, hafter⟩ := (h.enter line).1
      have hordinary : Ordinary (c.enter line).after := by
        rw [hafter]
        exact h.afterTokens tokens
      cases hline : stopping? c.registry c.strict line with
      | some token =>
          obtain ⟨hreplies, hending, hend⟩ :=
            enterLines_escaped (outcome_of_stopping h hline) rfl rest
          constructor
          · rw [hend]
            exact hordinary
          · rw [hending, List.findSome?_cons, hline]
            rfl
          · rw [hreplies, List.takeWhile_cons_of_neg (by simp [hline])]
            rfl
          · rw [hreplies]
            exact nofun
      | none =>
          obtain ⟨reply, hreply, honeLine⟩ := exists_reply h hline
          obtain ⟨hreplies, hending, hend⟩ := enterLines_cons hreply rest
          have hrest := ih hordinary
          have hsame : (c.enter line).after.registry = c.registry ∧
              (c.enter line).after.strict = c.strict := by
            rw [hafter]
            exact ⟨rfl, rfl⟩
          have hrestEnding := hrest.ending_eq
          have hrestReplies := hrest.replies_eq
          rw [hsame.1, hsame.2] at hrestEnding hrestReplies
          constructor
          · rw [hend]
            exact hrest.ordinary
          · rw [hending, hrestEnding, List.findSome?_cons, hline]
          · rw [hreplies, List.map_cons, hrestReplies, ← hreply,
              List.takeWhile_cons_of_pos (by simp [hline])]
            rfl
          · rw [hreplies]
            exact List.forall_mem_cons.2 ⟨honeLine, hrest.oneLine⟩

theorem ordinary_calculator (o : Options) : Ordinary o.calculator where
  registry_eq := rfl
  holds := nofun
  quiet := trivial

/-! ## The whole run -/

theorem filter_isReply_dump (c : Calculator) :
    (dump c).filter Output.isReply = dump c := by
  rw [List.filter_eq_self, dump]
  split
  · simp [Output.isReply]
  · simp [Output.isReply]

theorem onError?_dump (c : Calculator) :
    (dump c).filterMap (Output.onError? false) = [] := by
  rw [List.filterMap_eq_nil_iff, dump]
  split
  · simp [Output.onError?]
  · simp [Output.onError?]

/-- What a run writes out at its end. -/
def Options.dumped (o : Options) (lines : List String) : List Output :=
  if o.task = .calculateAndDump then dump (enterLines o.calculator lines).2
  else []

theorem onError?_dumped (o : Options) (lines : List String) :
    (o.dumped lines).filterMap (Output.onError? false) = [] := by
  rw [Options.dumped]
  split
  · exact onError?_dump _
  · rfl

theorem run_of_finished {o : Options} (htask : o.task ≠ .showGrammar)
    {lines : List String}
    (h : (enterLines o.calculator lines).1.ending = .finished) :
    (o.run ⟨lines, false⟩).ending = .finished ∧
      (o.run ⟨lines, false⟩).replies =
        (enterLines o.calculator lines).1.replies ++ o.dumped lines := by
  rw [Options.run, Options.dumped]
  cases hname : o.task with
  | showGrammar => exact absurd hname htask
  | calculate =>
      simp only [h, Bool.false_eq_true, if_false, reduceCtorEq, List.append_nil,
        and_self]
  | calculateAndDump =>
      simp only [h, Bool.false_eq_true, if_false, if_true, Transcript.replies,
        List.filter_append, filter_isReply_dump, and_self]

theorem run_of_escaped {o : Options} (htask : o.task ≠ .showGrammar)
    {lines : List String} {fault : Fault}
    (h : (enterLines o.calculator lines).1.ending = .escaped fault) :
    o.run ⟨lines, false⟩ = (enterLines o.calculator lines).1 := by
  rw [Options.run]
  cases hname : o.task with
  | showGrammar => exact absurd hname htask
  | calculate => simp only [h]
  | calculateAndDump => simp only [h]

/-- A run ends with the fault of the first number that is recognised and cannot
be read, unless a message ended its line before, and otherwise it ends well. The
lines before that one, or all of them, have one reply each, in their order: one
line with the result, or one with the message of the fault. The program is
written out behind the replies if the run ended well and that was asked for. -/
theorem run_ends_only_at_unread {o : Options} (htask : o.task ≠ .showGrammar)
    (lines : List String) :
    let registry := Registry.ofList Operation.standard
    let stop? := lines.findSome? (stopping? registry o.strict)
    let answered := lines.takeWhile
      fun line => (stopping? registry o.strict line).isNone
    let run := o.run ⟨lines, false⟩
    run.ending = endingAt stop? ∧
    (run.ending.exitCode = 0 ↔
      ∀ line ∈ lines, stopping? registry o.strict line = none) ∧
    (∀ token, stop? = some token →
      Stops registry token ∧ ∃ line ∈ lines, token ∈ ofLine line) ∧
    ∃ replies : List Output,
      replies.length = answered.length ∧
      replies.map some = (outcomes o.calculator answered).map reply? ∧
      (∀ reply ∈ replies, reply.IsOneLine) ∧
      run.replies = replies ++ (if stop? = none then o.dumped lines else []) ∧
      run.standardOutput =
        asText (run.replies.filterMap Output.onOutput?) ∧
      run.standardError false =
        asText (replies.filterMap (Output.onError? false)) := by
  intro registry stop? answered run
  have hlines := comesOut (ordinary_calculator o) lines
  have hending : (enterLines o.calculator lines).1.ending = endingAt stop? :=
    hlines.ending_eq
  have hreplies : (enterLines o.calculator lines).1.replies.map some =
      (outcomes o.calculator answered).map reply? := hlines.replies_eq
  have hlength : (enterLines o.calculator lines).1.replies.length =
      answered.length := by
    have hsame := congrArg List.length hreplies
    rwa [List.length_map, List.length_map, length_outcomes] at hsame
  have hrun : run.ending = endingAt stop? ∧
      run.replies = (enterLines o.calculator lines).1.replies ++
        if stop? = none then o.dumped lines else [] := by
    cases hstop : stop? with
    | none =>
        rw [hstop] at hending
        exact run_of_finished htask hending
    | some token =>
        rw [hstop] at hending
        have hsame : run = (enterLines o.calculator lines).1 :=
          run_of_escaped htask hending
        rw [hsame, if_neg (Option.some_ne_none token), List.append_nil]
        exact ⟨hending, rfl⟩
  refine ⟨hrun.1, ?_, ?_, _, hlength, hreplies, hlines.oneLine, hrun.2,
    standardOutput_eq run, ?_⟩
  · rw [hrun.1, ← List.findSome?_eq_none_iff]
    show (endingAt stop?).exitCode = 0 ↔ stop? = none
    cases stop? with
    | none => exact iff_of_true rfl rfl
    | some token => exact iff_of_false Nat.one_ne_zero (Option.some_ne_none token)
  · intro token hstop
    obtain ⟨line, hline, htoken⟩ := List.exists_of_findSome?_eq_some hstop
    obtain ⟨hmem, hstops⟩ := Token.stopping?_eq_some htoken
    exact ⟨hstops, line, hline, hmem⟩
  · rw [standardError_eq, hrun.2, List.filterMap_append]
    split
    · rw [onError?_dumped, List.append_nil]
    · rw [List.filterMap_nil, List.append_nil]

/-- Lines of which the third has a word for infinity with a dotted capital I, and
the first one that comes too late to be looked at. -/
def unlucky : List String :=
  ["1 frob \u0130nf", "2 +", "3 -\u0130NFI_", "-\u0130NFINITY", "5"]

theorem unlucky_run_ends :
    let strict : Options :=
      { Options.standard with strict := true, task := .calculateAndDump }
    (strict.run ⟨unlucky, false⟩).ending =
        .escaped (.unreadable "-\u0130NFINITY") ∧
      (strict.run ⟨unlucky, false⟩).standardOutput = "3.0\n" ∧
      (strict.run ⟨unlucky, false⟩).standardError false =
        "Unknown token 'frob'\nUnknown token '-\u0130NFI_'\n" := by
  intro strict
  have hstop : unlucky.findSome?
      (stopping? (.ofList Operation.standard) strict.strict) =
        some "-\u0130NFINITY" := by decide +kernel
  obtain ⟨hending, _, _, replies, hlength, _⟩ :=
    run_ends_only_at_unread (o := strict) (by decide) unlucky
  rw [hstop] at hending
  refine ⟨hending, ?_, ?_⟩
  · decide +kernel
  · decide +kernel

theorem ofArguments_nil : Options.ofArguments [] = .ok Options.standard := by
  simp [Options.ofArguments, hasAmbiguous, Reading.readAll]

/-- A word for infinity with a dotted capital I ends the run on it. -/
theorem dotted_infinity_ends_run :
    let seen := run [] "1 \u0130nf 2\n3\n" ""
    seen.output = "" ∧ seen.error = "" ∧
      seen.ending = .escaped (.unreadable "\u0130nf") ∧
      seen.ending.exitCode = 1 := by
  have hlines : linesOf "1 \u0130nf 2\n3\n" = ["1 \u0130nf 2", "3"] := by
    decide +kernel
  have hending :
      (enterLines Options.standard.calculator (linesOf "1 \u0130nf 2\n3\n")).1.ending =
        .escaped (.unreadable "\u0130nf") := by
    rw [hlines, (comesOut (ordinary_calculator Options.standard) _).ending_eq]
    have hstop : ["1 \u0130nf 2", "3"].findSome?
        (stopping? (.ofList Operation.standard) false) = some "\u0130nf" := by
      decide +kernel
    exact congrArg endingAt hstop
  have hrun := run_of_escaped (o := Options.standard) (by decide) hending
  have hseen : run [] "1 \u0130nf 2\n3\n" "" =
      (Options.standard.run ⟨linesOf "1 \u0130nf 2\n3\n", false⟩).seen false := by
    rw [run, ofArguments_nil]
    rfl
  rw [hseen, hrun]
  refine ⟨by decide +kernel, by decide +kernel, hending, ?_⟩
  rw [Transcript.seen, hending]
  rfl

end CommandLine

end Rpn
