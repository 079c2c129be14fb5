import Rpn.CommandLine.Run
import Rpn.Proofs.Entering
import Rpn.Proofs.Splitting

/-!
# What strictness changes

A strict calculator ends a line at the first token that it does not recognise.
The tokens before it have acted by then, and they keep their effect; those after
it are not looked at. So the line leaves what a lenient calculator is left with
if the line is cut off before that token (`Token.cutLine`), and only the reply
is another one: the message of the fault instead of an answer.

The next line begins where the last one ended, be it an answered or a refused
one. `enterLines_agree` carries the agreement of the two calculators over all
lines of a run; they hold the same stack after each of them, so a line that is
not cut is answered alike. `strict_run_agrees` reads off what is written.
-/

namespace Rpn

namespace Text

/-! ## A quoted text is one line -/

theorem newline_ne_digitChar : ∀ d < 16, '\n' ≠ Nat.digitChar d := by decide

theorem newline_not_mem_toDigits (n : Nat) : '\n' ∉ Nat.toDigits 16 n := by
  induction n using Nat.strongRecOn with
  | ind n ih =>
      by_cases h : n < 16
      · rw [Nat.toDigits_of_lt_base h, List.mem_singleton]
        exact newline_ne_digitChar n h
      · rw [Nat.toDigits_of_base_le (by decide) (by omega), List.mem_append,
          List.mem_singleton, not_or]
        exact ⟨ih (n / 16) (by omega),
          newline_ne_digitChar (n % 16) (Nat.mod_lt n (by decide))⟩

theorem newline_not_mem_hexadecimal (width n : Nat) :
    '\n' ∉ hexadecimal width n := by
  simp [hexadecimal, newline_not_mem_toDigits]

theorem newline_not_mem_escape {quote : Char} (h : quote ≠ '\n') (c : Char) :
    '\n' ∉ escape quote c := by
  rw [escape]
  by_cases hnewline : c = '\n'
  · rw [hnewline]
    simp [h.symm]
  · simp [apply_ite ('\n' ∈ ·), newline_not_mem_hexadecimal, Ne.symm hnewline]

theorem newline_not_mem_quoted (s : String) : '\n' ∉ (quoted s).toList := by
  have hquote : quoteFor s.toList ≠ '\n' := by
    rw [quoteFor]
    split
    · decide
    · decide
  simp [quoted, quoteCharacters, newline_not_mem_escape hquote, hquote.symm]

end Text

namespace Token

/-! ## The part of a line before the cut -/

open Text (isBlank)

/-- Whether the token of these characters is recognised. -/
def isKnownWord (registry : Registry) (word : List Char) : Bool :=
  isRecognised registry (String.ofList word)

/-- The characters of a line before its first token that is not recognised. -/
def cutCharacters (registry : Registry) : List Char → List Char
  | [] => []
  | c :: cs =>
    if isBlank c then c :: cutCharacters registry cs
    else if isKnownWord registry (c :: cs.takeWhile (!isBlank ·)) then
      c :: cs.takeWhile (!isBlank ·) ++
        cutCharacters registry (cs.dropWhile (!isBlank ·))
    else []
termination_by cs => cs.length
decreasing_by
  · simp
  · have := (List.dropWhile_sublist (l := cs) (!isBlank ·)).length_le
    simp only [List.length_cons]
    omega

/-- A line up to its first token that is not recognised. -/
def cutLine (registry : Registry) (line : String) : String :=
  String.ofList (cutCharacters registry line.toList)

/-- The first token of a line that is not recognised. -/
def firstUnknown? (registry : Registry) (line : String) : Option String :=
  (ofLine line).find? (!isRecognised registry ·)

variable {registry : Registry} {c : Char} {cs : List Char}

theorem cutCharacters_nil : cutCharacters registry [] = [] := by
  rw [cutCharacters.eq_def]

theorem cutCharacters_blank (hblank : isBlank c = true) :
    cutCharacters registry (c :: cs) = c :: cutCharacters registry cs := by
  rw [cutCharacters.eq_def]
  exact if_pos hblank

theorem cutCharacters_recognised (hblank : ¬ isBlank c = true)
    (hword : isKnownWord registry (c :: cs.takeWhile (!isBlank ·)) = true) :
    cutCharacters registry (c :: cs) = c :: cs.takeWhile (!isBlank ·) ++
      cutCharacters registry (cs.dropWhile (!isBlank ·)) := by
  rw [cutCharacters.eq_def]
  exact (if_neg hblank).trans (if_pos hword)

theorem cutCharacters_unknown (hblank : ¬ isBlank c = true)
    (hword : ¬ isKnownWord registry (c :: cs.takeWhile (!isBlank ·)) = true) :
    cutCharacters registry (c :: cs) = [] := by
  rw [cutCharacters.eq_def]
  exact (if_neg hblank).trans (if_neg hword)

/-- What follows a word begins with a blank, and so does what a cut leaves of
it. -/
theorem isBlank_of_mem_head?_cut (cs : List Char) :
    ∀ c ∈ (cutCharacters registry (cs.dropWhile (!isBlank ·))).head?,
      isBlank c = true := by
  intro c hc
  cases hrest : cs.dropWhile (!isBlank ·) with
  | nil => simp [hrest, cutCharacters_nil] at hc
  | cons d rest =>
      have hd : isBlank d = true :=
        head_dropWhile_isBlank cs d (by rw [hrest]; rfl)
      rw [hrest, cutCharacters_blank hd] at hc
      cases hc
      exact hd

theorem words_cutCharacters (registry : Registry) (cs : List Char) :
    words (cutCharacters registry cs) =
      (words cs).takeWhile (isKnownWord registry) := by
  induction cs using cutCharacters.induct registry with
  | case1 => rw [cutCharacters_nil, words_nil, List.takeWhile_nil]
  | case2 c cs hblank ih =>
      rw [cutCharacters_blank hblank, words_blank hblank, words_blank hblank, ih]
  | case3 c cs hblank hword ih =>
      rw [cutCharacters_recognised hblank hword,
        words_append (List.cons_ne_nil _ _) (not_blank_of_mem_word hblank)
          (isBlank_of_mem_head?_cut cs),
        ih, words_word hblank, List.takeWhile_cons_of_pos hword]
  | case4 c cs hblank hword =>
      rw [cutCharacters_unknown hblank hword, words_word hblank,
        List.takeWhile_cons_of_neg hword, words_nil]

theorem ofLine_cutLine (registry : Registry) (line : String) :
    ofLine (cutLine registry line) =
      (ofLine line).takeWhile (isRecognised registry) := by
  rw [ofLine, cutLine, String.toList_ofList, words_cutCharacters, ofLine,
    List.takeWhile_map]
  rfl

/-- A text is its part before the cut and then, if there is a word that is not
recognised, the first such word and what follows it. -/
theorem cutCharacters_append (registry : Registry) (cs : List Char) :
    ∃ rest, cs = cutCharacters registry cs ++ rest ∧
      match (words cs).find? (!isKnownWord registry ·) with
      | none => rest = []
      | some word => word <+: rest := by
  induction cs using cutCharacters.induct registry with
  | case1 =>
      refine ⟨[], ?_, ?_⟩
      · rw [cutCharacters_nil, List.append_nil]
      · rw [words_nil]
        rfl
  | case2 c cs hblank ih =>
      obtain ⟨rest, hrest, hword⟩ := ih
      refine ⟨rest, ?_, ?_⟩
      · rw [cutCharacters_blank hblank, List.cons_append, ← hrest]
      · rw [words_blank hblank]
        exact hword
  | case3 c cs hblank hword ih =>
      obtain ⟨rest, hrest, hfound⟩ := ih
      have hknown : ¬ (!isKnownWord registry
          (c :: cs.takeWhile (!isBlank ·))) = true := by simp [hword]
      refine ⟨rest, ?_, ?_⟩
      · rw [cutCharacters_recognised hblank hword, List.append_assoc, ← hrest,
          List.cons_append, List.takeWhile_append_dropWhile]
      · rw [words_word hblank,
          List.find?_cons_of_neg (p := (!isKnownWord registry ·)) hknown]
        exact hfound
  | case4 c cs hblank hword =>
      have hunknown : (!isKnownWord registry
          (c :: cs.takeWhile (!isBlank ·))) = true := by simp [hword]
      refine ⟨c :: cs, ?_, ?_⟩
      · rw [cutCharacters_unknown hblank hword, List.nil_append]
      · rw [words_word hblank,
          List.find?_cons_of_pos (p := (!isKnownWord registry ·)) hunknown]
        exact ⟨cs.dropWhile (!isBlank ·), by
          rw [List.cons_append, List.takeWhile_append_dropWhile]⟩

theorem cutLine_append (registry : Registry) (line : String) :
    ∃ rest, line.toList = (cutLine registry line).toList ++ rest ∧
      match firstUnknown? registry line with
      | none => rest = []
      | some token => token.toList <+: rest := by
  obtain ⟨rest, hrest, hword⟩ := cutCharacters_append registry line.toList
  have hfirst : firstUnknown? registry line =
      ((words line.toList).find? (!isKnownWord registry ·)).map
        String.ofList := List.find?_map
  refine ⟨rest, ?_, ?_⟩
  · rw [cutLine, String.toList_ofList]
    exact hrest
  · rw [hfirst]
    cases hfound : (words line.toList).find? (!isKnownWord registry ·) with
    | none =>
        rw [hfound] at hword
        exact hword
    | some word =>
        rw [hfound] at hword
        simp only [Option.map_some, String.toList_ofList]
        exact hword

theorem NumbersConvert.cutLine {line : String}
    (h : NumbersConvert (ofLine line)) :
    NumbersConvert (ofLine (Token.cutLine registry line)) := by
  intro token hmem
  rw [ofLine_cutLine] at hmem
  exact h token ((List.takeWhile_prefix _).subset hmem)

end Token

namespace Calculator

open Token (NumbersConvert cutLine firstUnknown? isRecognised ofLine)

variable {c : Calculator} {line : String}

/-! ## One line -/

theorem Steady.enter_cutLine (hsteady : Steady c)
    (hconvert : NumbersConvert (ofLine line)) :
    ∃ result, (c.enter (cutLine c.registry line)).outcome = .ok result ∧
      (c.enter (cutLine c.registry line)).after =
        c.afterTokens (ofLine (cutLine c.registry line)) ∧
      answerTo (ofLine (cutLine c.registry line)) c = .ok result := by
  refine hsteady.enter ?_
  intro token hmem
  refine ⟨hconvert.cutLine token hmem, Or.inr ?_⟩
  rw [Token.ofLine_cutLine] at hmem
  exact List.mem_takeWhile_imp hmem

theorem enter_strict (hsteady : Steady c) (hstrict : c.strict = true)
    (hconvert : NumbersConvert (ofLine line)) :
    (c.enter line).after = (c.enter (cutLine c.registry line)).after ∧
      (c.enter line).outcome =
        match firstUnknown? c.registry line with
        | none => (c.enter (cutLine c.registry line)).outcome
        | some token => .error (.unknownToken token) := by
  obtain ⟨result, houtcome, hafter, _⟩ := hsteady.enter_cutLine hconvert
  have hrest : firstUnknown? c.registry line =
      ((ofLine line).dropWhile (isRecognised c.registry)).head? := by
    rw [firstUnknown?, List.find?_eq_head?_dropWhile_not]
    simp
  have hline : c.enter line =
      enterTokens (c.enter (cutLine c.registry line))
        ((ofLine line).dropWhile (isRecognised c.registry)) := by
    rw [enter, enter, Token.ofLine_cutLine, ← enterTokens_append,
      List.takeWhile_append_dropWhile]
  rw [hline, hrest]
  cases hdrop : (ofLine line).dropWhile (isRecognised c.registry) with
  | nil => exact ⟨rfl, rfl⟩
  | cons token rest =>
      have hstop := List.head?_dropWhile_not (isRecognised c.registry)
        (ofLine line)
      rw [hdrop] at hstop
      have hunknown : isRecognised c.registry token = false := by
        simpa using hstop
      have hrefused :
          (c.enter (cutLine c.registry line)).after.enterToken token =
            ⟨.error (.unknownToken token),
              (c.enter (cutLine c.registry line)).after, []⟩ := by
        rw [hafter, enterToken_of_unknown (c := afterTokens _ c) hunknown]
        exact if_pos hstrict
      rw [enterTokens_of_ok houtcome, hrefused, enterTokens_of_error rfl]
      exact ⟨rfl, rfl⟩

/-- The calculator made strict. -/
def strictly (c : Calculator) : Calculator :=
  { c with strict := true }

/-- On the same stack, a strict calculator comes to what a lenient one does on
the cut line, and so does the answer unless something was cut off. -/
theorem enter_agree (hsteady : Steady c) (hconvert : NumbersConvert (ofLine line)) :
    (c.strictly.enter line).after =
        (c.enter (cutLine c.registry line)).after.strictly ∧
      (c.strictly.enter line).outcome =
        match firstUnknown? c.registry line with
        | none => (c.enter (cutLine c.registry line)).outcome
        | some token => .error (.unknownToken token) := by
  have hstrict : Steady c.strictly :=
    ⟨hsteady.registered, hsteady.stacked, hsteady.quiet⟩
  have hregistry : c.strictly.registry = c.registry := rfl
  obtain ⟨hafter, houtcome⟩ := enter_strict hstrict rfl hconvert
  obtain ⟨result, hreply, hcut, hanswer⟩ := hstrict.enter_cutLine hconvert
  obtain ⟨result', hreply', hcut', hanswer'⟩ := hsteady.enter_cutLine hconvert
  rw [hafter, hcut, houtcome, hreply, ← hanswer, hcut', hreply', ← hanswer',
    hregistry]
  exact ⟨rfl, rfl⟩

end Calculator

namespace CommandLine

open Token (NumbersConvert cutLine firstUnknown? ofLine)

/-! ## A run of lines -/

/-- Whether an output is the reply to a line, and not of the log. -/
def Output.isReply : Output → Bool
  | .log _ => false
  | _ => true

/-- The replies of a transcript. -/
def Transcript.replies (t : Transcript) : List Output :=
  t.outputs.filter Output.isReply

theorem filter_isReply_log (notices : List Notice) :
    (notices.map Output.log).filter Output.isReply = [] := by
  induction notices with
  | nil => rfl
  | cons notice rest ih => exact ih

section Lines

variable {c : Calculator} {line : String}

/-- The reply to a line, unless its fault ends the run. -/
def reply? : Except Fault (Option Float) → Option Output
  | .ok result => some (.answer (answerText result))
  | .error fault =>
    if fault.isOwn then some (.complaint fault.message) else none

theorem enterLines_cons {reply : Output}
    (h : reply? (c.enter line).outcome = some reply) (rest : List String) :
    (enterLines c (line :: rest)).1.replies =
        reply :: (enterLines (c.enter line).after rest).1.replies ∧
      (enterLines c (line :: rest)).1.ending =
        (enterLines (c.enter line).after rest).1.ending ∧
      (enterLines c (line :: rest)).2 =
        (enterLines (c.enter line).after rest).2 := by
  rw [enterLines]
  cases houtcome : (c.enter line).outcome with
  | ok result =>
      rw [houtcome] at h
      cases h
      refine ⟨?_, rfl, rfl⟩
      simp only [Transcript.replies, List.filter_append, filter_isReply_log]
      rfl
  | error fault =>
      rw [houtcome, reply?] at h
      cases hown : fault.isOwn with
      | false =>
          rw [hown] at h
          cases h
      | true =>
          rw [hown] at h
          cases h
          simp only [hown, if_true, and_true, Transcript.replies,
            List.filter_append, filter_isReply_log]
          rfl

/-- What a strict run replies to a line that a lenient run answers in this way
after the cut. -/
def strictReply (registry : Registry) (line answer : String) : Output :=
  match firstUnknown? registry line with
  | none => .answer answer
  | some token => .complaint ("Unknown token " ++ Text.quoted token)

/-- How a strict run on lines compares with a lenient one on the cut lines,
which has given these answers. -/
structure Agree (registry : Registry) (lines answers : List String)
    (strict lenient : Transcript × Calculator) : Prop where
  length_eq : answers.length = lines.length
  lenient_replies : lenient.1.replies = answers.map .answer
  strict_replies :
    strict.1.replies = List.zipWith (strictReply registry) lines answers
  lenient_finished : lenient.1.ending = .finished
  strict_finished : strict.1.ending = .finished
  stack_eq : strict.2.stack = lenient.2.stack

theorem enterLines_agree {lines : List String} (hsteady : c.Steady)
    (hconvert : ∀ line ∈ lines, NumbersConvert (ofLine line)) :
    ∃ answers, Agree c.registry lines answers
      (enterLines c.strictly lines)
      (enterLines c (lines.map (cutLine c.registry))) := by
  induction lines generalizing c with
  | nil => exact ⟨[], rfl, rfl, rfl, rfl, rfl, rfl⟩
  | cons line rest ih =>
      obtain ⟨hline, hrest⟩ := List.forall_mem_cons.1 hconvert
      obtain ⟨result, hreply, hcut, _⟩ := hsteady.enter_cutLine hline
      obtain ⟨hafter, houtcome⟩ := Calculator.enter_agree hsteady hline
      have hanswer : reply? (c.enter (cutLine c.registry line)).outcome =
          some (.answer (answerText result)) := by
        rw [hreply]
        rfl
      have hstrict : reply? (c.strictly.enter line).outcome =
          some (strictReply c.registry line (answerText result)) := by
        rw [houtcome, strictReply]
        cases firstUnknown? c.registry line with
        | none => exact hanswer
        | some token => rfl
      have hnext : (c.enter (cutLine c.registry line)).after.Steady := by
        rw [hcut]
        exact hsteady.afterTokens _
      obtain ⟨answers, hagree⟩ := ih hnext hrest
      have hregistry : (c.enter (cutLine c.registry line)).after.registry =
          c.registry := by
        rw [hcut]
        rfl
      rw [hregistry] at hagree
      obtain ⟨hreplies, hending, hend⟩ := enterLines_cons hanswer
        (rest.map (cutLine c.registry))
      obtain ⟨hreplies', hending', hend'⟩ := enterLines_cons hstrict rest
      rw [hafter] at hreplies' hending' hend'
      refine ⟨answerText result :: answers, ?_, ?_, ?_, ?_, ?_, ?_⟩
      · rw [List.length_cons, List.length_cons, hagree.length_eq]
      · rw [List.map_cons, hreplies, hagree.lenient_replies, List.map_cons]
      · rw [hreplies', hagree.strict_replies, List.zipWith_cons_cons]
      · rw [List.map_cons, hending, hagree.lenient_finished]
      · rw [hending', hagree.strict_finished]
      · rw [List.map_cons, hend, hend', hagree.stack_eq]

end Lines

/-! ## What is written -/

/-- Where the log is not written, only the replies are. -/
theorem filterMap_replies {written : Output → Option String}
    (hlog : ∀ notice, written (.log notice) = none) (t : Transcript) :
    t.replies.filterMap written = t.outputs.filterMap written := by
  rw [Transcript.replies, List.filterMap_filter]
  congr 1
  funext output
  cases output with
  | log notice => exact (hlog notice).symm
  | _ => rfl

theorem standardOutput_eq (t : Transcript) :
    t.standardOutput = asText (t.replies.filterMap Output.onOutput?) := by
  rw [filterMap_replies fun _ => rfl]
  rfl

theorem standardError_eq (t : Transcript) :
    t.standardError false =
      asText (t.replies.filterMap (Output.onError? false)) := by
  rw [filterMap_replies fun _ => rfl]
  rfl

theorem onOutput?_strictReply (registry : Registry) (line answer : String) :
    (strictReply registry line answer).onOutput? =
      if (firstUnknown? registry line).isNone then some answer else none := by
  rw [strictReply]
  cases firstUnknown? registry line with
  | none => rfl
  | some token => rfl

theorem onError?_strictReply (registry : Registry) (line answer : String) :
    (strictReply registry line answer).onError? false =
      (firstUnknown? registry line).map
        fun token => "Unknown token " ++ Text.quoted token := by
  rw [strictReply]
  cases firstUnknown? registry line with
  | none => rfl
  | some token => rfl

theorem onOutput?_strictReplies (registry : Registry)
    (lines answers : List String) :
    (List.zipWith (strictReply registry) lines answers).filterMap
        Output.onOutput? =
      (lines.zip answers).filterMap fun (line, answer) =>
        if (firstUnknown? registry line).isNone then some answer else none := by
  rw [← List.map_uncurry_zip_eq_zipWith, List.filterMap_map]
  congr 1
  funext ⟨line, answer⟩
  exact onOutput?_strictReply registry line answer

theorem onError?_strictReplies (registry : Registry)
    {lines answers : List String} (h : answers.length = lines.length) :
    (List.zipWith (strictReply registry) lines answers).filterMap
        (Output.onError? false) =
      lines.filterMap fun line => (firstUnknown? registry line).map
        fun token => "Unknown token " ++ Text.quoted token := by
  have hlines : (lines.zip answers).map Prod.fst = lines :=
    List.map_fst_zip h.ge
  conv_rhs => rw [← hlines]
  rw [← List.map_uncurry_zip_eq_zipWith, List.filterMap_map,
    List.filterMap_map]
  congr 1
  funext ⟨line, answer⟩
  exact onError?_strictReply registry line answer

theorem run_lines {o : Options} (htask : o.task = .calculate)
    {lines : List String}
    (h : (enterLines o.calculator lines).1.ending = .finished) :
    o.run ⟨lines, false⟩ = (enterLines o.calculator lines).1 := by
  rw [Options.run, htask]
  simp only []
  rw [h]
  rfl

/-- A strict run on lines is a lenient run on the same lines, each cut off
before its first token that is not recognised. Both end with the same stack. To
a line that is not cut the strict run gives the lenient one's answer, and of any
other line it writes only that the token is unknown, in one line. It goes on
with the next line and ends well. -/
theorem strict_run_agrees {o : Options} (htask : o.task = .calculate)
    (hstrict : o.strict = true) {lines : List String}
    (hconvert : ∀ line ∈ lines, NumbersConvert (ofLine line)) :
    let registry := Registry.ofList Operation.standard
    let lenient : Options := { o with strict := false }
    let cut := lines.map (cutLine registry)
    let run := o.run ⟨lines, false⟩
    (∀ line, ∃ rest, line.toList = (cutLine registry line).toList ++ rest ∧
      match firstUnknown? registry line with
      | none => rest = []
      | some token => token.toList <+: rest) ∧
    (∀ token, '\n' ∉ ("Unknown token " ++ Text.quoted token).toList) ∧
    (enterLines o.calculator lines).2.stack =
      (enterLines lenient.calculator cut).2.stack ∧
    run.ending.exitCode = 0 ∧
    ∃ answers : List String, answers.length = lines.length ∧
      (lenient.run ⟨cut, false⟩).replies = answers.map .answer ∧
      run.replies = List.zipWith (strictReply registry) lines answers ∧
      run.standardOutput = asText ((lines.zip answers).filterMap
        fun (line, answer) =>
          if (firstUnknown? registry line).isNone then some answer else none) ∧
      run.standardError false = asText (lines.filterMap fun line =>
        (firstUnknown? registry line).map
          fun token => "Unknown token " ++ Text.quoted token) := by
  intro registry lenient cut run
  have hlenient : lenient.calculator.Steady :=
    (Calculator.Reachable.new .logging (some false)).steady trivial
  have hcalculator : o.calculator = lenient.calculator.strictly := by
    rw [Options.calculator, hstrict]
    rfl
  have hregistry : lenient.calculator.registry = registry := rfl
  obtain ⟨answers, hagree⟩ := enterLines_agree hlenient hconvert
  rw [← hcalculator, hregistry] at hagree
  have hrun : run = (enterLines o.calculator lines).1 :=
    run_lines htask hagree.strict_finished
  have hcut : lenient.run ⟨cut, false⟩ =
      (enterLines lenient.calculator cut).1 :=
    run_lines (o := lenient) htask hagree.lenient_finished
  rw [hcut, standardOutput_eq, standardError_eq, hrun, hagree.strict_replies,
    hagree.strict_finished]
  refine ⟨Token.cutLine_append registry, ?_, hagree.stack_eq, rfl, answers,
    hagree.length_eq, hagree.lenient_replies, rfl, ?_, ?_⟩
  · intro token
    simp [Text.newline_not_mem_quoted]
  · rw [onOutput?_strictReplies]
  · rw [onError?_strictReplies registry hagree.length_eq]

/-- Two lines with a token that is not recognised, one that goes on where the
first one stopped, and one without tokens. -/
def interrupted : List String :=
  ["1 2 frob 3", "+", "C 4 it's 5", ""]

theorem interrupted_run_agrees :
    let registry := Registry.ofList Operation.standard
    let strict : Options := { Options.standard with strict := true }
    interrupted.map (cutLine registry) = ["1 2 ", "+", "C 4 ", ""] ∧
      (enterLines strict.calculator interrupted).2.stack =
        (enterLines Options.standard.calculator
          (interrupted.map (cutLine registry))).2.stack ∧
      (strict.run ⟨interrupted, false⟩).ending.exitCode = 0 ∧
      (strict.run ⟨interrupted, false⟩).standardError false =
        "Unknown token 'frob'\nUnknown token \"it's\"\n" := by
  intro registry strict
  have hconvert : ∀ line ∈ interrupted, NumbersConvert (ofLine line) := by
    intro line hline
    refine Token.numbersConvert_of_ascii ?_
    revert line
    decide +kernel
  obtain ⟨_, _, hstack, hcode, _, _, _, _, _, herror⟩ :=
    strict_run_agrees (o := strict) rfl rfl hconvert
  refine ⟨by decide +kernel, hstack, hcode, herror.trans ?_⟩
  decide +kernel

end CommandLine

end Rpn
