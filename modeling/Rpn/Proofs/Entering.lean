import Mathlib.Data.List.DropRight
import Rpn.Calculator.Entry
import Rpn.Proofs.Loading
import Rpn.Proofs.Totality

/-!
# Entering a line and loading it

A line is entered token by token, and every token is judged and acts at once; a
program is classified first and then replaces the stack as a whole. The two tell
tokens apart in different ways, but they agree on what each one stands for
(`Token.meaning?`). So what a token makes of the stack can be said without
either: the clear key empties it, and any other token puts its operation on top
if it stands for one (`Token.entered`).

`enterToken_eq` says this of one token, for lenient calculators and, if it is
recognised, for strict ones. `Follows` is what a row of tokens keeps: as long as
there is an answer, it is the one to the tokens so far, and the calculator is
the one they lead to. That an answer is there needs a steady calculator
(`Steady.enterTokens`). Folding `entered` over a line leaves what loading the
tokens after the last clear key would build (`foldl_entered`), on top of the old
stack if nothing cleared it.
-/

namespace Rpn

namespace Token

open Calculator (clearKey)
open Number (isNumber)

/-- Whether all numbers in a row of tokens can be converted. -/
def NumbersConvert (tokens : List String) : Prop :=
  ∀ token ∈ tokens, isNumber token = true → ∃ x, number token = .ok x

/-- Whether a token is the clear key, a registered symbol or a number. -/
def isRecognised (registry : Registry) (token : String) : Bool :=
  token == clearKey || registry.contains token || isNumber token

/-- The operation that a token stands for. -/
def meaning? (registry : Registry) (token : String) : Option Operation :=
  match classify registry token with
  | .ok found => found
  | .error _ => none

/-- The stack after a token was entered. -/
def entered (registry : Registry) (stack : Stack) (token : String) : Stack :=
  if token = clearKey then [] else (meaning? registry token).toList ++ stack

/-- The tokens after the last clear key, or all of them if there is none. -/
def sinceClear (tokens : List String) : List String :=
  tokens.rtakeWhile (· ≠ clearKey)

variable {registry : Registry} {token : String}

theorem numbersConvert_of_ascii {tokens : List String}
    (h : ∀ token ∈ tokens, token.toList.all (·.toNat < 128) = true) :
    NumbersConvert tokens := by
  intro token hmem hnumber
  refine (exists_number_iff hnumber).2 ?_
  intro c hc
  cases hunread : Number.isUnread c with
  | false => rfl
  | true =>
      have hascii : c.toNat < 128 :=
        of_decide_eq_true (List.all_eq_true.1 (h token hmem) c hc)
      exact absurd hascii (Nat.not_lt.2 (Number.toNat_of_isUnread hunread).2)

theorem meaning?_of_find? {op : Operation}
    (h : registry.find? token = some op) : meaning? registry token = some op := by
  rw [meaning?, classify, h]

theorem meaning?_of_number {x : Float} (hfree : registry.find? token = none)
    (hnumber : isNumber token = true) (hx : number token = .ok x) :
    meaning? registry token = some (.operand x) := by
  simp [meaning?, classify, hfree, hnumber, hx, Except.map]

theorem meaning?_of_unknown (hfree : registry.find? token = none)
    (hnumber : isNumber token = false) : meaning? registry token = none := by
  simp [meaning?, classify, hfree, hnumber]

theorem classify_eq_meaning? (h : isNumber token = true →
    ∃ x, number token = .ok x) :
    classify registry token = .ok (meaning? registry token) := by
  cases hfound : registry.find? token with
  | some op => rw [meaning?_of_find? hfound, classify, hfound]
  | none =>
      cases hnumber : isNumber token with
      | true =>
          obtain ⟨x, hx⟩ := h hnumber
          rw [meaning?_of_number hfound hnumber hx]
          simp [classify, hfound, hnumber, hx, Except.map]
      | false =>
          rw [meaning?_of_unknown hfound hnumber]
          simp [classify, hfound, hnumber]

theorem holds_of_meaning? {op : Operation}
    (h : meaning? registry token = some op) : registry.Holds op := by
  rw [meaning?] at h
  split at h
  · next found hfound =>
      rw [h] at hfound
      exact Registry.holds_of_classify hfound
  · cases h

theorem sinceClear_concat (tokens : List String) (token : String) :
    sinceClear (tokens ++ [token]) =
      if token = clearKey then [] else sinceClear tokens ++ [token] := by
  rw [sinceClear, List.rtakeWhile_concat]
  by_cases hclear : token = clearKey
  · simp [hclear]
  · simp [hclear, sinceClear]

theorem foldl_entered (registry : Registry) (stack : Stack)
    (tokens : List String) :
    tokens.foldl (entered registry) stack =
      ((sinceClear tokens).filterMap (meaning? registry)).reverse ++
        if clearKey ∈ tokens then [] else stack := by
  induction tokens using List.reverseRecOn with
  | nil => simp [sinceClear]
  | append_singleton tokens token ih =>
      rw [List.foldl_append, List.foldl_cons, List.foldl_nil, ih, entered,
        sinceClear_concat]
      by_cases hclear : token = clearKey
      · simp [hclear]
      · cases hmeaning : meaning? registry token with
        | none => simp [hclear, Ne.symm hclear, hmeaning]
        | some op => simp [hclear, Ne.symm hclear, hmeaning]

end Token

namespace Program

open Token (NumbersConvert meaning?)

theorem mapM_classify {registry : Registry} {tokens : List String}
    (h : NumbersConvert tokens) :
    (tokens.map Value.text).mapM (classify registry) =
      .ok (tokens.map (meaning? registry)) := by
  induction tokens with
  | nil => rfl
  | cons token rest ih =>
      have hrest := ih fun token hmem => h token (List.mem_cons_of_mem _ hmem)
      rw [List.map_cons, List.mapM_cons, classify,
        Token.classify_eq_meaning? (h token List.mem_cons_self), hrest]
      rfl

end Program

namespace Calculator

open Token (NumbersConvert entered isRecognised meaning? sinceClear)

variable {c : Calculator} {token : String}

/-- The calculator with the stack that tokens leave. -/
def afterTokens (tokens : List String) (c : Calculator) : Calculator :=
  { c with stack := tokens.foldl (entered c.registry) c.stack }

theorem afterTokens_append (front back : List String) (c : Calculator) :
    afterTokens (front ++ back) c = afterTokens back (afterTokens front c) := by
  rw [afterTokens, List.foldl_append]
  rfl

/-- What is answered to tokens: the display of a cleared calculator if the clear
key was the last, and otherwise the value of the stack that they leave. -/
def answerTo (tokens : List String) (c : Calculator) :
    Except Fault (Option Float) :=
  if tokens.getLast? = some clearKey then .ok (some c.settings.resetValue)
  else (afterTokens tokens c).stack.evaluate.map Outcome.value?

theorem Steady.entered (h : Steady c) (token : String) :
    ∀ op ∈ entered c.registry c.stack token, op.IsTotal := by
  intro op hop
  rw [Token.entered] at hop
  split at hop
  · cases hop
  · rcases List.mem_append.1 hop with hmeaning | hstack
    · rw [Option.mem_toList] at hmeaning
      exact h.isTotal_of_holds (Token.holds_of_meaning? hmeaning)
    · exact h.stacked op hstack

theorem Steady.afterTokens (h : Steady c) (tokens : List String) :
    Steady (afterTokens tokens c) := by
  induction tokens generalizing c with
  | nil => exact h
  | cons token rest ih => exact ih (h.restack (h.entered token))

/-! ## One token -/

theorem afterTokens_clear (c : Calculator) :
    afterTokens [clearKey] c = { c with stack := [] } := by
  simp [afterTokens, entered]

theorem afterTokens_of_some {op : Operation} (hclear : token ≠ clearKey)
    (h : meaning? c.registry token = some op) :
    afterTokens [token] c = c.add op := by
  simp [afterTokens, entered, hclear, h, add]

theorem afterTokens_of_none (hclear : token ≠ clearKey)
    (h : meaning? c.registry token = none) : afterTokens [token] c = c := by
  simp [afterTokens, entered, hclear, h]

theorem enterToken_of_find? {op : Operation} (hclear : token ≠ clearKey)
    (hfound : c.registry.find? token = some op) :
    c.enterToken token = (c.add op).evaluate := by
  have hcontains : c.registry.contains token = true := by
    rw [Registry.contains, hfound]
    rfl
  rw [enterToken, if_neg hclear, if_pos hcontains, perform_text, hfound]

theorem enterToken_of_number {x : Float} (hclear : token ≠ clearKey)
    (hfree : c.registry.find? token = none)
    (hnumber : Number.isNumber token = true) (hx : Token.number token = .ok x) :
    c.enterToken token = (c.add (.operand x)).evaluate := by
  have hcontains : ¬ c.registry.contains token = true := by
    rw [Registry.contains, hfree]
    decide
  rw [enterToken, if_neg hclear, if_neg hcontains, if_pos hnumber, hx]
  exact push_of_ok rfl c

theorem enterToken_of_unknown (h : isRecognised c.registry token = false) :
    c.enterToken token =
      if c.strict then ⟨.error (.unknownToken token), c, []⟩
      else c.evaluate.following [.ignored (.text token)] := by
  simp only [isRecognised, Bool.or_eq_false_iff, beq_eq_false_iff_ne] at h
  obtain ⟨⟨hclear, hcontains⟩, hnumber⟩ := h
  have hfree : c.registry.find? token = none := by
    simpa [Registry.contains] using hcontains
  rw [enterToken, if_neg hclear, hcontains, hnumber, perform_text, hfree]
  rfl

/-- Whether a calculator takes a token: it converts if it is a number, and it is
recognised unless the calculator is lenient. -/
structure Takes (c : Calculator) (token : String) : Prop where
  converts : Number.isNumber token = true → ∃ x, Token.number token = .ok x
  known : c.strict = false ∨ isRecognised c.registry token = true

theorem Takes.afterTokens (h : Takes c token) (tokens : List String) :
    Takes (afterTokens tokens c) token :=
  ⟨h.converts, h.known⟩

/-- A token that is recognised changes the stack as its meaning says, strictly
or not, and a lenient calculator passes over any other. The stack is evaluated
either way. -/
theorem enterToken_eq (h : Takes c token) (hclear : token ≠ clearKey) :
    ∃ notices, c.enterToken token =
      (afterTokens [token] c).evaluate.following notices := by
  cases hfound : c.registry.find? token with
  | some op =>
      have hmeaning := Token.meaning?_of_find? hfound
      rw [afterTokens_of_some hclear hmeaning,
        enterToken_of_find? hclear hfound]
      exact ⟨[], rfl⟩
  | none =>
      cases hnumber : Number.isNumber token with
      | true =>
          obtain ⟨x, hx⟩ := h.converts hnumber
          have hmeaning := Token.meaning?_of_number hfound hnumber hx
          rw [afterTokens_of_some hclear hmeaning,
            enterToken_of_number hclear hfound hnumber hx]
          exact ⟨[], rfl⟩
      | false =>
          have hunknown : isRecognised c.registry token = false := by
            simp [isRecognised, Registry.contains, hclear, hfound, hnumber]
          have hlenient : c.strict = false := by
            rcases h.known with hlenient | hrecognised
            · exact hlenient
            · rw [hunknown] at hrecognised
              cases hrecognised
          have hmeaning := Token.meaning?_of_unknown hfound hnumber
          rw [afterTokens_of_none hclear hmeaning,
            enterToken_of_unknown hunknown, hlenient]
          exact ⟨[.ignored (.text token)], rfl⟩

theorem Steady.enterToken (hsteady : Steady c) (h : Takes c token) :
    ∃ result, (c.enterToken token).outcome = .ok result := by
  by_cases hclear : token = clearKey
  · rw [Calculator.enterToken, if_pos hclear]
    exact ⟨some c.settings.resetValue, rfl⟩
  · obtain ⟨notices, heq⟩ := enterToken_eq h hclear
    obtain ⟨result, _, hresult⟩ := (hsteady.afterTokens [token]).evaluate
    rw [heq]
    exact ⟨result, hresult⟩

/-! ## A row of tokens -/

/-- Whether a report is one of a calculator on which tokens were entered, if it
is an answer. It may also be the fault of an observer, which ended the line. -/
def Follows (c : Calculator) (tokens : List String)
    (report : Report (Option Float)) : Prop :=
  ∀ result, report.outcome = .ok result →
    report.after = afterTokens tokens c ∧ answerTo tokens c = .ok result

theorem follows_evaluate (c : Calculator) : Follows c [] c.evaluate :=
  fun _ hresult => ⟨evaluate_after c, value_of_evaluate hresult⟩

variable {front back : List String} {sofar : Report (Option Float)}

theorem Follows.enterToken (h : Follows c front sofar)
    (hanswered : ∃ result, sofar.outcome = .ok result)
    (htoken : Takes c token) :
    Follows c (front ++ [token])
      ((sofar.after.enterToken token).following sofar.notices) := by
  obtain ⟨earlier, hearlier⟩ := hanswered
  have hfront := (h earlier hearlier).1
  intro result hresult
  rw [answerTo, List.getLast?_concat, afterTokens_append]
  rw [hfront] at hresult ⊢
  by_cases hclear : token = clearKey
  · rw [hclear] at hresult ⊢
    cases hresult
    exact ⟨(afterTokens_clear _).symm, if_pos rfl⟩
  · obtain ⟨notices, heq⟩ := enterToken_eq (htoken.afterTokens front) hclear
    rw [heq] at hresult ⊢
    refine ⟨evaluate_after _, ?_⟩
    rw [if_neg (by simpa using hclear)]
    exact value_of_evaluate hresult

theorem enterTokens_of_error {fault : Fault}
    (h : sofar.outcome = .error fault) (tokens : List String) :
    enterTokens sofar tokens = sofar := by
  cases tokens with
  | nil => rfl
  | cons token rest => rw [enterTokens, h]

theorem enterTokens_of_ok {result : Option Float}
    (h : sofar.outcome = .ok result) (token : String) (rest : List String) :
    enterTokens sofar (token :: rest) =
      enterTokens ((sofar.after.enterToken token).following sofar.notices)
        rest := by
  rw [enterTokens, h]

theorem enterTokens_append (sofar : Report (Option Float))
    (front back : List String) :
    enterTokens sofar (front ++ back) =
      enterTokens (enterTokens sofar front) back := by
  induction front generalizing sofar with
  | nil => rfl
  | cons token rest ih =>
      cases houtcome : sofar.outcome with
      | error fault =>
          rw [enterTokens_of_error houtcome, enterTokens_of_error houtcome,
            enterTokens_of_error houtcome]
      | ok result =>
          rw [List.cons_append, enterTokens_of_ok houtcome,
            enterTokens_of_ok houtcome, ih]

theorem Follows.enterTokens (h : Follows c front sofar)
    (htokens : ∀ token ∈ back, Takes c token) :
    Follows c (front ++ back) (enterTokens sofar back) := by
  induction back generalizing front sofar with
  | nil =>
      rw [List.append_nil]
      exact h
  | cons token rest ih =>
      obtain ⟨htoken, hrest⟩ := List.forall_mem_cons.1 htokens
      cases houtcome : sofar.outcome with
      | error fault =>
          rw [enterTokens_of_error houtcome]
          intro result hresult
          rw [houtcome] at hresult
          cases hresult
      | ok earlier =>
          rw [enterTokens_of_ok houtcome, List.append_cons]
          exact ih (h.enterToken ⟨earlier, houtcome⟩ htoken) hrest

/-- On a steady calculator no token fails. -/
theorem Steady.enterTokens (hsteady : Steady c) (h : Follows c front sofar)
    (hanswered : ∃ result, sofar.outcome = .ok result)
    (htokens : ∀ token ∈ back, Takes c token) :
    ∃ result, (enterTokens sofar back).outcome = .ok result := by
  induction back generalizing front sofar with
  | nil => exact hanswered
  | cons token rest ih =>
      obtain ⟨htoken, hrest⟩ := List.forall_mem_cons.1 htokens
      have hstep := h.enterToken hanswered htoken
      obtain ⟨earlier, houtcome⟩ := hanswered
      rw [enterTokens_of_ok houtcome]
      refine ih hstep ?_ hrest
      rw [(h earlier houtcome).1]
      exact (hsteady.afterTokens front).enterToken (htoken.afterTokens front)

variable {line : String}

theorem follows_enter (h : ∀ token ∈ Token.ofLine line, Takes c token) :
    Follows c (Token.ofLine line) (c.enter line) :=
  (follows_evaluate c).enterTokens h

theorem Steady.enter (hsteady : Steady c)
    (h : ∀ token ∈ Token.ofLine line, Takes c token) :
    ∃ result, (c.enter line).outcome = .ok result ∧
      (c.enter line).after = c.afterTokens (Token.ofLine line) ∧
      answerTo (Token.ofLine line) c = .ok result := by
  obtain ⟨first, _, hfirst⟩ := hsteady.evaluate
  obtain ⟨result, hresult⟩ :=
    hsteady.enterTokens (follows_evaluate c) ⟨first, hfirst⟩ h
  exact ⟨result, hresult, follows_enter h result hresult⟩

/-! ## Lines and programs -/

theorem load_tokens {tokens : List String} (h : NumbersConvert tokens)
    (c : Calculator) :
    (c.load (.list (tokens.map .text)) (some false)).outcome = .ok () ∧
      (c.load (.list (tokens.map .text)) (some false)).after =
        { c with stack := (tokens.filterMap (meaning? c.registry)).reverse } := by
  have hclassified : (tokens.map Value.text).mapM (Program.classify c.registry) =
      .ok (tokens.map (meaning? c.registry)) := Program.mapM_classify h
  have hstack := Program.stack_sort_of_ok hclassified false
  rw [if_neg (by simp), List.filterMap_map] at hstack
  rw [load]
  simp only [Option.getD_some, hstack]
  exact ⟨trivial, rfl⟩

/-- Entering a line on a lenient calculator over the standard operators leaves
what loading the tokens after its last clear key would build, on top of the old
stack unless the line clears it. The answer is the value of the old stack for a
line without tokens, what a cleared calculator shows for one that ends in the
clear key, and otherwise the value of the stack that the line leaves. There is
an answer unless the observer fails. -/
theorem Reachable.enter_loads {settings : Settings}
    (h : Reachable settings [] c) (hlenient : c.strict = false) {line : String}
    (hconvert : NumbersConvert (Token.ofLine line)) :
    ∃ loaded : Stack,
      (c.load (.list ((sinceClear (Token.ofLine line)).map .text))
          (some false)).outcome = .ok () ∧
      (c.load (.list ((sinceClear (Token.ofLine line)).map .text))
          (some false)).after = { c with stack := loaded } ∧
      (∀ result, (c.enter line).outcome = .ok result →
        (c.enter line).after = { c with
          stack := loaded ++
            if clearKey ∈ Token.ofLine line then [] else c.stack } ∧
        (match (Token.ofLine line).getLast? with
        | none => c.stack.evaluate.map Outcome.value?
        | some token =>
          if token = clearKey then .ok (some c.settings.resetValue)
          else (c.enter line).after.stack.evaluate.map Outcome.value?) =
            .ok result) ∧
      (c.observer.IsQuiet → ∃ result, (c.enter line).outcome = .ok result) := by
  have hsince : NumbersConvert (sinceClear (Token.ofLine line)) := by
    intro token hmem
    exact hconvert token ((List.rtakeWhile_suffix _ _).subset hmem)
  have htokens : ∀ token ∈ Token.ofLine line, Takes c token := by
    intro token hmem
    exact ⟨hconvert token hmem, Or.inl hlenient⟩
  obtain ⟨hloaded, hstack⟩ := load_tokens hsince c
  refine ⟨_, hloaded, hstack, ?_, ?_⟩
  · intro result hresult
    obtain ⟨hafter, hanswer⟩ := follows_enter htokens result hresult
    rw [hafter, ← hanswer, answerTo]
    refine ⟨by rw [afterTokens, Token.foldl_entered], ?_⟩
    cases hlast : (Token.ofLine line).getLast? with
    | none =>
        rw [List.getLast?_eq_none_iff.1 hlast]
        rfl
    | some token => simp only [Option.some.injEq]
  · intro hquiet
    obtain ⟨result, hresult, _⟩ := (h.steady hquiet).enter htokens
    exact ⟨result, hresult⟩

/-- A calculator on which a five was typed. -/
def typed : Calculator :=
  ((Calculator.new .standard [] .logging none).execute (.push (.real 5))).after

/-- The five is cleared, and what is unknown is passed over, also at the end. -/
theorem typed_enter_loads :
    typed.program = ["5.0"] ∧
      ∃ loaded : Stack,
        Program.ofStack loaded = ["1000.0", "2.0", "^"] ∧
        (typed.load (.list (["1_000", "frob", "2", "^", "huh"].map .text))
          (some false)).after = { typed with stack := loaded } ∧
        (typed.enter "3 C 1_000 frob 2 ^ huh").after =
          { typed with stack := loaded ++ [] } ∧
        (typed.enter "3 C 1_000 frob 2 ^ huh").outcome =
          (typed.enter "3 C 1_000 frob 2 ^ huh").after.stack.evaluate.map
            Outcome.value? := by
  have htokens : Token.ofLine "3 C 1_000 frob 2 ^ huh" =
      ["3", "C", "1_000", "frob", "2", "^", "huh"] := by decide +kernel
  have hconvert : NumbersConvert (Token.ofLine "3 C 1_000 frob 2 ^ huh") := by
    rw [htokens]
    exact Token.numbersConvert_of_ascii (by decide +kernel)
  have hreachable : Reachable .standard [] typed :=
    (Reachable.new .logging none).execute _
  have hobserver : typed.observer = .logging := rfl
  obtain ⟨loaded, _, hload, henter, hanswers⟩ :=
    hreachable.enter_loads rfl hconvert
  obtain ⟨result, hresult⟩ := hanswers (by rw [hobserver]; trivial)
  obtain ⟨hafter, hanswer⟩ := henter result hresult
  rw [htokens] at hload hafter hanswer
  refine ⟨by decide +kernel, loaded, ?_, hload, hafter,
    hresult.trans hanswer.symm⟩
  have hstack := congrArg Calculator.program hload
  rw [program, program] at hstack
  rw [← hstack]
  decide +kernel

end Calculator

end Rpn
