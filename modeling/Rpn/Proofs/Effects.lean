import Rpn.Proofs.Session

/-!
# What each command does

A command may fail before it has touched the stack, or after: at converting a
value, at looking up what cannot be looked up, at any token of a program, in a
caller's function, or in the observer. `Effect` is a table of all that may
happen, with the answer and the calculator afterwards in each case. Pushing and
performing put exactly one operation on the stack, and it stays there whatever
becomes of the evaluation that follows; a load replaces the stack as a whole or
leaves it as it was. What only reads a calculator, such as its program, is a
function of it and no command.

The table is exact (`effect_iff`), so what holds in all its cases holds of all
commands, and by induction of sessions: every step of a session is in the table,
the registry and the settings never change, and strictness and the observer are
changed by nothing but the commands that set them (`session_effects`).
-/

namespace Rpn

/-! ## The operations of a program -/

namespace Program

variable {r : Registry} {values : List Value} {found : List (Option Operation)}

/-- The values of a program that stand for nothing, with their places. The first
value has the given place. -/
def nameless (place : Nat) (values : List Value)
    (found : List (Option Operation)) : List (Nat × Value) :=
  (((values.zip found).zipIdx place).filter (·.1.2.isNone)).map
    fun entry => (entry.2, entry.1.1)

/-- Reading a program is classifying its values one after another. The first
that cannot be classified stops the reading. -/
theorem sort_eq (r : Registry) (place : Nat) (values : List Value) :
    match values.mapM (classify r) with
    | .error fault => (sort r place values).fault? = some fault
    | .ok found => sort r place values =
        ⟨found.filterMap id, nameless place values found, none⟩ := by
  induction values generalizing place with
  | nil => rfl
  | cons value rest ih =>
      have hrest := ih (place + 1)
      rw [List.mapM_cons, sort]
      cases classify r value with
      | error fault => rfl
      | ok op =>
          cases hfound : rest.mapM (classify r) with
          | error fault =>
              rw [hfound] at hrest
              cases op with
              | none => exact hrest
              | some op => exact hrest
          | ok found =>
              rw [hfound] at hrest
              simp only [] at hrest
              rw [hrest]
              cases op with
              | none => rfl
              | some op => rfl

theorem stack_sort_of_error {fault : Fault}
    (h : values.mapM (classify r) = .error fault) (strict : Bool) :
    (sort r 0 values).stack strict = .error fault := by
  have hsort := sort_eq r 0 values
  rw [h] at hsort
  simp only [] at hsort
  rw [Sorted.stack, hsort]

theorem stack_sort_of_ok (h : values.mapM (classify r) = .ok found)
    (strict : Bool) :
    (sort r 0 values).stack strict =
      if strict = true ∧ nameless 0 values found ≠ [] then
        .error (refusal (nameless 0 values found))
      else .ok (found.filterMap id).reverse := by
  have hsort := sort_eq r 0 values
  rw [h] at hsort
  simp only [] at hsort
  rw [Sorted.stack, hsort]
  simp only [Bool.and_eq_true, Bool.not_eq_true', List.isEmpty_eq_false_iff]

end Program

namespace Calculator

/-! ## The table of effects -/

/-- The answer to a command that ends with evaluating the stack. -/
def answer (c : Calculator) : Except Fault Reply :=
  c.evaluate.outcome.map .result

/-- What may come of a command to a calculator: the answer, which may be a
fault, and the calculator afterwards. -/
inductive Effect (c : Calculator) :
    Command → Except Fault Reply → Calculator → Prop where
  | unconverted {value : Value} {fault : Fault}
      (h : value.toFloat = .error fault) :
      Effect c (.push value) (.error fault) c
  -- The answer may still be a fault, found in evaluating or by the observer; the
  -- operation is on the stack by then.
  | pushed {value : Value} {x : Float} (h : value.toFloat = .ok x) :
      Effect c (.push value) (answer { c with stack := .operand x :: c.stack })
        { c with stack := .operand x :: c.stack }
  | performed {token : String} {op : Operation}
      (h : c.registry.find? token = some op) :
      Effect c (.perform (.text token)) (answer { c with stack := op :: c.stack })
        { c with stack := op :: c.stack }
  | unregistered {token : String} (h : c.registry.find? token = none) :
      Effect c (.perform (.text token)) c.answer c
  | noText {symbol : Value} (htext : ∀ token, symbol ≠ .text token)
      (hlist : ∀ items, symbol ≠ .list items) :
      Effect c (.perform symbol) c.answer c
  | notName {items : List Value} :
      Effect c (.perform (.list items)) (.error (.notName "list")) c
  | evaluated : Effect c .evaluate c.answer c
  | repushed {x : Float} (h : c.evaluate.outcome = .ok (some x)) :
      Effect c .repush (answer { c with stack := .operand x :: c.stack })
        { c with stack := .operand x :: c.stack }
  | notRepushed (h : ∀ x, c.evaluate.outcome ≠ .ok (some x)) :
      Effect c .repush c.answer c
  | reset :
      Effect c .reset (.ok (.display c.settings.resetValue))
        { c with stack := [] }
  | loaded {items : List Value} {mode : Option Bool}
      {found : List (Option Operation)}
      (h : items.mapM (Program.classify c.registry) = .ok found)
      (hmode : mode.getD c.strict = true →
        Program.nameless 0 items found = []) :
      Effect c (.load (.list items) mode) (.ok .done)
        { c with stack := (found.filterMap id).reverse }
  -- However a load fails, what it read up to there is lost.
  | rejected {items : List Value} {mode : Option Bool}
      {found : List (Option Operation)}
      (h : items.mapM (Program.classify c.registry) = .ok found)
      (hmode : mode.getD c.strict = true)
      (hnameless : Program.nameless 0 items found ≠ [])
      (hshown : ∀ entry ∈ Program.nameless 0 items found,
        entry.2.isShowable = true) :
      Effect c (.load (.list items) mode)
        (.error (.unrecognised (Program.nameless 0 items found))) c
  | unshown {items : List Value} {mode : Option Bool}
      {found : List (Option Operation)}
      (h : items.mapM (Program.classify c.registry) = .ok found)
      (hmode : mode.getD c.strict = true)
      (hunshown : ∃ entry ∈ Program.nameless 0 items found,
        entry.2.isShowable = false) :
      Effect c (.load (.list items) mode) (.error .unshowable) c
  | stopped {items : List Value} {mode : Option Bool} {fault : Fault}
      (h : items.mapM (Program.classify c.registry) = .error fault) :
      Effect c (.load (.list items) mode) (.error fault) c
  | textForProgram {text : String} {mode : Option Bool} :
      Effect c (.load (.text text) mode) (.error .textForProgram) c
  | notSequence {value : Value} {mode : Option Bool}
      (htext : ∀ text, value ≠ .text text)
      (hlist : ∀ items, value ≠ .list items) :
      Effect c (.load value mode) (.error (.notSequence value.kind)) c
  | setStrict {strict : Bool} :
      Effect c (.setStrict strict) (.ok .done) { c with strict := strict }
  | setObserver {observer : Observer} :
      Effect c (.setObserver observer) (.ok .done)
        { c with observer := observer }

variable {c : Calculator} {command : Command} {outcome : Except Fault Reply}
  {after : Calculator}

/-! ## The table is exact -/

theorem push_of_error {value : Value} {fault : Fault}
    (h : value.toFloat = .error fault) (c : Calculator) :
    c.push value = ⟨.error fault, c, []⟩ := by
  rw [push, h]

theorem push_of_ok {value : Value} {x : Float} (h : value.toFloat = .ok x)
    (c : Calculator) : c.push value = (c.add (.operand x)).evaluate := by
  rw [push, h]

theorem perform_text (token : String) (c : Calculator) :
    c.perform (.text token) =
      match c.registry.find? token with
      | some op => (c.add op).evaluate
      | none => c.evaluate.following [.ignored (.text token)] := rfl

theorem perform_of_noText {symbol : Value}
    (htext : ∀ token, symbol ≠ .text token)
    (hlist : ∀ items, symbol ≠ .list items) (c : Calculator) :
    c.perform symbol = c.evaluate.following [.ignored symbol] := by
  cases symbol with
  | text token => exact absurd rfl (htext token)
  | list items => exact absurd rfl (hlist items)
  | _ => rfl

theorem repush_of_some {x : Float} (h : c.evaluate.outcome = .ok (some x)) :
    c.repush = (c.add (.operand x)).evaluate.following c.evaluate.notices := by
  rw [repush, h]
  show (c.evaluate.after.push (.real x)).following _ = _
  rw [evaluate_after, push_of_ok rfl]

theorem repush_of_ne (h : ∀ x, c.evaluate.outcome ≠ .ok (some x)) :
    c.repush = c.evaluate := by
  rw [repush]
  split
  · next x hvalue => exact absurd hvalue (h x)
  · rfl

theorem execute_load_of_error {items : List Value} {mode : Option Bool}
    {fault : Fault}
    (h : (Program.sort c.registry 0 items).stack (mode.getD c.strict) =
      .error fault) :
    (c.execute (.load (.list items) mode)).outcome = .error fault ∧
      (c.execute (.load (.list items) mode)).after = c := by
  rw [execute, load, h]
  exact ⟨rfl, rfl⟩

theorem execute_load_of_ok {items : List Value} {mode : Option Bool}
    {stack : Stack}
    (h : (Program.sort c.registry 0 items).stack (mode.getD c.strict) =
      .ok stack) :
    (c.execute (.load (.list items) mode)).outcome = .ok .done ∧
      (c.execute (.load (.list items) mode)).after =
        { c with stack := stack } := by
  rw [execute, load, h]
  exact ⟨rfl, rfl⟩

theorem load_of_notSequence {value : Value} (htext : ∀ text, value ≠ .text text)
    (hlist : ∀ items, value ≠ .list items) (mode : Option Bool)
    (c : Calculator) :
    c.load value mode = ⟨.error (.notSequence value.kind), c, []⟩ := by
  cases value with
  | text text => exact absurd rfl (htext text)
  | list items => exact absurd rfl (hlist items)
  | _ => rfl

theorem Effect.eq_execute (h : Effect c command outcome after) :
    (c.execute command).outcome = outcome ∧
      (c.execute command).after = after := by
  cases h with
  | unconverted h =>
      rw [execute, push_of_error h]
      exact ⟨rfl, rfl⟩
  | pushed h =>
      rw [execute, push_of_ok h]
      exact ⟨rfl, evaluate_after _⟩
  | performed h =>
      rw [execute, perform_text, h]
      exact ⟨rfl, evaluate_after _⟩
  | unregistered h =>
      rw [execute, perform_text, h]
      exact ⟨rfl, evaluate_after c⟩
  | noText htext hlist =>
      rw [execute, perform_of_noText htext hlist]
      exact ⟨rfl, evaluate_after c⟩
  | notName => exact ⟨rfl, rfl⟩
  | evaluated => exact ⟨rfl, evaluate_after c⟩
  | repushed h =>
      rw [execute, repush_of_some h]
      exact ⟨rfl, evaluate_after _⟩
  | notRepushed h =>
      rw [execute, repush_of_ne h]
      exact ⟨rfl, evaluate_after c⟩
  | reset => exact ⟨rfl, rfl⟩
  | loaded h hmode =>
      refine execute_load_of_ok ?_
      rw [Program.stack_sort_of_ok h, if_neg]
      exact fun hrejected => hrejected.2 (hmode hrejected.1)
  | rejected h hmode hnameless hshown =>
      refine execute_load_of_error ?_
      rw [Program.stack_sort_of_ok h, if_pos ⟨hmode, hnameless⟩,
        Program.refusal_of_isShowable hshown]
  | unshown h hmode hunshown =>
      refine execute_load_of_error ?_
      obtain ⟨entry, hentry, hvalue⟩ := hunshown
      rw [Program.stack_sort_of_ok h,
        if_pos ⟨hmode, List.ne_nil_of_mem hentry⟩,
        Program.refusal_of_not_isShowable ⟨entry, hentry, hvalue⟩]
  | stopped h =>
      refine execute_load_of_error ?_
      rw [Program.stack_sort_of_error h]
  | textForProgram => exact ⟨rfl, rfl⟩
  | notSequence htext hlist =>
      rw [execute, load_of_notSequence htext hlist]
      exact ⟨rfl, rfl⟩
  | setStrict => exact ⟨rfl, rfl⟩
  | setObserver => exact ⟨rfl, rfl⟩

theorem exists_effect_push (c : Calculator) (value : Value) :
    ∃ outcome after, Effect c (.push value) outcome after := by
  cases h : value.toFloat with
  | error fault => exact ⟨_, _, .unconverted h⟩
  | ok x => exact ⟨_, _, .pushed h⟩

theorem exists_effect_perform (c : Calculator) (symbol : Value) :
    ∃ outcome after, Effect c (.perform symbol) outcome after := by
  cases symbol with
  | text token =>
      cases h : c.registry.find? token with
      | none => exact ⟨_, _, .unregistered h⟩
      | some op => exact ⟨_, _, .performed h⟩
  | list items => exact ⟨_, _, .notName⟩
  | _ => exact ⟨_, _, .noText nofun nofun⟩

theorem exists_effect_repush (c : Calculator) :
    ∃ outcome after, Effect c .repush outcome after := by
  by_cases h : ∃ x, c.evaluate.outcome = .ok (some x)
  · obtain ⟨x, h⟩ := h
    exact ⟨_, _, .repushed h⟩
  · exact ⟨_, _, .notRepushed fun x hx => h ⟨x, hx⟩⟩

theorem exists_effect_load (c : Calculator) (tokens : Value)
    (mode : Option Bool) :
    ∃ outcome after, Effect c (.load tokens mode) outcome after := by
  cases tokens with
  | text text => exact ⟨_, _, .textForProgram⟩
  | list items =>
      cases h : items.mapM (Program.classify c.registry) with
      | error fault => exact ⟨_, _, .stopped h⟩
      | ok found =>
          by_cases hrefused : mode.getD c.strict = true ∧
              Program.nameless 0 items found ≠ []
          · obtain ⟨hmode, hnameless⟩ := hrefused
            rcases Program.isShowable_cases (Program.nameless 0 items found)
              with hshown | hunshown
            · exact ⟨_, _, .rejected h hmode hnameless hshown⟩
            · exact ⟨_, _, .unshown h hmode hunshown⟩
          · refine ⟨_, _, .loaded h fun hmode => ?_⟩
            by_cases hnil : Program.nameless 0 items found = []
            · exact hnil
            · exact absurd ⟨hmode, hnil⟩ hrefused
  | _ => exact ⟨_, _, .notSequence nofun nofun⟩

theorem exists_effect (c : Calculator) (command : Command) :
    ∃ outcome after, Effect c command outcome after := by
  cases command with
  | push value => exact exists_effect_push c value
  | perform symbol => exact exists_effect_perform c symbol
  | evaluate => exact ⟨_, _, .evaluated⟩
  | repush => exact exists_effect_repush c
  | reset => exact ⟨_, _, .reset⟩
  | load tokens mode => exact exists_effect_load c tokens mode
  | setStrict strict => exact ⟨_, _, .setStrict⟩
  | setObserver observer => exact ⟨_, _, .setObserver⟩

theorem effect_iff :
    Effect c command outcome after ↔
      (c.execute command).outcome = outcome ∧
        (c.execute command).after = after := by
  refine ⟨Effect.eq_execute, ?_⟩
  rintro ⟨rfl, rfl⟩
  obtain ⟨outcome, after, h⟩ := exists_effect c command
  obtain ⟨houtcome, hafter⟩ := h.eq_execute
  rw [houtcome, hafter]
  exact h

/-! ## Sessions -/

/-- What commands leave as it was: what the calculator was set up with, and
strictness and the observer unless one of the commands sets them. -/
structure KeepsSetup (commands : List Command) (c after : Calculator) :
    Prop where
  settings_eq : after.settings = c.settings
  registry_eq : after.registry = c.registry
  strict_eq : (∀ strict, .setStrict strict ∉ commands) →
    after.strict = c.strict
  observer_eq : (∀ observer, .setObserver observer ∉ commands) →
    after.observer = c.observer

theorem KeepsSetup.mono {commands more : List Command}
    (h : KeepsSetup commands c after) (hmore : commands ⊆ more) :
    KeepsSetup more c after where
  settings_eq := h.settings_eq
  registry_eq := h.registry_eq
  strict_eq hnone := h.strict_eq fun strict hmem =>
    hnone strict (hmore hmem)
  observer_eq hnone := h.observer_eq fun observer hmem =>
    hnone observer (hmore hmem)

theorem KeepsSetup.trans {commands : List Command} {between : Calculator}
    (h : KeepsSetup commands c between)
    (h' : KeepsSetup commands between after) : KeepsSetup commands c after where
  settings_eq := h'.settings_eq.trans h.settings_eq
  registry_eq := h'.registry_eq.trans h.registry_eq
  strict_eq hnone := (h'.strict_eq hnone).trans (h.strict_eq hnone)
  observer_eq hnone := (h'.observer_eq hnone).trans (h.observer_eq hnone)

theorem Effect.keepsSetup (h : Effect c command outcome after) :
    KeepsSetup [command] c after := by
  cases h with
  | @setStrict strict =>
      exact ⟨rfl, rfl, fun hnone => absurd List.mem_cons_self (hnone strict),
        fun _ => rfl⟩
  | @setObserver observer =>
      exact ⟨rfl, rfl, fun _ => rfl,
        fun hnone => absurd List.mem_cons_self (hnone observer)⟩
  | _ => exact ⟨rfl, rfl, fun _ => rfl, fun _ => rfl⟩

theorem effect_execute (c : Calculator) (command : Command) :
    Effect c command (c.execute command).outcome (c.execute command).after :=
  effect_iff.2 ⟨rfl, rfl⟩

theorem effect_of_mem_session {commands : List Command} {before : Calculator}
    {report : Report Reply}
    (h : (before, command, report) ∈
      (c :: (c.session commands).map Report.after).zip
        (commands.zip (c.session commands))) :
    Effect before command report.outcome report.after := by
  induction commands generalizing c with
  | nil => cases h
  | cons first rest ih =>
      rcases List.mem_cons.1 h with heq | hrest
      · cases heq
        exact effect_execute _ _
      · exact ih hrest

theorem session_keepsSetup {commands : List Command} {report : Report Reply}
    (h : report ∈ c.session commands) : KeepsSetup commands c report.after := by
  induction commands generalizing c with
  | nil => cases h
  | cons command rest ih =>
      have hfirst : KeepsSetup (command :: rest) c (c.execute command).after :=
        (effect_execute c command).keepsSetup.mono (by simp)
      rcases List.mem_cons.1 h with rfl | hmem
      · exact hfirst
      · exact hfirst.trans ((ih hmem).mono (List.subset_cons_self _ _))

/-- Every command has exactly the effect that the table gives it, on whatever
calculator. So has every step of a session, on the calculator that the step
before it left. -/
theorem session_effects (c : Calculator) (commands : List Command) :
    (∀ command outcome after, Effect c command outcome after ↔
      (c.execute command).outcome = outcome ∧
        (c.execute command).after = after) ∧
    (∀ before command report,
      (before, command, report) ∈
          (c :: (c.session commands).map Report.after).zip
            (commands.zip (c.session commands)) →
        Effect before command report.outcome report.after) ∧
    ∀ report ∈ c.session commands, KeepsSetup commands c report.after :=
  ⟨fun _ _ _ => effect_iff, fun _ _ _ => effect_of_mem_session,
    fun _ => session_keepsSetup⟩

/-- A calculator with an observer that fails at every evaluation. -/
def watched : Calculator :=
  .new .standard [] (.failing ⟨"ValueError", "trace"⟩) none

/-- The operand stays on the stack although the push is a fault. -/
theorem watched_push :
    (watched.execute (.push (.text "2"))).outcome =
        .error (.observer ⟨"ValueError", "trace"⟩) ∧
      (watched.execute (.push (.text "2"))).after =
        { watched with stack := .operand 2 :: watched.stack } := by
  have htext : Number.read? "2" = some 2 := by decide +kernel
  have hread : (Value.text "2").toFloat = .ok 2 := by rw [Value.toFloat, htext]
  exact ((session_effects watched []).1 _ _ _).1 (.pushed hread)

end Calculator

end Rpn
