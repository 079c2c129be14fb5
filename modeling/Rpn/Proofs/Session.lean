import Rpn.Calculator.Command

/-!
# What a calculator may come to

However a calculator is used, its registry and its settings stay what they
were, and its stack holds nothing but operands and what the registry binds to a
symbol. `Registry.Holds` says the latter of one operation. A binding that a
later registration replaced is not held, although its operation once stood in
the list that was registered.

Most of what can be done leaves the calculator as it is or puts one operation
on its stack, whether or not it fails. Each of these has an equation for the
calculator afterwards, and the invariant is read off the equations.
-/

namespace Rpn

/-! ## Lookup -/

namespace Registry

theorem symbol_of_find? {r : Registry} {symbol : String} {op : Operation}
    (h : r.find? symbol = some op) : op.symbol = symbol := by
  have hfound := List.find?_some h
  exact of_decide_eq_true hfound

theorem mem_of_find? {r : Registry} {symbol : String} {op : Operation}
    (h : r.find? symbol = some op) : op ∈ r.operations :=
  List.mem_of_find?_eq_some h

/-- What may stand on a stack: an operand, or the operation that the registry
binds to its symbol. -/
def Holds (r : Registry) (op : Operation) : Prop :=
  (∃ x, op = .operand x) ∨ r.find? op.symbol = some op

theorem holds_operand (r : Registry) (x : Float) : r.Holds (.operand x) :=
  Or.inl ⟨x, rfl⟩

theorem holds_of_find? {r : Registry} {symbol : String} {op : Operation}
    (h : r.find? symbol = some op) : r.Holds op := by
  refine Or.inr ?_
  rw [symbol_of_find? h]
  exact h

theorem holds_of_classify {r : Registry} {token : String} {op : Operation}
    (h : Token.classify r token = .ok (some op)) : r.Holds op := by
  rw [Token.classify] at h
  split at h
  · next found hfound =>
      obtain rfl : found = op := by
        injection h with h
        injection h
      exact holds_of_find? hfound
  · split at h
    · cases hnumber : Token.number token with
      | error fault =>
          rw [hnumber] at h
          cases h
      | ok x =>
          rw [hnumber] at h
          injection h with h
          injection h with h
          exact h ▸ r.holds_operand x
    · injection h with h
      cases h

end Registry

namespace Program

theorem holds_of_mem_sort {r : Registry} {place : Nat} {values : List Value}
    {op : Operation} (h : op ∈ (sort r place values).operations) :
    r.Holds op := by
  induction values generalizing place with
  | nil => cases h
  | cons value rest ih =>
      rw [sort] at h
      split at h
      · cases h
      · next found hfound =>
          rcases List.mem_cons.1 h with rfl | h
          · cases value with
            | text token => exact Registry.holds_of_classify hfound
            | _ => cases hfound
          · exact ih h
      · exact ih h

theorem holds_of_mem_stack {r : Registry} {values : List Value} {strict : Bool}
    {stack : Stack} {op : Operation}
    (h : (sort r 0 values).stack strict = .ok stack) (hop : op ∈ stack) :
    r.Holds op := by
  rw [Sorted.stack] at h
  split at h
  · cases h
  · split at h
    · cases h
    · injection h with h
      rw [← h, List.mem_reverse] at hop
      exact holds_of_mem_sort hop

end Program

/-! ## The calculator afterwards -/

namespace Calculator

theorem evaluate_after (c : Calculator) : c.evaluate.after = c := by
  rw [evaluate]
  split
  · rfl
  · split
    · rfl
    · rfl
    · rfl
    · split
      · rfl
      · rfl

theorem push_after (value : Value) (c : Calculator) :
    (c.push value).after =
      match value.toFloat with
      | .error _ => c
      | .ok x => c.add (.operand x) := by
  rw [push]
  cases value.toFloat with
  | error fault => rfl
  | ok x => exact evaluate_after _

theorem perform_after (symbol : Value) (c : Calculator) :
    (c.perform symbol).after =
      match symbol.text?.bind c.registry.find? with
      | some op => c.add op
      | none => c := by
  cases symbol with
  | list items => rfl
  | text token =>
      rw [perform]
      · show Report.after (match c.registry.find? token with
          | some op => (c.add op).evaluate
          | none => c.evaluate.following [.ignored (.text token)]) =
          match c.registry.find? token with
          | some op => c.add op
          | none => c
        cases c.registry.find? token with
        | some op => exact evaluate_after _
        | none => exact evaluate_after c
      · intro items h
        cases h
  | _ => exact evaluate_after c

theorem load_after (tokens : Value) (strict : Option Bool) (c : Calculator) :
    (c.load tokens strict).after = c ∨
      ∃ items stack,
        (Program.sort c.registry 0 items).stack (strict.getD c.strict) =
            .ok stack ∧
          (c.load tokens strict).after = { c with stack := stack } := by
  cases tokens with
  | list items =>
      rw [load]
      cases hstack :
          (Program.sort c.registry 0 items).stack (strict.getD c.strict) with
      | error fault => exact Or.inl rfl
      | ok stack => exact Or.inr ⟨items, stack, hstack, rfl⟩
  | _ => exact Or.inl rfl

theorem repush_after (c : Calculator) :
    c.repush.after = c ∨ ∃ x, c.repush.after = c.add (.operand x) := by
  rw [repush]
  split
  · next x hvalue =>
      refine Or.inr ⟨x, ?_⟩
      show (c.evaluate.after.push (.real x)).after = _
      rw [push_after, evaluate_after]
      rfl
  · exact Or.inl (evaluate_after c)

/-! ## Reachable calculators -/

/-- The calculators that commands lead to, from one that was set up with these
settings and extra operations. -/
inductive Reachable (settings : Settings) (extra : List Operation) :
    Calculator → Prop where
  | new (observer : Observer) (strict : Option Bool) :
      Reachable settings extra (.new settings extra observer strict)
  | execute {c : Calculator} (h : Reachable settings extra c)
      (command : Command) : Reachable settings extra (c.execute command).after

/-- What every command keeps. -/
structure Keeps (settings : Settings) (registry : Registry) (c : Calculator) :
    Prop where
  settings_eq : c.settings = settings
  registry_eq : c.registry = registry
  holds : ∀ op ∈ c.stack, registry.Holds op

section Keeps

variable {settings : Settings} {registry : Registry} {c : Calculator}

theorem Keeps.add {op : Operation} (h : Keeps settings registry c)
    (hop : registry.Holds op) : Keeps settings registry (c.add op) := by
  refine ⟨h.settings_eq, h.registry_eq, fun op' hmem => ?_⟩
  rcases List.mem_cons.1 hmem with rfl | hmem
  · exact hop
  · exact h.holds op' hmem

theorem Keeps.push (h : Keeps settings registry c) (value : Value) :
    Keeps settings registry (c.push value).after := by
  rw [push_after]
  split
  · exact h
  · next x hx => exact h.add (registry.holds_operand x)

theorem Keeps.perform (h : Keeps settings registry c) (symbol : Value) :
    Keeps settings registry (c.perform symbol).after := by
  rw [perform_after]
  split
  · next op hop =>
      obtain ⟨token, _, hfound⟩ := Option.bind_eq_some_iff.1 hop
      rw [h.registry_eq] at hfound
      exact h.add (Registry.holds_of_find? hfound)
  · exact h

theorem Keeps.repush (h : Keeps settings registry c) :
    Keeps settings registry c.repush.after := by
  rcases repush_after c with hsame | ⟨x, hadded⟩
  · rw [hsame]
    exact h
  · rw [hadded]
    exact h.add (registry.holds_operand x)

theorem Keeps.load (h : Keeps settings registry c) (tokens : Value)
    (strict : Option Bool) :
    Keeps settings registry (c.load tokens strict).after := by
  rcases load_after tokens strict c with hsame | ⟨items, stack, hstack, hloaded⟩
  · rw [hsame]
    exact h
  · rw [h.registry_eq] at hstack
    rw [hloaded]
    exact ⟨h.settings_eq, h.registry_eq,
      fun op hop => Program.holds_of_mem_stack hstack hop⟩

theorem Keeps.execute (h : Keeps settings registry c) (command : Command) :
    Keeps settings registry (c.execute command).after := by
  cases command with
  | push value => exact h.push value
  | perform symbol => exact h.perform symbol
  | evaluate =>
      show Keeps settings registry c.evaluate.after
      rw [evaluate_after]
      exact h
  | repush => exact h.repush
  | reset => exact ⟨h.settings_eq, h.registry_eq, fun op hop => by cases hop⟩
  | load tokens strict => exact h.load tokens strict
  | setStrict strict => exact ⟨h.settings_eq, h.registry_eq, h.holds⟩
  | setObserver observer => exact ⟨h.settings_eq, h.registry_eq, h.holds⟩

theorem Reachable.keeps {extra : List Operation}
    (h : Reachable settings extra c) :
    Keeps settings (.ofList (Operation.standard ++ extra)) c := by
  induction h with
  | new observer strict => exact ⟨rfl, rfl, fun op hop => by cases hop⟩
  | execute _ command ih => exact ih.execute command

/-- Every report of a session is about a reachable calculator. -/
theorem Reachable.session {extra : List Operation}
    (h : Reachable settings extra c) {commands : List Command}
    {report : Report Reply} (hreport : report ∈ c.session commands) :
    Reachable settings extra report.after := by
  induction commands generalizing c with
  | nil => cases hreport
  | cons command rest ih =>
      rcases List.mem_cons.1 hreport with rfl | hreport
      · exact h.execute command
      · exact ih (h.execute command) hreport

end Keeps

end Calculator

end Rpn
