import Rpn.Proofs.Descent
import Rpn.Proofs.Registration
import Rpn.Proofs.Reload

/-!
# Numbers that are names

A program is saved as bare symbols, and a symbol is looked up before it is read
as a number. So an operator that is registered under `2.0` takes the place of
every two that is saved and loaded, and nothing keeps a caller from registering
it. `answers_survive_loading_iff` says for which registries loading never
changes an answer: for those that bind nothing but operands to the number of a
double, and for no others. Both halves rest on `Registry.reread`. One clash is
enough to be seen, because an operand by itself has a value and whatever else
might come back in its place has none.
-/

namespace Rpn

namespace Registry

/-- Nothing but operands is registered under the number of a double. -/
def LeavesNumbers (r : Registry) : Prop :=
  ∀ op ∈ r.operations, op.isOperand = false → ∀ x, op.symbol ≠ numberText x

theorem LeavesNumbers.reread_eq_self {r : Registry} (hr : r.LeavesNumbers)
    {op : Operation} (h : r.Holds op) : r.reread op = op := by
  refine Registry.reread_eq_self h fun hoperand found hfound hsymbol => ?_
  obtain ⟨x, rfl⟩ := Operation.eq_operand_of_isOperand hoperand
  rw [← Bool.not_eq_false]
  exact fun hother => hr found hfound hother x hsymbol

end Registry

/-- An operator by itself has no value, and neither has an object. -/
theorem Stack.value_singleton_ne {op : Operation} (h : op.isOperand = false)
    (x : Float) :
    (Stack.evaluate [op]).map Outcome.value? ≠ .ok (some x) := by
  rw [evaluate_eq_descend]
  cases op with
  | operand value => cases h
  | unary op =>
      rw [descend_unary, descend_nil]
      exact nofun
  | binary op =>
      rw [descend_binary, descend_nil]
      exact nofun
  | foreign object =>
      rw [descend_foreign]
      exact nofun

namespace Calculator

/-- One operand on an otherwise fresh calculator. -/
def single (settings : Settings) (extra : List Operation) (x : Float) :
    Calculator :=
  ((Calculator.new settings extra .silent none).execute (.push (.real x))).after

theorem single_eq (settings : Settings) (extra : List Operation) (x : Float) :
    single settings extra x =
      (Calculator.new settings extra .silent none).add (.operand x) := by
  rw [single]
  exact push_after (.real x) _

theorem single_reachable (settings : Settings) (extra : List Operation)
    (x : Float) : Reachable settings extra (single settings extra x) :=
  .execute (.new .silent none) (.push (.real x))

/-- An operand whose number is taken comes back as what took it. -/
theorem load_single {settings : Settings} {extra : List Operation}
    {op : Operation}
    (hop : op ∈ (Registry.ofList (Operation.standard ++ extra)).operations)
    {x : Float} (hsymbol : op.symbol = numberText x) (observer : Observer)
    (strict mode : Option Bool) :
    (Calculator.new settings extra observer strict).load
        (.list ((single settings extra x).program.map .text)) mode =
      ⟨.ok (),
        { Calculator.new settings extra observer strict with stack := [op] },
        []⟩ := by
  have hkeeps := (single_reachable settings extra x).keeps
  have hreread : (Registry.ofList (Operation.standard ++ extra)).reread
      (.operand x) = op := by
    have hfound := Registry.find?_symbol hop
    rw [hsymbol] at hfound
    rw [Registry.reread, Operation.symbol, hfound, Option.getD_some]
  rw [load_program hkeeps.registry_eq.symm
    (by rw [hkeeps.registry_eq]; exact hkeeps.holds), hkeeps.registry_eq,
    single_eq]
  show Report.mk _ { Calculator.new settings extra observer strict with
    stack := [Registry.reread _ (.operand x)] } _ = _
  rw [hreread]

/-- Loading changes no answer of any calculator of a kind exactly if nothing
but operands is registered under a number. -/
theorem answers_survive_loading_iff (settings : Settings)
    (extra : List Operation) :
    (∀ c, Reachable settings extra c → ∀ observer strict mode,
      ∃ stack : Stack,
        (Calculator.new settings extra observer strict).load
            (.list (c.program.map .text)) mode =
          ⟨.ok (),
            { Calculator.new settings extra observer strict with
              stack := stack }, []⟩ ∧
        stack.evaluate.map Outcome.value? =
          c.stack.evaluate.map Outcome.value?) ↔
      (Registry.ofList (Operation.standard ++ extra)).LeavesNumbers := by
  constructor
  · -- The operand alone is enough to be told from what took its number.
    intro h op hop hother x hsymbol
    obtain ⟨stack, hload, hsame⟩ :=
      h _ (single_reachable settings extra x) .silent none none
    rw [load_single hop hsymbol] at hload
    obtain rfl : [op] = stack := congrArg (fun r => r.after.stack) hload
    rw [single_eq] at hsame
    exact Stack.value_singleton_ne hother x hsame
  · intro hfree c hreachable observer strict mode
    have hkeeps := hreachable.keeps
    have hself : ∀ op ∈ c.stack, c.registry.reread op = id op := by
      rw [hkeeps.registry_eq]
      exact fun op hop => hfree.reread_eq_self (hkeeps.holds op hop)
    refine ⟨c.stack, ?_, rfl⟩
    rw [load_program hkeeps.registry_eq.symm
      (by rw [hkeeps.registry_eq]; exact hkeeps.holds),
      List.map_congr_left hself, List.map_id]

/-- An operator in the place of a number. -/
def doubling : Operation :=
  .unary ⟨"2.0", fun only => .ok (only * 2)⟩

/-- A two that is saved with that operator registered comes back as the
operator, which has nothing to double. -/
theorem saved_two_loses_value :
    Reachable .standard [doubling] (single .standard [doubling] 2) ∧
      (single .standard [doubling] 2).stack.evaluate.map Outcome.value? =
        .ok (some 2) ∧
      (single .standard [doubling] 2).program = ["2.0"] ∧
      ∃ stack : Stack,
        (Calculator.new .standard [doubling] .silent none).load
            (.list ((single .standard [doubling] 2).program.map .text)) none =
          ⟨.ok (),
            { Calculator.new .standard [doubling] .silent none with
              stack := stack }, []⟩ ∧
        stack.evaluate.map Outcome.value? = .ok none := by
  have htext : numberText 2 = "2.0" := by decide +kernel
  have hregistered : doubling ∈
      (Registry.ofList (Operation.standard ++ [doubling])).operations :=
    List.mem_of_mem_getLast? rfl
  refine ⟨single_reachable _ _ 2, ?_, ?_, [doubling],
    load_single hregistered htext.symm .silent none none, rfl⟩
  · rw [single_eq]
    rfl
  · rw [single_eq, ← htext]
    rfl

end Calculator

end Rpn
