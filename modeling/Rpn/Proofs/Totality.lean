import Rpn.Operation.Standard
import Rpn.Proofs.Effects
import Rpn.Proofs.Registration
import Rpn.Proofs.Weight

/-!
# The standard operators never fail

The functions beneath the standard operators break down for some operands, and
each operator expects just the ways in which its function does. Hence all of
them are total, whatever doubles they are given. What an operator puts in the
place of a missing result is seen in `divide_eq` and `raise_eq`, which give the
quotient and the power of `Rpn.Arithmetic`; of the others it is enough that they
have no real value where they break down (`exists_orNan`).

The results of operators are operands of others, but that is settled once for
all total operations (`Stack.evaluate_of_isTotal`). So a calculator does not
fail to evaluate as long as no operator of its registry or its stack is partial
and its observer is quiet. `Steady` says so, and everything that puts such an
operation on the stack keeps it. A calculator without extra operations is
steady, however it was used.
-/

namespace Rpn

namespace Arithmetic

/-! ## Breakdowns that are expected -/

/-- Both comparisons look at one ordering of the operands. -/
theorem beq_zero_of_neg {x : Float} (h : x < 0) : (x == 0) = false := by
  have horder : x.toModel.unpack.compare (0 : Float).toModel.unpack =
      some .lt := by
    have hlt : decide (x.toModel < (0 : Float).toModel) = true := h
    exact beq_iff_eq.1 (of_decide_eq_true hlt)
  show (x.toModel.unpack.compare (0 : Float).toModel.unpack == some .eq) = false
  rw [horder]
  rfl

theorem divide_eq (dividend divisor : Float) :
    divide dividend divisor = .ok (quotient dividend divisor) := by
  rw [divide, Bare.quotient, quotient]
  by_cases hzero : (divisor == 0) = true
  · rw [if_pos hzero, if_pos hzero, expecting]
  · rw [if_neg hzero, if_neg hzero, expecting]

theorem raise_eq (base exponent : Float) :
    raise base exponent = .ok (power base exponent) := by
  rw [raise, Bare.power, power]
  by_cases hzero : (base == 0 && exponent.isFinite && exponent < 0) = true
  · rw [if_pos hzero, if_pos hzero, expecting]
    rw [Bool.and_eq_true, Bool.and_eq_true] at hzero
    simp only [if_pos hzero.1.1]
  · rw [if_neg hzero, if_neg hzero]
    by_cases hunreal : (base < 0 && base.isFinite && exponent.isFinite &&
        !isWhole exponent) = true
    · rw [if_pos hunreal, if_pos hunreal, expecting]
      simp only [Bool.and_eq_true, decide_eq_true_eq] at hunreal
      simp only [beq_zero_of_neg hunreal.1.1.1]
      rfl
    · rw [if_neg hunreal, if_neg hunreal]
      by_cases hlarge : (base.isFinite && exponent.isFinite && base != 0 &&
          (plainPower base exponent).isInf) = true
      · simp only [if_pos hlarge]
        rw [expecting]
      · simp only [if_neg hlarge]
        rw [expecting]

/-- A function that breaks down only where it has no real value. -/
def IsRealValued (function : Float → Except Breakdown Float) : Prop :=
  ∀ only breakdown, function only = .error breakdown → breakdown = .noRealValue

theorem exists_orNan {function : Float → Except Breakdown Float}
    (h : IsRealValued function) (only : Float) :
    ∃ value, orNan function only = .ok value := by
  rw [orNan]
  cases hresult : function only with
  | ok value => exact ⟨value, rfl⟩
  | error breakdown =>
      rw [h only breakdown hresult]
      exact ⟨Binary64.nan, rfl⟩

theorem isRealValued_ite (unreal : Float → Prop) [DecidablePred unreal]
    (real : Float → Float) :
    IsRealValued fun only =>
      if unreal only then .error .noRealValue else .ok (real only) := by
  intro only breakdown h
  by_cases hunreal : unreal only
  · cases (if_pos hunreal).symm.trans h
    rfl
  · cases (if_neg hunreal).symm.trans h

end Arithmetic

namespace Operation

open Arithmetic

theorem isTotal_partialUnary {symbol : String}
    {function : Float → Except Breakdown Float}
    (h : ∀ only, ∃ value, function only = .ok value) :
    (partialUnary symbol function).IsTotal := by
  intro only
  obtain ⟨value, hvalue⟩ := h only
  refine ⟨value, ?_⟩
  simp only [hvalue]
  rfl

theorem isTotal_partialBinary {symbol : String}
    {function : Float → Float → Except Breakdown Float}
    (h : ∀ left right, ∃ value, function left right = .ok value) :
    (partialBinary symbol function).IsTotal := by
  intro nearer deeper
  obtain ⟨value, hvalue⟩ := h deeper nearer
  refine ⟨value, ?_⟩
  simp only [hvalue]
  rfl

theorem isTotal_totalBinary (symbol : String)
    (function : Float → Float → Float) :
    (totalBinary symbol function).IsTotal :=
  fun nearer deeper => ⟨function deeper nearer, rfl⟩

theorem standard_isTotal : ∀ op ∈ standard, op.IsTotal := by
  intro op hop
  simp only [standard, List.mem_cons, List.not_mem_nil, or_false] at hop
  rcases hop with rfl | rfl | rfl | rfl | rfl | rfl | rfl | rfl
  · exact isTotal_totalBinary _ _
  · exact isTotal_partialBinary fun left right => ⟨_, divide_eq left right⟩
  · exact isTotal_totalBinary _ _
  · exact isTotal_totalBinary _ _
  · exact isTotal_partialUnary (exists_orNan (isRealValued_ite _ _))
  · exact isTotal_partialBinary fun left right => ⟨_, raise_eq left right⟩
  · exact isTotal_partialUnary (exists_orNan (isRealValued_ite _ _))
  · exact isTotal_partialUnary (exists_orNan (isRealValued_ite _ _))

/-- A total operation is one whose application is never a fault. -/
theorem IsTotal.apply_unary {op : Unary} (h : (unary op).IsTotal)
    (only : Float) : ∃ value, op.apply only = .ok value := by
  obtain ⟨value, hvalue⟩ := h only
  exact ⟨value, Unary.apply_of_ok hvalue⟩

theorem IsTotal.apply_binary {op : Binary} (h : (binary op).IsTotal)
    (nearer deeper : Float) : ∃ value, op.apply nearer deeper = .ok value := by
  obtain ⟨value, hvalue⟩ := h nearer deeper
  exact ⟨value, Binary.apply_of_ok hvalue⟩

end Operation

theorem Registry.isTotal_of_holds {r : Registry}
    (hr : ∀ op ∈ r.operations, op.IsTotal) {op : Operation} (h : r.Holds op) :
    op.IsTotal := by
  rcases h with ⟨x, rfl⟩ | hfound
  · exact trivial
  · exact hr op (mem_of_find? hfound)

/-! ## Calculators on which no evaluation fails -/

/-- Whether an observer lets every evaluation pass. -/
def Observer.IsQuiet : Observer → Prop
  | .calling observe => ∀ stack outcome, observe stack outcome = .ok ()
  | _ => True

namespace Calculator

/-- Whether no operator that is at hand can fail, and the observer cannot
either. -/
structure Steady (c : Calculator) : Prop where
  registered : ∀ op ∈ c.registry.operations, op.IsTotal
  stacked : ∀ op ∈ c.stack, op.IsTotal
  quiet : c.observer.IsQuiet

variable {settings : Settings} {c : Calculator}

theorem evaluate_outcome (h : c.observer.IsQuiet) :
    c.evaluate.outcome = c.stack.evaluate.map Outcome.value? := by
  rw [evaluate]
  cases c.stack.evaluate with
  | error fault => rfl
  | ok outcome =>
      cases hobserver : c.observer with
      | calling observe =>
          rw [hobserver] at h
          simp only [h c.stack outcome]
          rfl
      | _ => rfl

/-- An answer of any calculator is the value of its stack: an observer can only
withhold it. -/
theorem value_of_evaluate {result : Option Float}
    (h : c.evaluate.outcome = .ok result) :
    c.stack.evaluate.map Outcome.value? = .ok result := by
  rw [evaluate] at h
  cases hstack : c.stack.evaluate with
  | error fault =>
      rw [hstack] at h
      cases h
  | ok outcome =>
      rw [hstack] at h
      cases hobserver : c.observer with
      | calling observe =>
          simp only [hobserver] at h
          split at h
          · exact h
          · cases h
      | _ =>
          simp only [hobserver] at h
          exact h

theorem Steady.restack {stack : Stack} (h : Steady c)
    (hstack : ∀ op ∈ stack, op.IsTotal) : Steady { c with stack := stack } :=
  ⟨h.registered, hstack, h.quiet⟩

theorem Steady.add {op : Operation} (h : Steady c) (hop : op.IsTotal) :
    Steady (c.add op) :=
  h.restack (List.forall_mem_cons.2 ⟨hop, h.stacked⟩)

theorem Steady.isTotal_of_holds {op : Operation} (h : Steady c)
    (hop : c.registry.Holds op) : op.IsTotal :=
  Registry.isTotal_of_holds h.registered hop

theorem Steady.evaluate (h : Steady c) :
    ∃ value, c.stack.evaluate.map Outcome.value? = .ok value ∧
      c.evaluate.outcome = .ok value := by
  obtain ⟨outcome, houtcome⟩ := Stack.evaluate_of_isTotal h.stacked
  refine ⟨outcome.value?, ?_, ?_⟩
  · rw [houtcome]
    rfl
  · rw [evaluate_outcome h.quiet, houtcome]
    rfl

theorem Steady.push {value : Value} {x : Float} (h : Steady c)
    (hx : value.toFloat = .ok x) :
    ∃ result, (c.push value).outcome = .ok result := by
  have hoperand : (Operation.operand x).IsTotal := trivial
  obtain ⟨result, _, hresult⟩ := (h.add hoperand).evaluate
  refine ⟨result, ?_⟩
  rw [push_of_ok hx]
  exact hresult

theorem Steady.perform {symbol : Value} (h : Steady c)
    (hsymbol : ∀ items, symbol ≠ .list items) :
    ∃ result, (c.perform symbol).outcome = .ok result := by
  by_cases htext : ∃ token, symbol = .text token
  · obtain ⟨token, rfl⟩ := htext
    rw [perform_text]
    cases hfound : c.registry.find? token with
    | some op =>
        obtain ⟨result, _, hresult⟩ :=
          (h.add (h.isTotal_of_holds (Registry.holds_of_find? hfound))).evaluate
        exact ⟨result, hresult⟩
    | none =>
        obtain ⟨result, _, hresult⟩ := h.evaluate
        exact ⟨result, hresult⟩
  · have hnoText : ∀ token, symbol ≠ .text token := by
      intro token htoken
      exact htext ⟨token, htoken⟩
    obtain ⟨result, _, hresult⟩ := h.evaluate
    rw [perform_of_noText hnoText hsymbol]
    exact ⟨result, hresult⟩

/-- However it was used, a calculator without extra operations is steady, unless
it was given an observer that may fail. -/
theorem Reachable.steady (h : Reachable settings [] c)
    (hquiet : c.observer.IsQuiet) : Steady c := by
  have hkeeps := h.keeps
  rw [List.append_nil] at hkeeps
  have hregistered : ∀ op ∈ c.registry.operations, op.IsTotal := by
    intro op hop
    rw [hkeeps.registry_eq] at hop
    exact Operation.standard_isTotal op (Registry.mem_of_mem_ofList hop)
  refine ⟨hregistered, ?_, hquiet⟩
  intro op hop
  refine Registry.isTotal_of_holds hregistered ?_
  rw [hkeeps.registry_eq]
  exact hkeeps.holds op hop

/-- A calculator without extra operations answers whatever is evaluated, pushed
or performed on it, if the value can be converted and the symbol looked up at
all. No standard operator fails on any doubles. -/
theorem Reachable.standard_never_fails (h : Reachable settings [] c)
    (hquiet : c.observer.IsQuiet) :
    (∃ result, c.evaluate.outcome = .ok result) ∧
    (∀ value x, value.toFloat = .ok x →
      ∃ result, (c.push value).outcome = .ok result) ∧
    (∀ symbol, (∀ items, symbol ≠ .list items) →
      ∃ result, (c.perform symbol).outcome = .ok result) ∧
    c.registry.operations = Operation.standard ∧
    (∀ op, .unary op ∈ Operation.standard →
      ∀ only, ∃ value, op.apply only = .ok value) ∧
    ∀ op, .binary op ∈ Operation.standard →
      ∀ nearer deeper, ∃ value, op.apply nearer deeper = .ok value := by
  have hsteady := h.steady hquiet
  refine ⟨?_, fun value x hx => hsteady.push hx,
    fun symbol hsymbol => hsteady.perform hsymbol, ?_,
    fun op hop => (Operation.standard_isTotal _ hop).apply_unary,
    fun op hop => (Operation.standard_isTotal _ hop).apply_binary⟩
  · obtain ⟨result, _, hresult⟩ := hsteady.evaluate
    exact ⟨result, hresult⟩
  · rw [h.keeps.registry_eq]
    rfl

/-- `1 0 ÷ sin`: the quotient is an infinity, and so the sine breaks down. -/
def nested : Calculator :=
  let c := Calculator.new .standard [] .logging none
  let c := (c.execute (.push (.real 1))).after
  let c := (c.execute (.push (.real 0))).after
  let c := (c.execute (.perform (.text "÷"))).after
  (c.execute (.perform (.text "sin"))).after

theorem nested_never_fails :
    nested.program = ["1.0", "0.0", "÷", "sin"] ∧
      Arithmetic.Bare.quotient 1 0 = .error .zeroDivisor ∧
      Arithmetic.divide 1 0 = .ok Binary64.infinity ∧
      Arithmetic.Bare.sine Binary64.infinity = .error .noRealValue ∧
      (∃ result, nested.evaluate.outcome = .ok result) ∧
      (∃ result, (nested.push (.text "-8")).outcome = .ok result) ∧
      ∃ result, (nested.perform (.text "^")).outcome = .ok result := by
  have hreachable : Reachable .standard [] nested :=
    ((((Reachable.new .logging none).execute _).execute _).execute _).execute _
  have hvalue : (Value.text "-8").toFloat = .ok (-8) := by
    have htext : Number.read? "-8" = some (-8) := by decide +kernel
    rw [Value.toFloat, htext]
  have hobserver : nested.observer = .logging := rfl
  obtain ⟨hevaluate, hpush, hperform, _⟩ :=
    hreachable.standard_never_fails (by rw [hobserver]; trivial)
  have hquotient : Arithmetic.quotient 1 0 = Binary64.infinity := by
    decide +kernel
  have hname : ∀ items, Value.text "^" ≠ .list items := by
    intro items hlist
    cases hlist
  refine ⟨by decide +kernel, ?_, ?_, ?_, hevaluate, hpush _ _ hvalue,
    hperform _ hname⟩
  · rw [Arithmetic.Bare.quotient, if_pos (by decide +kernel)]
  · rw [Arithmetic.divide_eq, hquotient]
  · rw [Arithmetic.Bare.sine, if_pos (by decide +kernel)]

end Calculator

end Rpn
