import Rpn.Proofs.Session
import Rpn.Proofs.Written

/-!
# Saving a program and loading it again

A program is saved as symbols and loaded by looking each symbol up before it is
read as a number. So an operation comes back as whatever the registry binds to
its symbol, and as itself if that is nothing: only an operand can be on a stack
without a binding, and its number is read back. `Registry.reread` is that
operation, and `load_program` says that loading rereads a stack place by place.
Nothing is dropped on the way, so strictness does not matter.

The symbols are the same before and after, whatever the registry. The
operations are the same unless some operator or object is registered under the
number of an operand that is on the stack: such an operand comes back as what
took its name.
-/

namespace Rpn

def Operation.isOperand : Operation → Bool
  | .operand _ => true
  | _ => false

theorem Operation.eq_operand_of_isOperand {op : Operation}
    (h : op.isOperand = true) : ∃ x, op = .operand x := by
  cases op with
  | operand x => exact ⟨x, rfl⟩
  | _ => cases h

namespace Registry

/-- What an operation is after it was saved and loaded. -/
def reread (r : Registry) (op : Operation) : Operation :=
  (r.find? op.symbol).getD op

theorem symbol_reread (r : Registry) (op : Operation) :
    (r.reread op).symbol = op.symbol := by
  rw [reread]
  cases hfound : r.find? op.symbol with
  | none => rfl
  | some found => exact symbol_of_find? hfound

theorem holds_reread {r : Registry} {op : Operation} (h : r.Holds op) :
    r.Holds (r.reread op) := by
  rw [reread]
  cases hfound : r.find? op.symbol with
  | none => exact h
  | some found => exact holds_of_find? hfound

theorem classify_symbol {r : Registry} {op : Operation} (h : r.Holds op) :
    Token.classify r op.symbol = .ok (some (r.reread op)) := by
  rw [Token.classify, reread]
  cases hfound : r.find? op.symbol with
  | some found => rfl
  | none =>
      rcases h with ⟨x, rfl⟩ | hbound
      · show (if Number.isNumber (numberText x) then
          (Token.number (numberText x)).map fun x => some (Operation.operand x)
          else .ok none) = .ok (some (Operation.operand x))
        rw [if_pos (isNumber_numberText x), number_numberText]
        rfl
      · rw [hfound] at hbound
        cases hbound

/-- An operation is reread as itself unless it is an operand whose number names
something else. -/
theorem reread_eq_self {r : Registry} {op : Operation} (h : r.Holds op)
    (hfree : op.isOperand = true → ∀ found ∈ r.operations,
      found.symbol = op.symbol → found.isOperand = true) :
    r.reread op = op := by
  rw [reread]
  cases hfound : r.find? op.symbol with
  | none => rfl
  | some found =>
      rcases h with ⟨x, rfl⟩ | hbound
      · have hsymbol := symbol_of_find? hfound
        obtain ⟨y, rfl⟩ := Operation.eq_operand_of_isOperand
          (hfree rfl found (mem_of_find? hfound) hsymbol)
        rw [Option.getD_some, numberText_injective hsymbol]
      · rw [hfound] at hbound
        exact Option.some.inj hbound

end Registry

namespace Program

theorem sort_symbols {r : Registry} {row : List Operation}
    (h : ∀ op ∈ row, r.Holds op) (place : Nat) :
    sort r place (row.map fun op => .text op.symbol) =
      ⟨row.map r.reread, [], none⟩ := by
  induction row generalizing place with
  | nil => rfl
  | cons op row ih =>
      have hclassify : classify r (.text op.symbol) =
          .ok (some (r.reread op)) :=
        Registry.classify_symbol (h op (by simp))
      have ih := ih (fun op hop => h op (by simp [hop])) (place + 1)
      rw [List.map_cons, sort, hclassify, ih]
      rfl

variable (operations : List Operation) (strict : Bool)

/-- A program of which nothing was rejected loads either way. -/
theorem stack_of_clean :
    Sorted.stack ⟨operations, [], none⟩ strict = .ok operations.reverse := by
  cases strict with
  | true => rfl
  | false => rfl

theorem dropped_of_clean :
    Sorted.dropped ⟨operations, [], none⟩ strict = [] := by
  cases strict with
  | true => rfl
  | false => rfl

end Program

namespace Calculator

theorem load_program {c fresh : Calculator}
    (hregistry : fresh.registry = c.registry)
    (h : ∀ op ∈ c.stack, c.registry.Holds op) (strict : Option Bool) :
    fresh.load (.list (c.program.map .text)) strict =
      ⟨.ok (), { fresh with stack := c.stack.map c.registry.reread }, []⟩ := by
  have hsorted : Program.sort c.registry 0 (c.program.map .text) =
      ⟨c.stack.reverse.map c.registry.reread, [], none⟩ := by
    rw [program, Program.ofStack, List.map_map]
    exact Program.sort_symbols (fun op hop => h op (List.mem_reverse.1 hop)) 0
  rw [load]
  simp only [hregistry, hsorted, Program.stack_of_clean,
    Program.dropped_of_clean, List.map_reverse, List.reverse_reverse,
    List.map_nil]

theorem program_reread (r : Registry) (stack : Stack) :
    Program.ofStack (stack.map r.reread) = Program.ofStack stack := by
  rw [Program.ofStack, Program.ofStack, ← List.map_reverse, List.map_map]
  exact List.map_congr_left fun op _ => r.symbol_reread op

/-- Nothing but operands is registered under the numbers of the operands on the
stack. -/
def NumbersAreFree (c : Calculator) : Prop :=
  ∀ op ∈ c.stack, op.isOperand = true → ∀ found ∈ c.registry.operations,
    found.symbol = op.symbol → found.isOperand = true

instance (c : Calculator) : Decidable c.NumbersAreFree :=
  inferInstanceAs (Decidable (∀ op ∈ c.stack, op.isOperand = true →
    ∀ found ∈ c.registry.operations, found.symbol = op.symbol →
      found.isOperand = true))

/-- A saved program loads into a fresh calculator of the same settings and
extra operations, strictly or not, and saves again as itself. If the numbers on
it are free, it is the same stack. -/
theorem Reachable.program_loads_back {settings : Settings}
    {extra : List Operation} {c : Calculator}
    (h : Reachable settings extra c) (observer : Observer)
    (strict mode : Option Bool) :
    ∃ stack : Stack,
      (Calculator.new settings extra observer strict).load
          (.list (c.program.map .text)) mode =
        ⟨.ok (),
          { Calculator.new settings extra observer strict with stack := stack },
          []⟩ ∧
      Program.ofStack stack = c.program ∧
      stack.length = c.stack.length ∧
      (∀ op ∈ stack,
        (Calculator.new settings extra observer strict).registry.Holds op) ∧
      (c.NumbersAreFree →
        stack = c.stack ∧ stack.evaluate = c.stack.evaluate) := by
  have hkeeps := h.keeps
  have hholds : ∀ op ∈ c.stack, c.registry.Holds op := by
    rw [hkeeps.registry_eq]
    exact hkeeps.holds
  refine ⟨c.stack.map c.registry.reread,
    load_program hkeeps.registry_eq.symm hholds mode,
    program_reread c.registry c.stack, List.length_map _, ?_, fun hfree => ?_⟩
  · intro op hop
    obtain ⟨op', hop', rfl⟩ := List.mem_map.1 hop
    rw [hkeeps.registry_eq]
    exact Registry.holds_reread (hkeeps.holds op' hop')
  · have hself : ∀ op ∈ c.stack, c.registry.reread op = id op := by
      intro op hop
      exact Registry.reread_eq_self (hholds op hop) (hfree op hop)
    rw [List.map_congr_left hself, List.map_id]
    exact ⟨rfl, rfl⟩

/-- Two operators in the place of a number and of a standard operator, and an
operand. -/
def lookalikes : List Operation :=
  [.unary ⟨"2.0", fun _ => .error (.refusal "own")⟩,
    Operation.totalBinary "+" (· - ·), .operand Binary64.infinity]

/-- `nan inf 2.0 -0.0 +`, typed with those registered. -/
def lookalikeCalculator : Calculator :=
  let c := Calculator.new .standard lookalikes .silent none
  let c := (c.execute (.push (.text "nan"))).after
  let c := (c.execute (.perform (.text "inf"))).after
  let c := (c.execute (.perform (.text "2.0"))).after
  let c := (c.execute (.push (.text "-0"))).after
  (c.execute (.perform (.text "+"))).after

theorem lookalike_program_loads_back :
    lookalikeCalculator.program = ["nan", "inf", "2.0", "-0.0", "+"] ∧
      ∃ stack : Stack,
        (Calculator.new .standard lookalikes .silent none).load
            (.list (lookalikeCalculator.program.map .text)) (some true) =
          ⟨.ok (),
            { Calculator.new .standard lookalikes .silent none with
              stack := stack }, []⟩ ∧
        stack = lookalikeCalculator.stack := by
  have hreachable : Reachable .standard lookalikes lookalikeCalculator :=
    (((((Reachable.new .silent none).execute _).execute _).execute _).execute
      _).execute _
  have hprogram : lookalikeCalculator.program =
      ["nan", "inf", "2.0", "-0.0", "+"] := by decide +kernel
  obtain ⟨stack, hload, _, _, _, hsame⟩ :=
    hreachable.program_loads_back .silent none (some true)
  refine ⟨hprogram, stack, hload, (hsame (by decide +kernel)).1⟩

end Calculator

end Rpn
