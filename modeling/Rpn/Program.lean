import Rpn.Evaluation.Basic
import Rpn.Token

/-!
# Saved programs

A program is saved as the symbols of its operations, bottom first, and read back
token by token. Tokens that stand for nothing are set aside with their places in
the program; whether that is a fault is for the caller to say. The fault lists
them, so each of them has to be shown. A number that cannot be converted stops
the reading.
-/

namespace Rpn.Program

/-- The symbols of a stack, bottom first. -/
def ofStack (stack : Stack) : List String :=
  stack.reverse.map Operation.symbol

/-- The operation that a value of a program stands for. Only texts stand for
any. -/
def classify (registry : Registry) : Value → Except Fault (Option Operation)
  | .text token => Token.classify registry token
  | _ => .ok none

/-- What was read of a program: its operations in order, the values that stand
for nothing, and the fault that stopped the reading, if one did. -/
structure Sorted where
  operations : List Operation
  rejected : List (Nat × Value)
  fault? : Option Fault

/-- Reads a program of which the first value has the given place. -/
def sort (registry : Registry) : Nat → List Value → Sorted
  | _, [] => ⟨[], [], none⟩
  | place, value :: rest =>
    match classify registry value with
    | .error fault => ⟨[], [], some fault⟩
    | .ok (some op) =>
      let sorted := sort registry (place + 1) rest
      { sorted with operations := op :: sorted.operations }
    | .ok none =>
      let sorted := sort registry (place + 1) rest
      { sorted with rejected := (place, value) :: sorted.rejected }

/-- The fault that the values are which stand for nothing. It is made by writing
all of them down, which may fail itself. -/
def refusal (rejected : List (Nat × Value)) : Fault :=
  if rejected.all (·.2.isShowable) then .unrecognised rejected else .unshowable

section Refusal

variable {rejected : List (Nat × Value)}

theorem refusal_of_isShowable
    (h : ∀ entry ∈ rejected, entry.2.isShowable = true) :
    refusal rejected = .unrecognised rejected := by
  rw [refusal, if_pos (List.all_eq_true.2 h)]

theorem refusal_of_not_isShowable
    (h : ∃ entry ∈ rejected, entry.2.isShowable = false) :
    refusal rejected = .unshowable := by
  rw [refusal, if_neg]
  simpa using h

theorem isShowable_cases (rejected : List (Nat × Value)) :
    (∀ entry ∈ rejected, entry.2.isShowable = true) ∨
      ∃ entry ∈ rejected, entry.2.isShowable = false := by
  by_cases h : ∀ entry ∈ rejected, entry.2.isShowable = true
  · exact Or.inl h
  · exact Or.inr (by simpa using h)

end Refusal

/-- The stack of a program. If it is read strictly, values that stand for
nothing are a fault. -/
def Sorted.stack (s : Sorted) (strict : Bool) : Except Fault Stack :=
  match s.fault? with
  | some fault => .error fault
  | none =>
    if strict && !s.rejected.isEmpty then .error (refusal s.rejected)
    else .ok s.operations.reverse

/-- The values that are dropped from a program in passing. Read strictly, none
are. -/
def Sorted.dropped (s : Sorted) (strict : Bool) : List Value :=
  if strict then [] else s.rejected.map (·.2)

end Rpn.Program
