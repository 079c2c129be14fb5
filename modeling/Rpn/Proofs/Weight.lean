import Rpn.Evaluation.Weight
import Rpn.Proofs.Machine
import Rpn.Proofs.Reach

/-!
# Weights decide whether there is a value

Operators that wait are short of a number of values (`missing`): of one that
the whole scan is for, and of one more for every operator of two operands that
has none yet. Reading an operation lowers that number by the weight of the
operation, whatever waits and whatever the functions of the operators give. So
a scan comes to its value with the first operation at which the weights of all
that was read add up to one, and if they never do it reads on.

What the functions give matters only for faults. Where they have a result for
all operands, the weights alone say if a stack has a value, how many operations
it takes, and whether the scan comes upon an object that is no operation
(`weight_decides_value`).
-/

namespace Rpn

namespace Stack

theorem weight_append (front back : Stack) :
    weight (front ++ back) = weight front + weight back := by
  induction front with
  | nil => rw [List.nil_append, weight, Int.zero_add]
  | cons op rest ih => rw [List.cons_append, weight, weight, ih, Int.add_assoc]

/-- Operations that make up an expression: their weights add up to one, and
those of no fewer of them, from the top down, do so already. -/
def IsComplete (row : Stack) : Prop :=
  row.weight = 1 ∧ ∀ front : Stack, front <+: row → front.weight = 1 → front = row

end Stack

namespace Evaluation

/-! ## The values that are missing -/

/-- How many values there must still be before operators that wait come to a
result. -/
def missing : List Waiting → Int
  | [] => 1
  | .unary _ :: pending => missing pending
  | .binary _ :: pending => missing pending + 1
  | .binaryWith .. :: pending => missing pending

theorem missing_pos (pending : List Waiting) : 0 < missing pending := by
  induction pending with
  | nil => decide
  | cons waiting pending ih =>
      cases waiting with
      | binary op =>
          rw [missing]
          omega
      | unary op => exact ih
      | binaryWith op nearer => exact ih

/-- How many values are missing after one was supplied. -/
def Supplied.missing : Supplied → Int
  | .waiting pending => Evaluation.missing pending
  | .result _ => 0

theorem missing_supply {pending : List Waiting} {value : Float}
    {supplied : Supplied} (h : supply pending value = .ok supplied) :
    Supplied.missing supplied + 1 = missing pending := by
  induction pending generalizing value with
  | nil =>
      rw [supply] at h
      cases h
      rfl
  | cons waiting pending ih =>
      cases waiting with
      | binary op =>
          rw [supply] at h
          cases h
          rfl
      | unary op =>
          rw [supply] at h
          split at h
          · exact ih h
          · cases h
      | binaryWith op nearer =>
          rw [supply] at h
          split at h
          · exact ih h
          · cases h

/-- As long as operators wait, what was read and what is missing balance. -/
theorem missing_advance {pending last : List Waiting} {row : Stack}
    (h : advance pending row = .ok (.waiting last)) :
    missing last + row.weight = missing pending := by
  induction row generalizing pending with
  | nil =>
      rw [advance] at h
      cases h
      rw [Stack.weight, Int.add_zero]
  | cons op rest ih =>
      rw [Stack.weight]
      cases op with
      | operand value =>
          rw [advance] at h
          rcases hsupply : supply pending value with fault | next | result <;>
            rw [hsupply] at h
          · cases h
          · have hnext : missing next + 1 = missing pending :=
              missing_supply hsupply
            have hrest := ih h
            rw [Operation.weight]
            omega
          · cases h
      | unary op =>
          rw [advance] at h
          have hrest := ih h
          rw [missing] at hrest
          rw [Operation.weight]
          omega
      | binary op =>
          rw [advance] at h
          have hrest := ih h
          rw [missing] at hrest
          rw [Operation.weight]
          omega
      | foreign object =>
          rw [advance] at h
          cases h

theorem weight_lt_missing {pending last : List Waiting} {row front : Stack}
    (h : advance pending row = .ok (.waiting last)) (hfront : front <+: row) :
    front.weight < missing pending := by
  obtain ⟨back, rfl⟩ := hfront
  rw [advance_append] at h
  rcases hread : advance pending front with fault | ⟨value, unread⟩ | next <;>
    rw [hread] at h
  · cases h
  · cases h
  · have hbalance := missing_advance hread
    have hpos := missing_pos next
    omega

/-- A value is found with the operation at which nothing is missing any more,
and not before. -/
theorem weight_of_found {pending : List Waiting} {row unread : Stack}
    {value : Float} (h : advance pending row = .ok (.found value unread)) :
    ∃ used, row = used ++ unread ∧ used.weight = missing pending ∧
      ∀ front : Stack, front <+: used → front ≠ used →
        front.weight < missing pending := by
  obtain ⟨front, x, last, hrow, hfront, hsupply⟩ := advance_found h
  refine ⟨front ++ [.operand x], ?_, ?_, ?_⟩
  · rw [hrow, List.append_assoc, List.singleton_append]
  · have hbalance := missing_advance hfront
    have hlast : 0 + 1 = missing last := missing_supply hsupply
    rw [Stack.weight_append, Stack.weight, Stack.weight, Operation.weight]
    omega
  · intro shorter hshorter hne
    rcases List.prefix_concat_iff.1 hshorter with heq | hprefix
    · exact absurd heq hne
    · exact weight_lt_missing hfront hprefix

end Evaluation

namespace Stack

open Evaluation

theorem isComplete_of_found {stack rest : Stack} {value : Float}
    (h : advance [] stack = .ok (.found value rest)) :
    ∃ used, stack = used ++ rest ∧ IsComplete used := by
  obtain ⟨used, hstack, hweight, hshorter⟩ := weight_of_found h
  refine ⟨used, hstack, hweight, fun front hfront hone => ?_⟩
  by_cases heq : front = used
  · exact heq
  · have hlt : front.weight < 1 := hshorter front hfront heq
    omega

theorem evaluate_of_isTotal {stack : Stack} (h : ∀ op ∈ stack, op.IsTotal) :
    ∃ outcome, stack.evaluate = .ok outcome := by
  obtain ⟨row, _, hyields⟩ := Machine.values_yields stack h
  cases hyields with
  | stop h => exact ⟨_, h⟩
  | next h _ => exact ⟨_, h⟩

/-- Operators that are total take a scan as far as their weights say. -/
theorem advance_of_isTotal {above : Stack} (h : ∀ op ∈ above, op.IsTotal) :
    (∃ last, advance [] above = .ok (.waiting last) ∧
      ∀ front : Stack, front <+: above → front.weight ≠ 1) ∨
    ∃ used rest value, advance [] above = .ok (.found value rest) ∧
      above = used ++ rest ∧ IsComplete used := by
  obtain ⟨outcome, houtcome⟩ := evaluate_of_isTotal h
  rcases hread : advance [] above with fault | ⟨value, rest⟩ | last
  · rw [evaluate, scan_eq_advance, hread] at houtcome
    cases houtcome
  · obtain ⟨used, habove, hused⟩ := isComplete_of_found hread
    exact Or.inr ⟨used, rest, value, rfl, habove, hused⟩
  · refine Or.inl ⟨last, rfl, fun front hfront => ?_⟩
    have hlt : front.weight < 1 := weight_lt_missing hread hfront
    omega

/-- On operators that are total, the weights say everything about a value but
what it is. A stack has none exactly if no row of operations from its top has
the weight one. An object that is no operation is a fault under the same
condition on what lies above it. Otherwise the shortest row of weight one is
used up, and all the rest is left, in its order and with whatever lies beneath.
-/
theorem weight_decides_value {above : Stack} (h : ∀ op ∈ above, op.IsTotal) :
    (above.evaluate = .ok none ↔
      ∀ front : Stack, front <+: above → front.weight ≠ 1) ∧
    (∀ object beneath,
      Stack.evaluate (above ++ .foreign object :: beneath) =
          .error (.notOperation object.label) ↔
        ∀ front : Stack, front <+: above → front.weight ≠ 1) ∧
    (∀ front : Stack, front <+: above → front.weight = 1 →
      ∃ used rest value, above = used ++ rest ∧ IsComplete used ∧
        ∀ beneath, Stack.evaluate (above ++ beneath) =
          .ok (some (value, rest ++ beneath))) ∧
    ∀ outcome, above.evaluate = .ok outcome →
      outcome.remainder above <:+ above ∧
        (outcome.remainder above = above ↔ outcome.value? = none) := by
  rcases advance_of_isTotal h with
    ⟨last, hread, hnone⟩ | ⟨used, rest, value, hread, habove, hused⟩
  · refine ⟨?_, fun object beneath => ?_, ?_, fun _ => remainder_suffix⟩
    · rw [evaluate, scan_eq_advance, hread]
      exact ⟨fun _ => hnone, fun _ => rfl⟩
    · rw [evaluate, scan_append, hread]
      exact ⟨fun _ => hnone, fun _ => rfl⟩
    · exact fun front hfront hone => absurd hone (hnone front hfront)
  · have hsome : ¬ ∀ front : Stack, front <+: above → front.weight ≠ 1 :=
      fun hnone => hnone used ⟨rest, habove.symm⟩ hused.1
    refine ⟨?_, fun object beneath => ?_, fun _ _ _ => ?_,
      fun _ => remainder_suffix⟩
    · rw [evaluate, scan_eq_advance, hread]
      refine ⟨fun heq => ?_, fun hnone => absurd hnone hsome⟩
      cases heq
    · rw [evaluate, scan_append, hread]
      refine ⟨fun heq => ?_, fun hnone => absurd hnone hsome⟩
      cases heq
    · refine ⟨used, rest, value, habove, hused, fun beneath => ?_⟩
      rw [evaluate, scan_append, hread]

/-- A product that lacks an operand: `3 ×`. -/
def unfinished : Stack :=
  [Operation.totalBinary "×" (· * ·), .operand 3]

theorem unfinished_above_object :
    (∀ op ∈ unfinished, op.IsTotal) ∧
      unfinished.evaluate = .ok none ∧
      Stack.evaluate (unfinished ++ [.foreign ⟨"?", "object"⟩]) =
        .error (.notOperation "object") := by
  have htotal : ∀ op ∈ unfinished, op.IsTotal := by
    intro op hop
    simp only [unfinished, List.mem_cons, List.not_mem_nil, or_false] at hop
    rcases hop with rfl | rfl
    · exact fun _ _ => ⟨_, rfl⟩
    · exact trivial
  have hweight : ∀ front : Stack, front <+: unfinished → front.weight ≠ 1 := by
    intro front hfront
    simp only [unfinished, List.prefix_cons_iff, List.prefix_nil] at hfront
    rcases hfront with rfl | ⟨_, rfl, rfl | ⟨_, rfl, rfl⟩⟩
    · decide
    · decide
    · decide
  obtain ⟨hnone, hobject, _⟩ := weight_decides_value htotal
  exact ⟨htotal, hnone.2 hweight, (hobject ⟨"?", "object"⟩ []).2 hweight⟩

end Stack

end Rpn
