import Rpn.Operation.Basic
import Rpn.Proofs.Conversion
import Rpn.Proofs.FewestDigits
import Rpn.Proofs.Splitting
import Rpn.Proofs.Written

/-!
# A number survives its token

An operand is saved as the text of its number. Three parties have to agree on
that text: the one that writes it, the one that cuts a line into tokens, and the
one that recognises and reads a number. `operand_symbol_survives` puts together
what is known of each, for every double there is, and adds what the text looks
like. None of it looks at the digits again: the writer's numeral is admitted by
the grammar, and no token of the grammar has a blank in it.
-/

namespace Rpn

open Number Binary64
open Text (isBlank)

/-- The text of a double: a word if it is not finite; otherwise a sign, if it
has one, and a decimal that is as short as any that reads as the double. -/
def IsTextOf (x : Float) (cs : List Char) : Prop :=
  if infinityRank < rank x then cs = "nan".toList
  else if rank x = infinityRank then
    cs = signText (isNegative x) ++ "inf".toList
  else
    ∃ (d : Decimal) (n : Numeral), d.IsShortest x ∧ n.Writes d ∧
      cs = signText (isNegative x) ++ n.characters

theorem isTextOf_numberText (x : Float) : IsTextOf x (numberText x).toList := by
  rw [numberText, Layout.write, String.toList_ofList, IsTextOf]
  split
  · next hnan =>
      rw [Layout.characters, if_pos hnan]
      rfl
  · next hle =>
      rw [Layout.characters_of_le (Nat.le_of_not_lt hle)]
      split
      · rfl
      · next hinfinite =>
          have hfinite : rank x < infinityRank := by omega
          obtain ⟨n, hcharacters, hwrites⟩ :=
            Layout.exists_writes (Decimal.shortest x)
          refine ⟨_, n, Decimal.isShortest_shortest hfinite, hwrites, ?_⟩
          rw [hcharacters]

theorem not_blank_numberText (x : Float) :
    ∀ c ∈ (numberText x).toList, isBlank c = false :=
  (isLiteral_of_isNumber (isNumber_numberText x)).not_blank

theorem numberText_ne_nil (x : Float) : (numberText x).toList ≠ [] := by
  intro hnil
  have hempty : numberText x = "" := String.toList_injective hnil
  have hnumber := isNumber_numberText x
  rw [hempty] at hnumber
  exact absurd hnumber (by decide)

namespace Operation

/-- The symbol of an operand is a number token, one token whatever blanks are
around it, and is read as the very double; so no other double has it. -/
theorem operand_symbol_survives (x : Float) :
    isNumber (operand x).symbol = true ∧
      Token.number (operand x).symbol = .ok x ∧
      (∀ before after : List Char, (∀ c ∈ before ++ after, isBlank c = true) →
        Token.ofLine (String.ofList
          (before ++ ((operand x).symbol.toList ++ after))) =
          [(operand x).symbol]) ∧
      (∀ y, (operand y).symbol = (operand x).symbol → y = x) ∧
      IsTextOf x (operand x).symbol.toList := by
  refine ⟨isNumber_numberText x, number_numberText x, fun before after h => ?_,
    fun y h => numberText_injective h, isTextOf_numberText x⟩
  obtain ⟨hbefore, hafter⟩ := List.forall_mem_append.1 h
  exact Token.ofLine_padded hbefore hafter (numberText_ne_nil x)
    (not_blank_numberText x)

end Operation

end Rpn
