import Rpn.Operation.Operand
import Rpn.Proofs.Rounding
import Rpn.Proofs.Written

/-!
# Whole numbers, pushed and typed

A whole number that is pushed is rounded to the nearest double, and so are its
digits when they are typed. Both are the double of one decimal, whose
coefficient is the whole number itself. They part only where that double is
infinite: there pushing is a fault.
-/

namespace Rpn

open Binary64
open Number (Numeral signText)

/-- The decimal that a whole number is. -/
def Decimal.ofInt (n : ℤ) : Decimal where
  negative := n < 0
  coefficient := n.natAbs
  exponent := 0

theorem Decimal.toRat_ofInt (n : ℤ) : (ofInt n).toRat = n := by
  rw [toRat, ofInt, zpow_zero, mul_one]
  exact signFactor_mul_natAbs n

/-- The digits of a whole number as a numeral. -/
def Number.Numeral.ofNat (k : Nat) : Numeral :=
  Layout.numeral (Nat.toDigits 10 k) none none Nat.toDigits_ne_nil (by
    rw [Option.getD_none, List.append_nil]
    exact Layout.isDigit_toDigits k)

theorem Number.Numeral.characters_ofNat (k : Nat) :
    (Numeral.ofNat k).characters = Nat.toDigits 10 k := by
  show Nat.toDigits 10 k ++ ([] ++ []) = _
  rw [List.append_nil, List.append_nil]

theorem Number.Numeral.decimal_ofNat (n : ℤ) :
    (Numeral.ofNat n.natAbs).decimal (decide (n < 0)) = .ofInt n := by
  have hdigits : (Numeral.ofNat n.natAbs).whole ++
      (Numeral.ofNat n.natAbs).fraction = Nat.toDigits 10 n.natAbs :=
    List.append_nil _
  rw [decimal_eq (hdigits ▸ Layout.isDigit_toDigits n.natAbs), hdigits,
    Nat.ofDigitChars_ten_toDigits]
  rfl

theorem toString_eq_ofList (n : ℤ) :
    toString n = String.ofList
      (signText (decide (n < 0)) ++ (Numeral.ofNat n.natAbs).characters) := by
  rw [Number.Numeral.characters_ofNat]
  cases n with
  | ofNat k => rfl
  | negSucc k =>
      show "-" ++ String.ofList (Nat.toDigits 10 (k + 1)) = _
      rw [decide_eq_true (Int.negSucc_lt_zero k), signText, if_pos rfl,
        String.ofList_append]
      rfl

theorem Token.number_toString (n : ℤ) :
    Token.number (toString n) = .ok (Decimal.ofInt n).toFloat := by
  rw [toString_eq_ofList, number_numeral, Number.Numeral.decimal_ofNat]

namespace Value

theorem toFloat_whole (n : ℤ) :
    (whole n).toFloat =
      if (Decimal.ofInt n).toFloat.isInf then .error .tooLarge
      else .ok (Decimal.ofInt n).toFloat := rfl

/-- A whole number of any size is pushed as the double that its digits are typed
as, the nearest one, unless this is infinite and pushing a fault. Up to two to
the 53 it is pushed as it is. -/
theorem whole_is_pushed_as_typed (n : ℤ) :
    ∃ x, Token.number (toString n) = .ok x ∧ IsRounded n x ∧
      (whole n).toFloat = (if x.isInf then .error .tooLarge else .ok x) ∧
      (x.isInf = true ↔ overflow ≤ n.natAbs) ∧
      (n.natAbs ≤ 2 ^ 53 → (whole n).toFloat = .ok x ∧ toRat x = n) := by
  have hrounded := (Decimal.ofInt n).isRounded_toFloat
  rw [Decimal.toRat_ofInt] at hrounded
  have habs : |(n : ℚ)| = n.natAbs := by
    rw [Nat.cast_natAbs, Int.cast_abs]
  refine ⟨_, Token.number_toString n, hrounded, toFloat_whole n, ?_,
    fun hsmall => ?_⟩
  · rw [hrounded.isInf, habs, Nat.cast_le]
  · have hlt : |(n : ℚ)| < overflow := by
      have hoverflow : 2 ^ 53 < overflow := by decide +kernel
      rw [habs, Nat.cast_lt]
      exact Nat.lt_of_le_of_lt hsmall hoverflow
    obtain ⟨y, hy, hvalue⟩ := exists_toRat_eq hsmall
    have hfinite := isInf_eq_false_of_isFinite (hrounded.isFinite.2 hlt)
    refine ⟨?_, hrounded.toRat_eq hlt hy hvalue⟩
    rw [toFloat_whole, if_neg (by rw [hfinite]; exact Bool.false_ne_true)]

/-- The last whole number before there are gaps. -/
theorem two_pow_53_is_pushed_as_typed :
    ∃ x, Token.number "-9007199254740992" = .ok x ∧
      (whole (-9007199254740992)).toFloat = .ok x ∧
      toRat x = -9007199254740992 := by
  obtain ⟨x, hnumber, _, _, _, hexact⟩ :=
    whole_is_pushed_as_typed (-9007199254740992)
  obtain ⟨hpushed, hvalue⟩ := hexact (by decide)
  refine ⟨x, hnumber, hpushed, ?_⟩
  rw [hvalue]
  norm_num

end Value

end Rpn
