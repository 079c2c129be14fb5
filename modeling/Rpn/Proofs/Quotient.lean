import Rpn.Proofs.Division
import Rpn.Proofs.Totality

/-!
# Quotients of any two doubles

Division by zero breaks down, and the operator puts an infinity or what is not a
number in the place of the quotient. This other way to a quotient ends where the
first one does: both give the double whose sign is the product of the signs and
whose rank follows from the ranks (`quotient_eq`). Hence a quotient is as IEEE
754 has it for any two doubles (`IsQuotient`), and to negate an operand is to
negate the quotient, whichever way it came about.
-/

namespace Rpn

open Binary64

namespace Binary64

/-! ## The double of a rank that may be missing -/

section Missing

variable {negative : Bool} {o : Option Nat}

theorem infinityRank_lt_nan : infinityRank < rank nan := by decide +kernel

theorem isNaN_ofRank? (h : ∀ r, o = some r → r ≤ infinityRank) :
    (ofRank? negative o).isNaN = true ↔ o = none := by
  cases o with
  | none => exact iff_of_true (isNaN_iff.2 infinityRank_lt_nan) rfl
  | some r =>
      refine iff_of_false ?_ (Option.some_ne_none r)
      rw [ofRank?, isNaN_iff, rank_ofRank (h r rfl)]
      exact Nat.not_lt.2 (h r rfl)

theorem exists_rank_of_isNaN_eq_false (h : ∀ r, o = some r → r ≤ infinityRank)
    (hnan : (ofRank? negative o).isNaN = false) : ∃ r, o = some r := by
  refine Option.ne_none_iff_exists'.1 ?_
  rw [Ne, ← isNaN_ofRank? h, hnan]
  exact Bool.false_ne_true

theorem neg_ofRank? (h : ∀ r, o = some r → r ≤ infinityRank) :
    -ofRank? negative o = ofRank? (!negative) o := by
  cases o with
  | none => exact neg_of_nan infinityRank_lt_nan
  | some r =>
      have hle := h r rfl
      have hr : rank (ofRank negative r) = r := rank_ofRank hle
      rw [ofRank?, neg_eq (hr.trans_le hle), hr, isNegative_ofRank hle, ofRank?]

end Missing

end Binary64

namespace Arithmetic

variable {dividend divisor : Float}

/-! ## By zero and by anything else -/

theorem copySign_infinity_mul (dividend divisor : Float) :
    copySign infinity dividend * copySign 1 divisor =
      ofRank (isNegative dividend != isNegative divisor) infinityRank := by
  rw [copySign, copySign]
  cases isNegative dividend <;> cases isNegative divisor <;> decide +kernel

/-- A quotient has its sign and its rank in one way, by zero too. -/
theorem quotient_eq (dividend divisor : Float) :
    quotient dividend divisor =
      ofRank? (isNegative dividend != isNegative divisor)
        (quotientRank? (rank dividend) (rank divisor)) := by
  rw [quotient]
  rcases Nat.eq_zero_or_pos (rank divisor) with hzero | hpos
  · rw [if_pos (beq_zero_iff.2 hzero), copySign_infinity_mul, hzero]
    have hnone : (dividend == 0 || dividend.isNaN) = true ↔
        rank dividend = 0 ∨ infinityRank < rank dividend := by
      rw [Bool.or_eq_true, beq_zero_iff, isNaN_iff]
    by_cases hnan : rank dividend = 0 ∨ infinityRank < rank dividend
    · rw [if_pos (hnone.2 hnan), quotientRank?, if_pos (by omega), ofRank?]
    · have hpos := infinityRank_pos
      rw [if_neg (mt hnone.1 hnan), quotientRank?, if_neg (by omega),
        if_pos (Or.inr rfl), ofRank?]
  · rw [if_neg (mt beq_zero_iff.1 (Nat.ne_of_gt hpos)), div_eq_ofRank? hpos]

/-- Operands of the same magnitudes whose signs multiply to the other sign have
the negated quotient. -/
theorem quotient_eq_neg {dividend' divisor' : Float}
    (hdividend : rank dividend' = rank dividend)
    (hdivisor : rank divisor' = rank divisor)
    (hsign : rank dividend ≤ infinityRank → rank divisor ≤ infinityRank →
      (isNegative dividend' != isNegative divisor') =
        !(isNegative dividend != isNegative divisor)) :
    quotient dividend' divisor' = -quotient dividend divisor := by
  rw [quotient_eq, quotient_eq, hdividend, hdivisor,
    neg_ofRank? fun _ => quotientRank?_le]
  by_cases hnone : quotientRank? (rank dividend) (rank divisor) = none
  · rw [hnone, ofRank?, ofRank?]
  · rw [quotientRank?_eq_none_iff] at hnone
    rw [hsign (by omega) (by omega)]

theorem neg_quotient (dividend divisor : Float) :
    quotient (-dividend) divisor = -quotient dividend divisor := by
  refine quotient_eq_neg (rank_neg dividend) rfl fun hdividend _ => ?_
  rw [isNegative_neg hdividend, Bool.not_bne]

theorem quotient_neg (dividend divisor : Float) :
    quotient dividend (-divisor) = -quotient dividend divisor := by
  refine quotient_eq_neg rfl (rank_neg divisor) fun _ hdivisor => ?_
  rw [isNegative_neg hdivisor, Bool.bne_not]

/-! ## Quotients as IEEE 754 has them -/

/-- A value is the quotient of two doubles: the exact one correctly rounded, and
where there is no exact one the limit if there is a limit. Its sign is the
product of the signs, those of zeros included. -/
structure IsQuotient (dividend divisor value : Float) : Prop where
  isNaN : value.isNaN = true ↔ dividend.isNaN = true ∨ divisor.isNaN = true ∨
    (dividend == 0) = true ∧ (divisor == 0) = true ∨
    dividend.isInf = true ∧ divisor.isInf = true
  isInf : value.isNaN = false →
    dividend.isInf = true ∨ (divisor == 0) = true → value.isInf = true
  isZero : value.isNaN = false → divisor.isInf = true → (value == 0) = true
  isRounded : dividend.isFinite = true → divisor.isFinite = true →
    (divisor == 0) = false → IsRounded (toRat dividend / toRat divisor) value
  isNegative : value.isNaN = false →
    isNegative value = (isNegative dividend != isNegative divisor)

theorem toRat_div_toRat (hpos : 0 < rank divisor) :
    toRat dividend / toRat divisor =
      signFactor (isNegative dividend != isNegative divisor) *
        (steps (rank dividend) / steps (rank divisor)) := by
  have hsteps : (steps (rank divisor) : ℚ) ≠ 0 :=
    Nat.cast_ne_zero.2 (steps_pos hpos).ne'
  have hone := oneInSteps_ne_zero
  rw [toRat_eq, toRat_eq]
  cases isNegative dividend <;> cases isNegative divisor <;>
    simp [signFactor] <;> field_simp

theorem isQuotient_quotient (dividend divisor : Float) :
    IsQuotient dividend divisor (quotient dividend divisor) := by
  rw [quotient_eq]
  have hle : ∀ r, quotientRank? (rank dividend) (rank divisor) = some r →
      r ≤ infinityRank := fun _ => quotientRank?_le
  refine ⟨?_, fun hnan hlarge => ?_, fun hnan hdivisor => ?_,
    fun hfinite hfinite' hnonzero => ?_, fun hnan => ?_⟩
  · rw [isNaN_ofRank? hle, quotientRank?_eq_none_iff, isNaN_iff, isNaN_iff,
      beq_zero_iff, beq_zero_iff, isInf_iff, isInf_iff]
  · obtain ⟨r, hr⟩ := exists_rank_of_isNaN_eq_false hle hnan
    rw [isInf_iff, beq_zero_iff] at hlarge
    rw [hr, ofRank?, isInf_iff, rank_ofRank (hle r hr)]
    exact quotientRank?_of_infinite hr hlarge
  · obtain ⟨r, hr⟩ := exists_rank_of_isNaN_eq_false hle hnan
    rw [isInf_iff] at hdivisor
    rw [hr, ofRank?, beq_zero_iff, rank_ofRank (hle r hr)]
    exact quotientRank?_of_zero hr hdivisor
  · rw [isFinite_iff] at hfinite hfinite'
    have hpos : 0 < rank divisor := by
      rw [← Bool.not_eq_true, beq_zero_iff] at hnonzero
      exact Nat.pos_of_ne_zero hnonzero
    rw [quotientRank?_of_finite hfinite hpos hfinite', toRat_div_toRat hpos]
    exact isRounded_nearestRank _ _ (steps_pos hpos)
  · obtain ⟨r, hr⟩ := exists_rank_of_isNaN_eq_false hle hnan
    rw [hr, ofRank?, isNegative_ofRank (hle r hr)]

/-- A quotient is settled by what it has to be. -/
theorem IsQuotient.unique {value value' : Float}
    (h : IsQuotient dividend divisor value)
    (h' : IsQuotient dividend divisor value') : value = value' := by
  by_cases hnan : value.isNaN = true
  · have hnan' := h'.isNaN.2 (h.isNaN.1 hnan)
    rw [isNaN_iff] at hnan hnan'
    rw [eq_nan_of_rank hnan, eq_nan_of_rank hnan']
  have hnumber : value.isNaN = false := Bool.eq_false_iff.2 hnan
  have hnumber' : value'.isNaN = false :=
    Bool.eq_false_iff.2 fun hnan' => hnan (h.isNaN.2 (h'.isNaN.1 hnan'))
  have hsign : Binary64.isNegative value = Binary64.isNegative value' :=
    (h.isNegative hnumber).trans (h'.isNegative hnumber').symm
  have heq (hrank : rank value = rank value') : value = value' := by
    rw [← ofRank_rank value, ← ofRank_rank value', hrank, hsign]
  by_cases hinfinite : dividend.isInf = true ∨ (divisor == 0) = true
  · have hvalue := h.isInf hnumber hinfinite
    have hvalue' := h'.isInf hnumber' hinfinite
    rw [isInf_iff] at hvalue hvalue'
    exact heq (hvalue.trans hvalue'.symm)
  by_cases hdivisor : divisor.isInf = true
  · have hvalue := h.isZero hnumber hdivisor
    have hvalue' := h'.isZero hnumber' hdivisor
    rw [beq_zero_iff] at hvalue hvalue'
    exact heq (hvalue.trans hvalue'.symm)
  · rw [not_or] at hinfinite
    have hfinite : dividend.isFinite = true ∧ divisor.isFinite = true := by
      rw [h.isNaN] at hnan
      rw [isFinite_iff, isFinite_iff]
      simp only [isInf_iff, isNaN_iff] at hnan hinfinite hdivisor
      omega
    have hnonzero := Bool.eq_false_iff.2 hinfinite.2
    exact (h.isRounded hfinite.1 hfinite.2 hnonzero).unique
      (h'.isRounded hfinite.1 hfinite.2 hnonzero) hsign

end Arithmetic

namespace Operation

/-- The standard operator for quotients. -/
def quotient : Binary where
  symbol := "÷"
  function nearer deeper :=
    (Arithmetic.divide deeper nearer).mapError Arithmetic.Breakdown.failure

theorem find?_quotient :
    (Registry.ofList standard).find? quotient.symbol = some (.binary quotient) := rfl

theorem apply_quotient (divisor dividend : Float) :
    quotient.apply divisor dividend =
      .ok (Arithmetic.quotient dividend divisor) := by
  refine Binary.apply_of_ok ?_
  show (Arithmetic.divide dividend divisor).mapError _ = _
  rw [Arithmetic.divide_eq]
  rfl

/-- The quotient of any two doubles is a double, and the only one that is their
quotient: the exact one correctly rounded, by zero an infinity, and not a number
where there is no limit either. To negate an operand is to negate the quotient.
-/
theorem quotient_of_any_doubles (divisor dividend : Float) :
    (Registry.ofList standard).find? "÷" = some (.binary quotient) ∧
      ∃ value, quotient.apply divisor dividend = .ok value ∧
        (∀ other, Arithmetic.IsQuotient dividend divisor other ↔
          other = value) ∧
        quotient.apply divisor (-dividend) = .ok (-value) ∧
        quotient.apply (-divisor) dividend = .ok (-value) := by
  have hquotient := Arithmetic.isQuotient_quotient dividend divisor
  refine ⟨find?_quotient, _, apply_quotient divisor dividend,
    fun other => ⟨fun h => h.unique hquotient, ?_⟩, ?_, ?_⟩
  · rintro rfl
    exact hquotient
  · rw [apply_quotient, Arithmetic.neg_quotient]
  · rw [apply_quotient, Arithmetic.quotient_neg]

end Operation

end Rpn
