import Rpn.Proofs.Parity
import Rpn.Proofs.Totality

/-!
# Powers where none is computed

The power of two doubles is computed by the platform, unless there is none or it
is too large. What stands in its place then is an infinity or not a number, and
the sign of an infinity hangs on whether the exponent is odd. One exponent is
taken for odd that is not even whole (`isOdd_iff`). It shows only where the base
is zero, because a negative base has no power at all to what is not whole.

`IsPower` says how a power comes out in each of these cases. The operator has a
value for all doubles, and `power_at_breakdowns` says that it is such a power for
all pairs of them but one.
-/

namespace Rpn

open Binary64

namespace Arithmetic

variable {base exponent : Float}

/-- Whether a value is infinite, and negative under this condition. -/
def IsInfinity (value : Float) (negative : Prop) : Prop :=
  ∃ sign, value = ofRank sign infinityRank ∧ (sign = true ↔ negative)

variable {negative : Prop} {value : Float}

theorem IsInfinity.eq_minus (h : IsInfinity value negative) (hneg : negative) :
    value = ofRank true infinityRank := by
  obtain ⟨sign, hvalue, hsign⟩ := h
  rw [hvalue, hsign.2 hneg]

theorem IsInfinity.eq_plus (h : IsInfinity value negative)
    (hneg : ¬ negative) : value = infinity := by
  obtain ⟨sign, hvalue, hsign⟩ := h
  rw [hvalue, Bool.eq_false_iff.2 (mt hsign.1 hneg)]
  rfl

theorem IsInfinity.congr {negative' : Prop} (h : IsInfinity value negative)
    (hsame : negative ↔ negative') : IsInfinity value negative' := by
  obtain ⟨sign, hvalue, hsign⟩ := h
  exact ⟨sign, hvalue, hsign.trans hsame⟩

theorem isInfinity_of_ite [Decidable negative]
    (h : value = if negative then ofRank true infinityRank else infinity) :
    IsInfinity value negative := by
  by_cases hneg : negative
  · rw [if_pos hneg] at h
    exact ⟨true, h, iff_of_true rfl hneg⟩
  · rw [if_neg hneg] at h
    exact ⟨false, h, iff_of_false Bool.false_ne_true hneg⟩

/-- How a power comes out where it is not simply computed, and that it is the
computed one elsewhere. -/
structure IsPower (base exponent value : Float) : Prop where
  ofZero : (base == 0) = true → exponent < 0 →
    IsInfinity value (isNegative base = true ∧ IsOddInteger exponent)
  tooLarge : base.isFinite = true → exponent.isFinite = true →
    (base == 0) = false → (base < 0 → IsInteger exponent) →
    (Float.pow base exponent).isInf = true →
    IsInfinity value (base < 0 ∧ IsOddInteger exponent)
  notReal : base.isFinite = true → base < 0 → exponent.isFinite = true →
    ¬ IsInteger exponent → value = nan
  computed : ∀ result, Bare.power base exponent = .ok result → value = result

theorem limitPower_of_zero (hbase : rank base = 0)
    (hexponent : isNegative exponent = true ∧ rank exponent = infinityRank) :
    limitPower base exponent = infinity := by
  rw [← ofRank_rank base, ← ofRank_rank exponent, hbase, hexponent.1, hexponent.2]
  cases isNegative base with
  | false => decide +kernel
  | true => decide +kernel

theorem power_of_zero (hbase : (base == 0) = true) (hneg : exponent < 0) :
    IsInfinity (power base exponent) (isNegative base = true ∧
      (IsOddInteger exponent ∨ exponent = aboveMinusOne)) := by
  rw [← isOdd_iff]
  refine isInfinity_of_ite ?_
  have hrank := beq_zero_iff.1 hbase
  cases hfinite : exponent.isFinite with
  | true =>
      have hcopied : copySign infinity base =
          ofRank (isNegative base) infinityRank := by
        rw [copySign, infinity, rank_ofRank (Nat.le_refl _)]
      rw [power, hbase, hfinite, decide_eq_true hneg, hcopied]
      simp only [Bool.and_true, if_true]
      cases isOdd exponent with
      | false =>
          exact (if_neg Bool.false_ne_true).trans
            (if_neg fun h => Bool.false_ne_true h.2).symm
      | true =>
          cases isNegative base with
          | false =>
              exact (if_pos rfl).trans
                (if_neg fun h => Bool.false_ne_true h.1).symm
          | true => exact (if_pos rfl).trans (if_pos ⟨rfl, rfl⟩).symm
  | false =>
      obtain ⟨hsign, _, hle⟩ := lt_zero_iff.1 hneg
      have hinfinite : rank exponent = infinityRank := by
        rw [← Bool.not_eq_true, isFinite_iff] at hfinite
        omega
      have hnonneg : ¬ base < 0 := by
        rw [lt_zero_iff, hrank]
        exact fun h => Nat.lt_irrefl 0 h.2.1
      have hodd : ¬ (isNegative base = true ∧ isOdd exponent = true) := by
        rw [isOdd_of_not_finite (by rw [hfinite]; exact Bool.false_ne_true)]
        exact fun h => Bool.false_ne_true h.2
      rw [if_neg hodd, power, plainPower, hfinite, decide_eq_false hnonneg]
      simp only [Bool.and_false, Bool.false_and, Bool.false_eq_true, if_false]
      exact limitPower_of_zero hrank ⟨hsign, hinfinite⟩

theorem not_isInteger_aboveMinusOne : ¬ IsInteger aboveMinusOne := by
  have hrank : rank aboveMinusOne = belowOne := (eq_aboveMinusOne_iff.1 rfl).2
  have hpos : steps 0 < steps belowOne := steps_strictMono (by decide)
  rw [isInteger_iff, isWhole, decide_eq_true_iff, hrank,
    Nat.mod_eq_of_lt steps_belowOne_lt]
  exact fun h => Nat.not_lt_zero _ (h.2 ▸ hpos)

theorem power_of_tooLarge (hbase : base.isFinite = true)
    (hexponent : exponent.isFinite = true) (hzero : (base == 0) = false)
    (hreal : base < 0 → IsInteger exponent)
    (hlarge : (Float.pow base exponent).isInf = true) :
    IsInfinity (power base exponent) (base < 0 ∧ IsOddInteger exponent) := by
  have hodd : base < 0 ∧ IsOddInteger exponent ↔
      base < 0 ∧ isOdd exponent = true := by
    refine and_congr_right fun hneg => ?_
    rw [isOdd_iff, or_iff_left]
    rintro rfl
    exact not_isInteger_aboveMinusOne (hreal hneg)
  have hwhole : (decide (base < 0) && !isWhole exponent) = false := by
    by_cases hneg : base < 0
    · rw [(isInteger_iff.1 (hreal hneg)).2, Bool.not_true, Bool.and_false]
    · rw [decide_eq_false hneg, Bool.false_and]
  have hminus : -infinity = ofRank true infinityRank := by decide +kernel
  rw [hodd]
  refine isInfinity_of_ite ?_
  rw [power, plainPower, bne, hzero, hbase, hexponent, hminus]
  simp only [Bool.and_true, Bool.false_and, Bool.false_eq_true, if_false,
    hwhole, if_true, hlarge, Bool.not_false, Bool.and_eq_true,
    decide_eq_true_eq]

theorem power_of_notReal (hbase : base.isFinite = true) (hneg : base < 0)
    (hexponent : exponent.isFinite = true) (hfraction : ¬ IsInteger exponent) :
    power base exponent = nan := by
  have hzero : (base == 0) = false := beq_zero_of_neg hneg
  have hwhole : isWhole exponent = false := by
    rw [isInteger_iff, and_iff_right hexponent] at hfraction
    exact Bool.eq_false_iff.2 hfraction
  rw [power, hzero, hbase, hexponent, hwhole, decide_eq_true hneg]
  exact (if_neg Bool.false_ne_true).trans (if_pos rfl)

theorem power_of_computed {result : Float}
    (h : Bare.power base exponent = .ok result) :
    power base exponent = result := by
  have hraise := raise_eq base exponent
  rw [raise, h, expecting] at hraise
  injection hraise with hsame
  exact hsame.symm

theorem eq_minusZero_iff :
    base = ofRank true 0 ↔ isNegative base = true ∧ (base == 0) = true := by
  have hle : 0 ≤ infinityRank := Nat.zero_le _
  rw [beq_zero_iff]
  constructor
  · rintro rfl
    exact ⟨isNegative_ofRank hle, rank_ofRank hle⟩
  · rintro ⟨hsign, hrank⟩
    rw [← ofRank_rank base, hsign, hrank]

theorem aboveMinusOne_neg : aboveMinusOne < 0 := by
  obtain ⟨hsign, hrank⟩ := eq_aboveMinusOne_iff.1 (Eq.refl aboveMinusOne)
  rw [lt_zero_iff, hrank]
  exact ⟨hsign, by decide, by decide⟩

/-- The infinity has the sign of the zero, although the exponent is not odd. -/
theorem not_isPower_aboveMinusOne :
    ¬ IsPower (ofRank true 0) aboveMinusOne
      (power (ofRank true 0) aboveMinusOne) := by
  intro hpower
  obtain ⟨hsign, hzero⟩ := eq_minusZero_iff.1 (Eq.refl (ofRank true 0))
  have hplus := (hpower.ofZero hzero aboveMinusOne_neg).eq_plus
    fun h => not_isInteger_aboveMinusOne h.2.isInteger
  have hminus := (power_of_zero hzero aboveMinusOne_neg).eq_minus
    ⟨hsign, Or.inr rfl⟩
  have hsigns := congrArg isNegative (hplus.symm.trans hminus)
  rw [infinity, isNegative_ofRank (Nat.le_refl _),
    isNegative_ofRank (Nat.le_refl _)] at hsigns
  exact Bool.false_ne_true hsigns

theorem isPower_power_iff :
    IsPower base exponent (power base exponent) ↔
      ¬ (base = ofRank true 0 ∧ exponent = aboveMinusOne) := by
  constructor
  · rintro hpower ⟨rfl, rfl⟩
    exact not_isPower_aboveMinusOne hpower
  · intro hother
    refine ⟨fun hzero hneg => ?_, power_of_tooLarge, power_of_notReal,
      fun _ => power_of_computed⟩
    refine (power_of_zero hzero hneg).congr (and_congr_right fun hsign => ?_)
    exact or_iff_left fun hexponent =>
      hother ⟨eq_minusZero_iff.2 ⟨hsign, hzero⟩, hexponent⟩

end Arithmetic

namespace Operation

open Arithmetic

/-- The standard operator for powers. -/
def power : Binary where
  symbol := "^"
  function nearer deeper := (raise deeper nearer).mapError Breakdown.failure

theorem find?_power :
    (Registry.ofList standard).find? power.symbol = some (.binary power) := rfl

theorem apply_power (exponent base : Float) :
    power.apply exponent base = .ok (Arithmetic.power base exponent) := by
  refine Binary.apply_of_ok ?_
  show (raise base exponent).mapError _ = _
  rw [raise_eq]
  rfl

/-- The power of any two doubles is a double. A power of zero to a negative
exponent is infinite, and negative for a zero with a minus sign under an odd
exponent. A power of other finite doubles that is too large is infinite, and
negative for a negative base under an odd exponent. A negative base has no power
to an exponent that is not whole. All of this holds but for one base and one
exponent. -/
theorem power_at_breakdowns (exponent base : Float) :
    (Registry.ofList standard).find? "^" = some (.binary power) ∧
      ∃ value, power.apply exponent base = .ok value ∧
        (IsPower base exponent value ↔
          ¬ (base = ofRank true 0 ∧ exponent = aboveMinusOne)) :=
  ⟨find?_power, _, apply_power exponent base, isPower_power_iff⟩

/-- Powers of zero under an odd exponent, a fraction and an infinity, and a
power that is not real. -/
theorem powers_that_break_down :
    power.apply (-3) (ofRank true 0) = .ok (ofRank true infinityRank) ∧
      power.apply (-2.5) (ofRank true 0) = .ok infinity ∧
      power.apply (ofRank true infinityRank) 0 = .ok infinity ∧
      power.apply 0.5 (-8) = .ok nan := by
  refine ⟨?_, ?_, ?_, ?_⟩
  · obtain ⟨_, value, happly, hvalue⟩ := power_at_breakdowns (-3) (ofRank true 0)
    have hpower := hvalue.2 (by decide +kernel)
    rw [happly, (hpower.ofZero (by decide +kernel) (by decide +kernel)).eq_minus
      (by decide +kernel)]
  · obtain ⟨_, value, happly, hvalue⟩ :=
      power_at_breakdowns (-2.5) (ofRank true 0)
    have hpower := hvalue.2 (by decide +kernel)
    rw [happly, (hpower.ofZero (by decide +kernel) (by decide +kernel)).eq_plus
      (by decide +kernel)]
  · obtain ⟨_, value, happly, hvalue⟩ :=
      power_at_breakdowns (ofRank true infinityRank) 0
    have hpower := hvalue.2 (by decide +kernel)
    rw [happly, (hpower.ofZero (by decide +kernel) (by decide +kernel)).eq_plus
      (by decide +kernel)]
  · obtain ⟨_, value, happly, hvalue⟩ := power_at_breakdowns 0.5 (-8)
    have hpower := hvalue.2 (by decide +kernel)
    rw [happly, hpower.notReal (by decide +kernel) (by decide +kernel)
      (by decide +kernel) (by decide +kernel)]

/-- The double next to minus one is no odd whole number, and yet a power of zero
to it has the sign of the zero. -/
theorem almost_minus_one_keeps_sign :
    numberText aboveMinusOne = "-0.9999999999999999" ∧
      ¬ IsOddInteger aboveMinusOne ∧
      (Registry.ofList standard).find? "^" = some (.binary power) ∧
      power.apply aboveMinusOne (ofRank true 0) =
        .ok (ofRank true infinityRank) := by
  refine ⟨by decide +kernel, by decide +kernel, find?_power, ?_⟩
  rw [apply_power]
  exact congrArg Except.ok (by decide +kernel)

end Operation

end Rpn
