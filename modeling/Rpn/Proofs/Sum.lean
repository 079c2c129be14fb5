import Rpn.Proofs.KeptBits

/-!
# A sum is rounded once

Rounding a positive number of steps gives the double that `nearestRank` finds
(`round_eq`). The sum of two finite doubles is therefore the double nearest to
the exact sum of what they stand for (`add_eq`).

All exponents that come up are at least that of a step, since the sum of whole
numbers of steps is one, and then at most one of the two shifts that rounding
makes does anything.
-/

namespace Rpn.Binary64

open Float.Model Float.Model.UnpackedFloat

/-! ## Rounding a number of steps -/

/-- The double nearest to a number of steps. -/
def ofSteps (n : Int) : Float :=
  ofRank (decide (n < 0)) (nearestRank n.natAbs oneInSteps)

theorem decreaseExponent_eq (m k : Nat) :
    decreaseExponent m ((k : Int) - 1074)
        (Format.binary64.targetExponent (totalExponent m ((k : Int) - 1074))) =
      (m * 2 ^ min (52 - m.log2) k,
        ((k - min (52 - m.log2) k : Nat) : Int) - 1074) := by
  have hshift : ((k : Int) - 1074 -
      max ((m.log2 : Int) + 1 + (k - 1074) - 53) (-1074)).toNat =
      min (52 - m.log2) k := by omega
  rw [targetExponent_eq, decreaseExponent, hshift]
  refine Prod.ext (Nat.shiftLeft_eq _ _) ?_
  show (k : Int) - 1074 - ((min (52 - m.log2) k : Nat) : Int) = _
  omega

theorem roundWithAccuracy_eq (negative : Bool) {m k : Nat}
    (hlong : 52 ≤ m.log2 ∨ k = 0) :
    Float.ofModel (Float.Model.pack (roundWithAccuracy Format.binary64
        (signOf negative) m ((k : Int) - 1074) .exact)) =
      ofRank negative (nearestRank (m * 2 ^ k) oneInSteps) := by
  have hready : k ≤ 0 + ((m / 1).log2 + k - 0 - 52) := by
    rw [Nat.div_one]
    omega
  have hquotient := roundWithAccuracy_quotient negative Nat.one_pos hready
  rw [Nat.div_one, Nat.mod_one, Nat.pow_zero, Nat.one_mul, Nat.cast_zero,
    Int.sub_zero] at hquotient
  exact hquotient

/-- Rounding a positive number of steps finds the nearest rank. -/
theorem round_eq (negative : Bool) {m : Nat} (hm : 0 < m) (k : Nat) :
    Float.ofModel (Float.Model.pack (round Format.binary64 (signOf negative) m
        ((k : Int) - 1074))) =
      ofRank negative (nearestRank (m * 2 ^ k) oneInSteps) := by
  have hlong : 52 ≤ (m * 2 ^ min (52 - m.log2) k).log2 ∨
      k - min (52 - m.log2) k = 0 := by
    rw [log2_mul_two_pow hm]
    omega
  have hsame : m * 2 ^ min (52 - m.log2) k * 2 ^ (k - min (52 - m.log2) k) =
      m * 2 ^ k := by
    rw [Nat.mul_assoc, ← Nat.pow_add, Nat.add_sub_cancel' (Nat.min_le_right _ _)]
  rw [UnpackedFloat.round, decreaseExponent_eq, ← hsame]
  exact roundWithAccuracy_eq negative hlong

/-! ## Sums -/

theorem normalize_eq (n : Int) (k : Nat) :
    Float.ofModel (Float.Model.pack (normalize Format.binary64 n
        ((k : Int) - 1074) .positive)) = ofSteps (n * 2 ^ k) := by
  have hpow : (0 : Int) < 2 ^ k := Int.pow_pos (by decide)
  have hnat : (n * 2 ^ k).natAbs = n.natAbs * 2 ^ k := by
    rw [Int.natAbs_mul, Int.natAbs_pow]
    rfl
  rw [ofSteps, hnat, UnpackedFloat.normalize]
  rcases Int.lt_trichotomy n 0 with hneg | rfl | hpos
  · have hsign : n * 2 ^ k < 0 := Int.mul_neg_of_neg_of_pos hneg hpow
    rw [decide_eq_true hsign, compare_lt_iff_lt.2 hneg]
    have habs : (-n).toNat = n.natAbs := by omega
    simp only [habs]
    exact round_eq true (Int.natAbs_pos.2 (Int.ne_of_lt hneg)) k
  · rw [compare_eq_iff_eq.2 rfl, Int.zero_mul, Int.natAbs_zero, Nat.zero_mul]
    have hzero : nearestRank 0 oneInSteps = 0 := by decide +kernel
    rw [hzero]
    exact pack_zero false
  · have hsign : ¬ n * 2 ^ k < 0 := Int.not_lt.2 (Int.le_of_lt (Int.mul_pos hpos hpow))
    rw [decide_eq_false hsign, compare_gt_iff_gt.2 hpos]
    have habs : n.toNat = n.natAbs := by omega
    simp only [habs]
    exact round_eq false (Int.natAbs_pos.2 (Int.ne_of_gt hpos)) k

/-- What a finite double stands for, in steps. -/
def signedSteps (x : Float) : Int :=
  (signOf (isNegative x)).apply (steps (rank x))

/-- A magnitude in spacings of a smaller power of two. -/
theorem decreased_steps {r k : Nat} (h : k ≤ spacing r) :
    (decreaseExponent (mantissa r) ((spacing r : Int) - 1074)
      ((k : Int) - 1074)).1 * 2 ^ k = steps r := by
  have hshift : ((spacing r : Int) - 1074 - ((k : Int) - 1074)).toNat =
      spacing r - k := by omega
  rw [decreaseExponent, hshift]
  show mantissa r <<< (spacing r - k) * 2 ^ k = _
  rw [Nat.shiftLeft_eq, Nat.mul_assoc, ← Nat.pow_add, Nat.sub_add_cancel h,
    steps_eq_mantissa]

theorem apply_mul (s : Sign) (m k : Nat) :
    s.apply m * 2 ^ k = s.apply ((m * 2 ^ k : Nat) : Int) := by
  have hcast : ((m * 2 ^ k : Nat) : Int) = m * 2 ^ k := by
    rw [Nat.cast_mul, Nat.cast_pow]
    rfl
  rw [hcast]
  cases s with
  | negative => exact Int.neg_mul _ _
  | positive => rfl

/-- The sum of two finite doubles is the double nearest to the exact sum. -/
theorem add_eq {x y : Float} (hx : 0 < rank x) (hx' : rank x < infinityRank)
    (hy : 0 < rank y) (hy' : rank y < infinityRank) :
    x + y = ofSteps (signedSteps x + signedSteps y) := by
  let k := min (spacing (rank x)) (spacing (rank y))
  have hleft := decreased_steps (r := rank x) (k := k) (Nat.min_le_left _ _)
  have hright := decreased_steps (r := rank y) (k := k) (Nat.min_le_right _ _)
  have hmin : min ((spacing (rank x) : Int) - 1074)
      ((spacing (rank y) : Int) - 1074) = (k : Int) - 1074 := by omega
  show Float.ofModel (Float.Model.pack (UnpackedFloat.add Format.binary64
    x.toModel.unpack y.toModel.unpack)) = _
  rw [unpack_of_finite hx hx', unpack_of_finite hy hy', UnpackedFloat.add, hmin,
    signedSteps, signedSteps, ← hleft, ← hright, ← apply_mul, ← apply_mul,
    ← Int.add_mul]
  exact normalize_eq _ k

end Rpn.Binary64
