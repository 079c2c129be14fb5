import Rpn.Proofs.FewestDigits
import Rpn.Proofs.Unpacked

/-!
# Correct rounding

What it means for a double to be a rational number correctly rounded is said
without ranks and steps (`IsRounded`): the double is as near to the number as
any finite double, it is the even one of two that are as near, and from half a
step beyond the largest finite double on it is infinite. A nearest rank is all
of this. Between ranks of one sign that is arithmetic of whole numbers
(`IsNearest.apart_le`); a double of the other sign is no nearer than the one of
the same rank, and as near only where one of the two numbers is zero.

Nothing but the sign of a zero is left open (`IsRounded.unique`): of two doubles
that are as near, both even, there would be one between that is nearer.
-/

namespace Rpn

namespace Binary64

open Decimal (apart)

/-! ## Magnitudes -/

section Magnitudes

variable {r num den : Nat}

/-- No magnitude is nearer than that of the nearest rank, and none is as near
unless the rank is even. -/
theorem IsNearest.apart_le (hden : 0 < den) (h : IsNearest r num den)
    (hr : r < infinityRank) (r' : Nat) :
    apart num (steps r * den) ≤ apart num (steps r' * den) ∧
      (apart num (steps r' * den) = apart num (steps r * den) →
        r' = r ∨ r % 2 = 0) := by
  have hlow := h.low
  have hhigh := h.high hr
  rw [Nat.add_mul] at hlow hhigh
  rw [apart, apart]
  rcases Nat.lt_trichotomy r' r with hlt | rfl | hgt
  · have hle : steps r' * den ≤ steps (r - 1) * den :=
      Nat.mul_le_mul_right den (steps_mono (by omega))
    have hbelow : steps r' * den < steps r * den :=
      Nat.mul_lt_mul_of_pos_right (steps_strictMono hlt) hden
    omega
  · exact ⟨Nat.le_refl _, fun _ => Or.inl rfl⟩
  · have hle : steps (r + 1) * den ≤ steps r' * den :=
      Nat.mul_le_mul_right den (steps_mono hgt)
    have habove : steps r * den < steps r' * den :=
      Nat.mul_lt_mul_of_pos_right (steps_strictMono hgt) hden
    omega

/-- From here on numbers are rounded to infinity: half a step beyond the largest
finite double. -/
def overflow : Nat := 2 ^ 1024 - 2 ^ 970

theorem steps_overflow :
    steps (infinityRank - 1) + steps infinityRank =
      2 * (overflow * oneInSteps) := by decide +kernel

theorem IsNearest.eq_infinityRank_iff (hden : 0 < den)
    (h : IsNearest r num den) :
    r = infinityRank ↔ overflow * oneInSteps * den ≤ num := by
  have heven : infinityRank % 2 = 0 := by decide
  constructor
  · intro hinfinite
    have hlow := h.low
    rw [hinfinite, heven, steps_overflow, Nat.mul_assoc] at hlow
    omega
  · intro hle
    refine h.unique hden ⟨Nat.le_refl _, ?_, fun hlt => ?_⟩
    · rw [heven, steps_overflow, Nat.mul_assoc]
      omega
    · exact absurd hlt (Nat.lt_irrefl _)

theorem IsNearest.eq_zero_iff (hden : 0 < den) (h : IsNearest r num den) :
    r = 0 ↔ 2 * num ≤ den := by
  have hone : (steps 0 + steps (0 + 1)) * den = den := by
    rw [show steps 0 + steps (0 + 1) = 1 by decide, Nat.one_mul]
  constructor
  · rintro rfl
    have hhigh := h.high (by decide)
    omega
  · intro hle
    refine h.unique hden ⟨Nat.zero_le _, ?_, fun _ => ?_⟩
    · rw [Nat.zero_sub, steps_zero]
      omega
    · omega

end Magnitudes

/-! ## Rounded numbers -/

/-- A double is a number correctly rounded. The sign of a zero is left open. -/
structure IsRounded (q : ℚ) (x : Float) : Prop where
  isNegative_of_neg : q < 0 → isNegative x = true
  isNegative_of_pos : 0 < q → isNegative x = false
  isInf : x.isInf = true ↔ overflow ≤ |q|
  isFinite : x.isFinite = true ↔ |q| < overflow
  nearest : x.isFinite = true → ∀ y : Float, y.isFinite = true →
    |toRat x - q| ≤ |toRat y - q|
  /-- The last bit of a double is that of its rank. -/
  even : x.isFinite = true → ∀ y : Float, y.isFinite = true →
    |toRat y - q| = |toRat x - q| → toRat y = toRat x ∨ rank x % 2 = 0

/-- The sign of a number as a factor. -/
def signFactor (negative : Bool) : ℚ :=
  if negative then -1 else 1

theorem abs_signFactor_mul (negative : Bool) (a : ℚ) :
    |signFactor negative * a| = |a| := by
  cases negative with
  | false => simp [signFactor]
  | true => simp [signFactor]

theorem signFactor_mul_natAbs (n : ℤ) :
    signFactor (decide (n < 0)) * (n.natAbs : ℚ) = n := by
  rw [signFactor, Nat.cast_natAbs]
  rcases lt_or_ge n 0 with hneg | hpos
  · simp [hneg, abs_of_neg hneg]
  · simp [not_lt.2 hpos, abs_of_nonneg hpos]

theorem toRat_eq (x : Float) :
    toRat x = signFactor (isNegative x) * (steps (rank x) / oneInSteps) := rfl

theorem oneInSteps_ne_zero : (oneInSteps : ℚ) ≠ 0 :=
  Nat.cast_ne_zero.2 oneInSteps_pos.ne'

theorem magnitude_nonneg (r : Nat) : 0 ≤ (steps r : ℚ) / oneInSteps :=
  div_nonneg (Nat.cast_nonneg _) (Nat.cast_nonneg _)

/-- How far a magnitude is from a quotient, in whole numbers. -/
theorem abs_magnitude_sub (r num : Nat) {den : Nat} (hden : 0 < den) :
    |(steps r : ℚ) / oneInSteps - num / den| =
      (apart (num * oneInSteps) (steps r * den) : ℚ) / (den * oneInSteps) := by
  have hone := oneInSteps_ne_zero
  have hden' : (den : ℚ) ≠ 0 := Nat.cast_ne_zero.2 hden.ne'
  have hpos : (0 : ℚ) ≤ den * oneInSteps :=
    mul_nonneg (Nat.cast_nonneg _) (Nat.cast_nonneg _)
  rw [div_sub_div _ _ hone hden', abs_div, mul_comm (oneInSteps : ℚ) den,
    abs_of_nonneg hpos, apart, Nat.cast_natAbs]
  push_cast
  rw [mul_comm (oneInSteps : ℚ) num]

/-- A double is at least as far from a number as their magnitudes are from each
other. -/
theorem abs_magnitude_sub_le (x : Float) (negative : Bool) {m : ℚ}
    (hm : 0 ≤ m) :
    |(steps (rank x) : ℚ) / oneInSteps - m| ≤
      |toRat x - signFactor negative * m| := by
  have h := abs_abs_sub_abs_le (toRat x) (signFactor negative * m)
  rw [toRat_eq, abs_signFactor_mul, abs_signFactor_mul,
    abs_of_nonneg (magnitude_nonneg _), abs_of_nonneg hm, ← toRat_eq] at h
  exact h

/-- Numbers of unlike signs are as far apart as their magnitudes only if one of
them is zero. -/
theorem eq_zero_of_unlike {negative negative' : Bool} {a m : ℚ} (ha : 0 ≤ a)
    (hm : 0 ≤ m) (hne : negative' ≠ negative)
    (h : |signFactor negative' * a - signFactor negative * m| = |a - m|) :
    a = 0 ∨ m = 0 := by
  have hsum : |signFactor negative' * a - signFactor negative * m| = a + m := by
    rw [← abs_of_nonneg (add_nonneg ha hm)]
    cases negative with
    | false =>
        rw [Bool.eq_true_of_not_eq_false hne, ← abs_neg]
        simp [signFactor, add_comm]
    | true =>
        rw [Bool.eq_false_of_not_eq_true hne]
        simp [signFactor]
  rw [hsum] at h
  rcases abs_cases (a - m) with ⟨habs, _⟩ | ⟨habs, _⟩
  · exact Or.inr (by linarith)
  · exact Or.inl (by linarith)

section Quotients

variable (negative : Bool) (num : Nat) {den : Nat}

theorem abs_signFactor_quotient :
    |signFactor negative * ((num : ℚ) / den)| = num / den := by
  rw [abs_signFactor_mul, abs_of_nonneg (by positivity)]

theorem overflow_le_iff (hden : 0 < den) :
    (overflow : ℚ) ≤ |signFactor negative * ((num : ℚ) / den)| ↔
      nearestRank num den = infinityRank := by
  have hpos : (0 : ℚ) < den := Nat.cast_pos.2 hden
  have hswap : overflow * oneInSteps * den = overflow * den * oneInSteps := by
    ring
  rw [(isNearest_nearestRank num hden).eq_infinityRank_iff hden, hswap,
    Nat.mul_le_mul_right_iff oneInSteps_pos, abs_signFactor_quotient,
    le_div_iff₀ hpos]
  exact_mod_cast Iff.rfl

theorem toRat_ofRank (r : Nat) (hr : r ≤ infinityRank) :
    toRat (ofRank negative r) =
      signFactor negative * (steps r / oneInSteps) := by
  rw [toRat_eq, rank_ofRank hr, isNegative_ofRank hr]

/-- How far a double with the sign of a quotient is from it. -/
theorem abs_toRat_ofRank_sub (hden : 0 < den) {r : Nat}
    (hr : r ≤ infinityRank) :
    |toRat (ofRank negative r) - signFactor negative * (num / den)| =
      (apart (num * oneInSteps) (steps r * den) : ℚ) / (den * oneInSteps) := by
  rw [toRat_ofRank _ _ hr, ← mul_sub, abs_signFactor_mul,
    abs_magnitude_sub r num hden]

/-- How far any double is from it at least. -/
theorem le_abs_toRat_sub (hden : 0 < den) (y : Float) :
    (apart (num * oneInSteps) (steps (rank y) * den) : ℚ) /
        (den * oneInSteps) ≤
      |toRat y - signFactor negative * (num / den)| := by
  rw [← abs_magnitude_sub (rank y) num hden]
  exact abs_magnitude_sub_le y negative (by positivity)

/-- Of the same rank and as near, a double has the same value, or the quotient
is zero. -/
theorem toRat_eq_or_eq_zero (hden : 0 < den) {y : Float}
    (hy : rank y ≤ infinityRank)
    (h : |toRat y - signFactor negative * (num / den)| =
      |toRat (ofRank negative (rank y)) - signFactor negative * (num / den)|) :
    toRat y = toRat (ofRank negative (rank y)) ∨ num = 0 := by
  by_cases hsign : isNegative y = negative
  · rw [← hsign, ofRank_rank]
    exact Or.inl rfl
  · have hm : (0 : ℚ) ≤ (num : ℚ) / den := by positivity
    rw [abs_toRat_ofRank_sub negative num hden hy,
      ← abs_magnitude_sub (rank y) num hden, toRat_eq y] at h
    rcases eq_zero_of_unlike (magnitude_nonneg _) hm hsign h with
      hmagnitude | hnum
    · rw [toRat_eq y, toRat_ofRank _ _ hy, hmagnitude, mul_zero, mul_zero]
      exact Or.inl rfl
    · rw [div_eq_zero_iff, Nat.cast_eq_zero, Nat.cast_eq_zero] at hnum
      exact Or.inr (hnum.resolve_right hden.ne')

theorem nearestRank_of_num_eq_zero (hden : 0 < den) (hnum : num = 0) :
    nearestRank num den = 0 := by
  rw [(isNearest_nearestRank num hden).eq_zero_iff hden, hnum]
  omega

/-- The double of the nearest rank is the quotient correctly rounded. -/
theorem isRounded_nearestRank (hden : 0 < den) :
    IsRounded (signFactor negative * (num / den))
      (ofRank negative (nearestRank num den)) := by
  have hnearest := isNearest_nearestRank num hden
  have hoverflow := overflow_le_iff negative num hden
  have hzero := nearestRank_of_num_eq_zero num hden
  generalize nearestRank num den = r at *
  have hle := hnearest.bound
  have hm : (0 : ℚ) ≤ (num : ℚ) / den := by positivity
  have hscale : (0 : ℚ) < den * oneInSteps :=
    mul_pos (Nat.cast_pos.2 hden) (Nat.cast_pos.2 oneInSteps_pos)
  have hself := abs_toRat_ofRank_sub negative num hden hle
  have hfinite : (ofRank negative r).isFinite = true ↔ r < infinityRank := by
    rw [isFinite_iff, rank_ofRank hle]
  refine ⟨fun hneg => ?_, fun hpos => ?_, ?_, ?_, fun hlt y _ => ?_,
    fun hlt y _ htie => ?_⟩
  · rw [isNegative_ofRank hle]
    cases negative with
    | true => rfl
    | false =>
        rw [signFactor, if_neg Bool.false_ne_true, one_mul] at hneg
        exact absurd hm (not_le.2 hneg)
  · rw [isNegative_ofRank hle]
    cases negative with
    | false => rfl
    | true =>
        rw [signFactor, if_pos rfl, neg_one_mul, neg_pos] at hpos
        exact absurd hm (not_le.2 hpos)
  · rw [isInf_iff, rank_ofRank hle, hoverflow]
  · rw [hfinite, hle.lt_iff_ne, Ne, ← hoverflow, not_le]
  · obtain ⟨hapart, _⟩ := hnearest.apart_le hden (hfinite.1 hlt) (rank y)
    rw [hself]
    refine le_trans ?_ (le_abs_toRat_sub negative num hden y)
    exact div_le_div_of_nonneg_right (Nat.cast_le.2 hapart) hscale.le
  · obtain ⟨hapart, heven⟩ :=
      hnearest.apart_le hden (hfinite.1 hlt) (rank y)
    have hother := le_abs_toRat_sub negative num hden y
    rw [htie, hself, div_le_div_iff_of_pos_right hscale, Nat.cast_le] at hother
    rw [rank_ofRank hle]
    rcases heven (Nat.le_antisymm hother hapart) with rfl | heven
    · refine (toRat_eq_or_eq_zero negative num hden hle htie).imp_right ?_
      intro hnum
      rw [hzero hnum]
    · exact Or.inr heven

/-- What is rounded to zero lies within half of the least positive double. -/
theorem nearestRank_eq_zero_iff (hden : 0 < den) :
    nearestRank num den = 0 ↔
      |signFactor negative * ((num : ℚ) / den)| ≤ 2 ^ (-1075 : ℤ) := by
  have hpos : (0 : ℚ) < den := Nat.cast_pos.2 hden
  have hstep : (2 : ℚ) ^ (-1075 : ℤ) = 1 / (2 * oneInSteps : Nat) := by
    rw [two_in_steps, zpow_neg, Nat.cast_pow, one_div]
    rfl
  have hsteps : (0 : ℚ) < (2 * oneInSteps : Nat) :=
    Nat.cast_pos.2 (Nat.mul_pos Nat.two_pos oneInSteps_pos)
  have hswap : 2 * (num * oneInSteps) = num * (2 * oneInSteps) := by ring
  rw [(isNearest_nearestRank num hden).eq_zero_iff hden,
    abs_signFactor_quotient, hstep, div_le_div_iff₀ hpos hsteps, one_mul, hswap]
  exact_mod_cast Iff.rfl

end Quotients

/-! ## Only one double is a number correctly rounded -/

/-- The value of the double of a rank, negative ranks standing for negative
doubles. Both zeros have the rank zero. -/
def valueAt : ℤ → ℚ
  | .ofNat r => steps r / oneInSteps
  | .negSucc r => -(steps (r + 1) / oneInSteps)

theorem valueAt_neg (r : Nat) : valueAt (-r) = -(steps r / oneInSteps) := by
  cases r with
  | zero => simp [valueAt, steps_zero]
  | succ r => rfl

theorem valueAt_strictMono : StrictMono valueAt := by
  have hpos : (0 : ℚ) < oneInSteps := Nat.cast_pos.2 oneInSteps_pos
  have hstep : ∀ r : Nat,
      (steps r : ℚ) / oneInSteps < steps (r + 1) / oneInSteps := by
    intro r
    exact div_lt_div_of_pos_right (Nat.cast_lt.2 (steps_lt_succ r)) hpos
  refine strictMono_int_of_lt_succ fun k => ?_
  cases k with
  | ofNat r => exact hstep r
  | negSucc r =>
      rw [show Int.negSucc r + 1 = -(r : ℤ) by omega, valueAt_neg]
      exact neg_lt_neg (hstep r)

/-- The rank of a double under its sign. -/
def signedRank (x : Float) : ℤ :=
  if isNegative x then -(rank x : ℤ) else rank x

theorem natAbs_signedRank (x : Float) : (signedRank x).natAbs = rank x := by
  rw [signedRank]
  split
  · omega
  · omega

theorem toRat_eq_valueAt (x : Float) : toRat x = valueAt (signedRank x) := by
  rw [toRat_eq, signedRank, signFactor]
  cases isNegative x with
  | false => simp [valueAt]
  | true => simp [valueAt_neg]

/-- Every rank but those of infinities is that of a finite double. -/
theorem exists_toRat_eq_valueAt {k : ℤ} (h : k.natAbs < infinityRank) :
    ∃ z : Float, z.isFinite = true ∧ toRat z = valueAt k := by
  refine ⟨ofRank (decide (k < 0)) k.natAbs, ?_, ?_⟩
  · rw [isFinite_iff, rank_ofRank h.le]
    exact h
  · rw [toRat_eq_valueAt, signedRank, rank_ofRank h.le, isNegative_ofRank h.le]
    congr 1
    split
    · next hneg =>
        rw [decide_eq_true_eq] at hneg
        omega
    · next hpos =>
        rw [decide_eq_true_eq] at hpos
        omega

theorem exists_between {x y : Float} (hx : x.isFinite = true)
    (hy : y.isFinite = true) (hlt : toRat x < toRat y)
    (hevenx : rank x % 2 = 0) (heveny : rank y % 2 = 0) :
    ∃ z : Float, z.isFinite = true ∧ toRat x < toRat z ∧ toRat z < toRat y := by
  rw [isFinite_iff] at hx hy
  rw [toRat_eq_valueAt, toRat_eq_valueAt, valueAt_strictMono.lt_iff_lt] at hlt
  rw [← natAbs_signedRank] at hx hy hevenx heveny
  obtain ⟨z, hz, hvalue⟩ :=
    exists_toRat_eq_valueAt (show (signedRank x + 1).natAbs < infinityRank by omega)
  refine ⟨z, hz, ?_, ?_⟩
  · rw [hvalue, toRat_eq_valueAt, valueAt_strictMono.lt_iff_lt]
    omega
  · rw [hvalue, toRat_eq_valueAt y, valueAt_strictMono.lt_iff_lt]
    omega

theorem IsRounded.not_toRat_lt {q : ℚ} {x y : Float} (h : IsRounded q x)
    (h' : IsRounded q y) (hx : x.isFinite = true) : ¬ toRat x < toRat y := by
  intro hlt
  have hy : y.isFinite = true := h'.isFinite.2 (h.isFinite.1 hx)
  have htie : |toRat x - q| = |toRat y - q| :=
    le_antisymm (h.nearest hx y hy) (h'.nearest hy x hx)
  obtain ⟨z, hz, hxz, hzy⟩ := exists_between hx hy hlt
    ((h.even hx y hy htie.symm).resolve_left hlt.ne')
    ((h'.even hy x hx htie).resolve_left hlt.ne)
  have hmiddle : toRat x - q = -(toRat y - q) :=
    (abs_eq_abs.1 htie).resolve_left (by intro heq; linarith)
  have hnear : |toRat z - q| < toRat y - q := by
    rw [abs_lt]
    constructor
    · linarith
    · linarith
  have hfar := h'.nearest hy z hz
  linarith [le_abs_self (toRat y - q)]

/-- The sign of a zero apart, only one double is a number correctly rounded. -/
theorem IsRounded.unique {q : ℚ} {x y : Float} (h : IsRounded q x)
    (h' : IsRounded q y) (hsign : isNegative x = isNegative y) : x = y := by
  have hrank : rank x = rank y := by
    cases hfinite : x.isFinite with
    | true =>
        have hfinite' := h'.isFinite.2 (h.isFinite.1 hfinite)
        have hvalue : toRat x = toRat y :=
          le_antisymm (not_lt.1 (h'.not_toRat_lt h hfinite'))
            (not_lt.1 (h.not_toRat_lt h' hfinite))
        rw [toRat_eq_valueAt, toRat_eq_valueAt] at hvalue
        rw [← natAbs_signedRank, valueAt_strictMono.injective hvalue,
          natAbs_signedRank]
    | false =>
        have hlarge : overflow ≤ |q| := by
          rw [← not_lt, ← h.isFinite, hfinite]
          exact Bool.false_ne_true
        rw [isInf_iff.1 (h.isInf.2 hlarge), isInf_iff.1 (h'.isInf.2 hlarge)]
  rw [← ofRank_rank x, ← ofRank_rank y, hrank, hsign]

/-! ## Numbers that need no rounding -/

theorem IsRounded.toRat_eq {q : ℚ} {x y : Float} (h : IsRounded q x)
    (hq : |q| < overflow) (hy : y.isFinite = true) (hvalue : toRat y = q) :
    toRat x = q := by
  have hnearest := h.nearest (h.isFinite.2 hq) y hy
  rw [hvalue, sub_self, abs_zero] at hnearest
  exact sub_eq_zero.1 (abs_eq_zero.1 (le_antisymm hnearest (abs_nonneg _)))

/-- Whole numbers of no more bits than a mantissa are doubles. -/
theorem exists_toRat_eq {n : ℤ} (h : n.natAbs ≤ 2 * binade) :
    ∃ y : Float, y.isFinite = true ∧ toRat y = n := by
  obtain ⟨r, hr⟩ := exists_steps h 1074
  rw [← oneInSteps_eq] at hr
  have hlt : r < infinityRank := by
    have htop : 2 * binade * oneInSteps < steps infinityRank := by
      decide +kernel
    rw [← steps_strictMono.lt_iff_lt, hr]
    exact Nat.lt_of_le_of_lt (Nat.mul_le_mul_right _ h) htop
  refine ⟨ofRank (decide (n < 0)) r, ?_, ?_⟩
  · rw [isFinite_iff, rank_ofRank (Nat.le_of_lt hlt)]
    exact hlt
  · rw [toRat_ofRank _ _ (Nat.le_of_lt hlt), hr, Nat.cast_mul,
      mul_div_cancel_right₀ _ oneInSteps_ne_zero]
    exact signFactor_mul_natAbs n

end Binary64

namespace Decimal

open Binary64

theorem toRat_eq_quotient (d : Decimal) :
    d.toRat = signFactor d.negative * (d.numerator / d.denominator) := by
  have hpow : (10 : ℚ) ^ d.exponent =
      10 ^ d.exponent.toNat / 10 ^ (-d.exponent).toNat := by
    rw [← zpow_natCast, ← zpow_natCast, ← zpow_sub₀ (by norm_num)]
    congr 1
    omega
  rw [toRat, signFactor, numerator, denominator, hpow, mul_div_assoc']
  push_cast
  rfl

/-- The double of a decimal is its value correctly rounded, under its sign. -/
theorem isRounded_toFloat (d : Decimal) : IsRounded d.toRat d.toFloat := by
  rw [toRat_eq_quotient, toFloat, rank_eq]
  exact isRounded_nearestRank d.negative d.numerator d.denominator_pos

theorem isNegative_toFloat (d : Decimal) :
    isNegative d.toFloat = d.negative :=
  (negative_of_toFloat rfl).symm

theorem toFloat_eq_zero_iff (d : Decimal) :
    (d.toFloat == 0) = true ↔ |d.toRat| ≤ 2 ^ (-1075 : ℤ) := by
  rw [beq_zero_iff, toFloat, rank_ofRank d.rank_le, rank_eq,
    nearestRank_eq_zero_iff d.negative d.numerator d.denominator_pos,
    toRat_eq_quotient]

end Decimal

end Rpn
