import Mathlib.Algebra.Ring.Int.Parity
import Rpn.Operation.Arithmetic
import Rpn.Proofs.FewestDigits
import Rpn.Proofs.Sum

/-!
# Which doubles count as odd

Whether a double is odd is asked of its remainder by two, and that remainder has
been rounded. Under the double's own sign the remainder is a double already
(`steps_nearestRank_remainder`), so nothing is rounded unless the double is
negative and two is added. There one double goes wrong (`isOdd_iff`): for the one
next to minus one the sum lies half way between one and the double above it, and
one is the even neighbour.
-/

namespace Rpn

open Binary64

namespace Binary64

/-! ## Magnitudes -/

theorem nearestRank_steps_eq_iff {n r : Nat} :
    nearestRank n oneInSteps = r ↔ IsNearest r n 1 := by
  rw [nearestRank_eq_iff oneInSteps_pos]
  constructor
  · intro hscaled
    refine IsNearest.of_scale oneInSteps_pos ?_
    rwa [Nat.one_mul]
  · intro hnearest
    have hscaled := hnearest.scale oneInSteps_pos
    rwa [Nat.one_mul] at hscaled

theorem isNearest_steps {r : Nat} (h : r ≤ infinityRank) :
    IsNearest r (steps r) 1 := by
  have hnext := steps_lt_succ r
  refine ⟨h, ?_, fun _ => by omega⟩
  rcases Nat.eq_zero_or_pos r with rfl | hpos
  · decide
  · have hbefore := steps_lt_succ (r - 1)
    rw [Nat.sub_add_cancel hpos] at hbefore
    omega

/-! ## Remainders by two -/

theorem exists_remainder (r k : Nat) : ∃ r', steps r' = steps r % 2 ^ k := by
  rw [steps_eq_mantissa]
  rcases Nat.lt_or_ge k (spacing r) with hlarge | hsmall
  · have hdvd : 2 ^ k ∣ mantissa r * 2 ^ spacing r :=
      Dvd.dvd.mul_left (Nat.pow_dvd_pow 2 (Nat.le_of_lt hlarge)) _
    exact ⟨0, by rw [steps_zero, Nat.mod_eq_zero_of_dvd hdvd]⟩
  · have hpow : 2 ^ k = 2 ^ (k - spacing r) * 2 ^ spacing r := by
      rw [← Nat.pow_add, Nat.sub_add_cancel hsmall]
    have hlt : mantissa r % 2 ^ (k - spacing r) < 2 * binade :=
      Nat.lt_of_le_of_lt (Nat.mod_le _ _) (mantissa_lt r)
    rw [hpow, Nat.mul_mod_mul_right]
    exact exists_steps (Nat.le_of_lt hlt) (spacing r)

theorem two_at_rank :
    (0 < rank 2 ∧ rank 2 < infinityRank) ∧
      isNegative 2 = false ∧ steps (rank 2) = 2 * oneInSteps := by
  decide +kernel

theorem remainder_lt (r : Nat) :
    steps r % (2 * oneInSteps) < 2 * oneInSteps :=
  Nat.mod_lt _ (Nat.mul_pos Nat.two_pos oneInSteps_pos)

/-- The remainder of a magnitude by two is a magnitude. -/
theorem steps_nearestRank_remainder (r : Nat) :
    nearestRank (steps r % (2 * oneInSteps)) oneInSteps < infinityRank ∧
      steps (nearestRank (steps r % (2 * oneInSteps)) oneInSteps) =
        steps r % (2 * oneInSteps) := by
  obtain ⟨r', hr'⟩ := exists_remainder r 1075
  rw [← two_in_steps] at hr'
  obtain ⟨⟨_, hfinite⟩, _, htwo⟩ := two_at_rank
  have hlt : r' < rank 2 := by
    rw [← steps_strictMono.lt_iff_lt, hr', htwo]
    exact remainder_lt r
  have hlt' := Nat.lt_trans hlt hfinite
  have hnearest := isNearest_steps (Nat.le_of_lt hlt')
  rw [hr', ← nearestRank_steps_eq_iff] at hnearest
  rw [hnearest]
  exact ⟨hlt', hr'⟩

/-- The rank below that of one. -/
def belowOne : Nat := oneRank - 1

theorem steps_oneRank : steps oneRank = oneInSteps := by decide +kernel

/-- Above one the doubles are twice as far apart as below. -/
theorem steps_around_one :
    steps (oneRank + 1) + 2 * steps belowOne = 3 * steps oneRank := by
  decide +kernel

theorem steps_belowOne_lt : steps belowOne < oneInSteps := by
  rw [← steps_oneRank]
  exact steps_lt_succ belowOne

/-- Two less a magnitude is rounded to one if the magnitude is one, and also if
it is the one below. -/
theorem nearestRank_two_sub {r : Nat} (h : steps r < 2 * oneInSteps) :
    nearestRank (2 * oneInSteps - steps r) oneInSteps = oneRank ↔
      r = oneRank ∨ r = belowOne := by
  have hbelow := steps_belowOne_lt
  have habove := steps_around_one
  have hsucc : oneRank = belowOne + 1 := rfl
  have heven : oneRank % 2 = 0 := by decide
  have hpred : oneRank - 1 = belowOne := rfl
  rw [nearestRank_steps_eq_iff]
  rw [← steps_oneRank] at h hbelow ⊢
  constructor
  · rintro ⟨_, hlow, hhigh⟩
    have hhigh := hhigh (by decide)
    rw [hpred] at hlow
    have hge : belowOne ≤ r := steps_strictMono.le_iff_le.1 (by omega)
    have hlt : r < oneRank + 1 := steps_strictMono.lt_iff_lt.1 (by omega)
    omega
  · intro hcases
    have hsteps : steps r = steps oneRank ∨ steps r = steps belowOne :=
      hcases.imp (congrArg steps) (congrArg steps)
    refine ⟨by decide, ?_, fun _ => ?_⟩
    · rw [hpred]
      omega
    · omega

theorem ofRank_add_two {r : Nat} (hpos : 0 < r) (hlt : r < infinityRank)
    (h : steps r < 2 * oneInSteps) :
    ofRank true r + 2 =
      ofRank false (nearestRank (2 * oneInSteps - steps r) oneInSteps) := by
  have hle := Nat.le_of_lt hlt
  obtain ⟨⟨hpos', hlt'⟩, hsign, htwo⟩ := two_at_rank
  have htwo' : signedSteps 2 = (2 * oneInSteps : Nat) := by
    rw [signedSteps, hsign, htwo]
    rfl
  have hsigned : signedSteps (ofRank true r) = -(steps r : Int) := by
    rw [signedSteps, rank_ofRank hle, isNegative_ofRank hle]
    rfl
  have hnonneg : ¬ -(steps r : Int) + (2 * oneInSteps : Nat) < 0 := by omega
  have habs : (-(steps r : Int) + (2 * oneInSteps : Nat)).natAbs =
      2 * oneInSteps - steps r := by omega
  rw [add_eq (by rwa [rank_ofRank hle]) (by rwa [rank_ofRank hle]) hpos' hlt',
    hsigned, htwo', ofSteps, decide_eq_false hnonneg, habs]

end Binary64

namespace Arithmetic

variable {x : Float}

/-- Whether the remainder by two is one can be told from the magnitude. -/
theorem isOdd_iff_steps (hfinite : rank x < infinityRank) :
    isOdd x = true ↔
      steps (rank x) % (2 * oneInSteps) = oneInSteps ∨
        isNegative x = true ∧
          steps (rank x) % (2 * oneInSteps) = steps belowOne := by
  obtain ⟨hlt, hsteps⟩ := steps_nearestRank_remainder (rank x)
  have hremainder := remainder_lt (rank x)
  rw [isOdd, remainderByTwo, if_pos (isFinite_iff.2 hfinite),
    signedRemainderByTwo]
  generalize nearestRank (steps (rank x) % (2 * oneInSteps)) oneInSteps = r at *
  rw [← hsteps] at hremainder ⊢
  have hle := Nat.le_of_lt hlt
  have hone : steps r = oneInSteps ↔ r = oneRank := by
    rw [← steps_oneRank]
    exact steps_strictMono.injective.eq_iff
  have hbelow : steps r = steps belowOne ↔ r = belowOne :=
    steps_strictMono.injective.eq_iff
  have hpos : 0 < belowOne ∧ belowOne < oneRank := by decide
  rw [hone, hbelow]
  by_cases hneg : isNegative x = true ∧ 0 < r
  · obtain ⟨hsign, hr⟩ := hneg
    have hnegative : ofRank true r < 0 := by
      rw [lt_zero_iff, isNegative_ofRank hle, rank_ofRank hle]
      exact ⟨rfl, hr, hle⟩
    have hbound : nearestRank (2 * oneInSteps - steps r) oneInSteps ≤
        infinityRank := (isNearest_nearestRank _ oneInSteps_pos).bound
    simp only [hsign, if_pos hnegative]
    rw [ofRank_add_two hr hlt hremainder, beq_one_iff, isNegative_ofRank hbound,
      rank_ofRank hbound, nearestRank_two_sub hremainder]
    simp only [true_and]
  · have hnonnegative : ¬ ofRank (isNegative x) r < 0 := by
      rw [lt_zero_iff, isNegative_ofRank hle, rank_ofRank hle]
      exact fun h => hneg ⟨h.1, h.2.1⟩
    simp only [if_neg hnonnegative]
    rw [beq_one_iff, isNegative_ofRank hle, rank_ofRank hle]
    cases hsign : isNegative x with
    | false => simp
    | true =>
        have hzero : r = 0 := by
          rw [hsign] at hneg
          simpa using hneg
        rw [hzero]
        simp only [Bool.true_eq_false, false_and, true_and, false_iff]
        omega

end Arithmetic

namespace Binary64

/-! ## Odd whole numbers -/

/-- Whether a finite double is a whole number. -/
def IsInteger (x : Float) : Prop :=
  x.isFinite = true ∧ ∃ n : ℤ, toRat x = n

/-- Whether a finite double is an odd whole number. -/
def IsOddInteger (x : Float) : Prop :=
  x.isFinite = true ∧ ∃ n : ℤ, Odd n ∧ toRat x = n

variable {x : Float}

theorem IsOddInteger.isInteger (h : IsOddInteger x) : IsInteger x := by
  obtain ⟨hfinite, n, _, hvalue⟩ := h
  exact ⟨hfinite, n, hvalue⟩

theorem toRat_eq_iff {n : ℤ} : toRat x = n ↔ signedSteps x = n * oneInSteps := by
  have hone : (oneInSteps : ℚ) ≠ 0 := by exact_mod_cast oneInSteps_pos.ne'
  have hvalue : toRat x = (signedSteps x : ℚ) / oneInSteps := by
    rw [toRat, signedSteps, signOf]
    cases isNegative x with
    | false => simp [Float.Model.UnpackedFloat.Sign.apply]
    | true => simp [Float.Model.UnpackedFloat.Sign.apply, neg_div]
  rw [hvalue, div_eq_iff hone]
  exact_mod_cast Iff.rfl

/-- A property of whole numbers that does not depend on the sign holds of a
double if it holds of its magnitude. -/
theorem exists_toRat_iff {p : ℤ → Prop} (hp : ∀ n, p (-n) ↔ p n) :
    (∃ n : ℤ, p n ∧ toRat x = n) ↔
      ∃ n : ℕ, p n ∧ steps (rank x) = n * oneInSteps := by
  have habs : (signedSteps x).natAbs = steps (rank x) := by
    rw [signedSteps, signOf]
    cases isNegative x with
    | false => exact Int.natAbs_natCast _
    | true => exact (Int.natAbs_neg _).trans (Int.natAbs_natCast _)
  constructor
  · rintro ⟨n, hn, hvalue⟩
    refine ⟨n.natAbs, ?_, ?_⟩
    · rcases Int.natAbs_eq n with hsame | hsame
      · rwa [← hsame]
      · rw [hsame, hp] at hn
        exact hn
    · rw [← habs, toRat_eq_iff.1 hvalue, Int.natAbs_mul, Int.natAbs_natCast]
  · rintro ⟨n, hn, hsteps⟩
    cases hsign : isNegative x with
    | false =>
        refine ⟨n, hn, toRat_eq_iff.2 ?_⟩
        rw [signedSteps, hsign, hsteps]
        push_cast
        rfl
    | true =>
        refine ⟨-n, (hp n).2 hn, toRat_eq_iff.2 ?_⟩
        rw [signedSteps, hsign, hsteps, Int.neg_mul]
        push_cast
        rfl

theorem isInteger_iff :
    IsInteger x ↔ x.isFinite = true ∧ Arithmetic.isWhole x = true := by
  have hwhole : (∃ n : ℤ, toRat x = n) ↔ steps (rank x) % oneInSteps = 0 := by
    have hexists := exists_toRat_iff (x := x) (p := fun _ => True) fun _ => Iff.rfl
    simp only [true_and] at hexists
    rw [hexists]
    constructor
    · rintro ⟨n, hn⟩
      rw [hn, Nat.mul_mod_left]
    · intro hmod
      exact ⟨_, (Nat.div_mul_cancel (Nat.dvd_of_mod_eq_zero hmod)).symm⟩
  rw [IsInteger, hwhole, Arithmetic.isWhole, decide_eq_true_iff]

instance (x : Float) : Decidable (IsInteger x) :=
  decidable_of_iff' _ isInteger_iff

theorem isOddInteger_iff :
    IsOddInteger x ↔ x.isFinite = true ∧ Arithmetic.isOddWhole x = true := by
  have hodd : (∃ n : ℤ, Odd n ∧ toRat x = n) ↔
      steps (rank x) % (2 * oneInSteps) = oneInSteps := by
    rw [exists_toRat_iff fun n => odd_neg]
    constructor
    · rintro ⟨n, hn, hsteps⟩
      have hmod : n % 2 = 1 := Nat.odd_iff.1 ((Int.odd_coe_nat n).1 hn)
      rw [hsteps, Nat.mul_mod_mul_right, hmod, Nat.one_mul]
    · intro hmod
      have hdiv := Nat.div_add_mod (steps (rank x)) (2 * oneInSteps)
      rw [hmod] at hdiv
      refine ⟨2 * (steps (rank x) / (2 * oneInSteps)) + 1, ?_, ?_⟩
      · push_cast
        exact odd_two_mul_add_one _
      · refine hdiv.symm.trans ?_
        ring
  rw [IsOddInteger, hodd, Arithmetic.isOddWhole, decide_eq_true_iff]

instance (x : Float) : Decidable (IsOddInteger x) :=
  decidable_of_iff' _ isOddInteger_iff

/-- The double next to minus one on the side of zero. -/
def aboveMinusOne : Float := ofRank true belowOne

theorem eq_aboveMinusOne_iff :
    x = aboveMinusOne ↔ isNegative x = true ∧ rank x = belowOne := by
  have hle : belowOne ≤ infinityRank := by decide
  constructor
  · rintro rfl
    exact ⟨isNegative_ofRank hle, rank_ofRank hle⟩
  · rintro ⟨hsign, hrank⟩
    rw [← ofRank_rank x, hsign, hrank]
    rfl

theorem two_pow_dvd_remainder {r s k : Nat} (hs : s ≤ spacing r) (hk : s ≤ k) :
    2 ^ s ∣ steps r % 2 ^ k := by
  rw [steps_eq_mantissa]
  exact (Nat.dvd_mod_iff (Nat.pow_dvd_pow 2 hk)).2
    (Dvd.dvd.mul_left (Nat.pow_dvd_pow 2 hs) _)

/-- Only the rank below one has its remainder by two. From one on, the spacing
is too large. -/
theorem remainder_eq_belowOne_iff {r : Nat} :
    steps r % (2 * oneInSteps) = steps belowOne ↔ r = belowOne := by
  constructor
  · intro h
    rcases Nat.lt_or_ge r oneRank with hlow | hhigh
    · have hsmall : steps r < 2 * oneInSteps := by
        have hlt := steps_strictMono hlow
        rw [steps_oneRank] at hlt
        omega
      rw [Nat.mod_eq_of_lt hsmall] at h
      exact steps_strictMono.injective h
    · exfalso
      have hspacing : 1022 ≤ spacing r := by
        have hdiv : 1023 ≤ r / binade :=
          (Nat.le_div_iff_mul_le binade_pos).2 hhigh
        rw [spacing]
        omega
      have hdvd := two_pow_dvd_remainder (k := 1075) hspacing (by decide)
      rw [← two_in_steps, h] at hdvd
      exact absurd hdvd (by decide +kernel)
  · rintro rfl
    have hbelow := steps_belowOne_lt
    exact Nat.mod_eq_of_lt (by omega)

end Binary64

namespace Arithmetic

variable {x : Float}

theorem isOdd_of_not_finite (h : ¬ x.isFinite = true) : isOdd x = false := by
  rw [isOdd, remainderByTwo, if_neg h]
  decide +kernel

/-- The remainder by two is one for odd whole numbers, and for one double more.
-/
theorem isOdd_iff : isOdd x = true ↔ IsOddInteger x ∨ x = aboveMinusOne := by
  by_cases hfinite : rank x < infinityRank
  · rw [isOdd_iff_steps hfinite, isOddInteger_iff, eq_aboveMinusOne_iff,
      remainder_eq_belowOne_iff, isFinite_iff, and_iff_right hfinite, isOddWhole,
      decide_eq_true_iff]
  · rw [isOdd_of_not_finite (mt isFinite_iff.1 hfinite), IsOddInteger,
      isFinite_iff, eq_aboveMinusOne_iff]
    have hbelow : belowOne < infinityRank := by decide
    refine iff_of_false Bool.false_ne_true ?_
    rintro (⟨hlt, _⟩ | ⟨_, hrank⟩)
    · exact hfinite hlt
    · exact hfinite (hrank ▸ hbelow)

end Arithmetic

end Rpn
