import Rpn.Decimal.Shortest
import Rpn.Proofs.Bits
import Rpn.Proofs.Nearest

/-!
# The shortest decimal reads back

A decimal has the double nearest to it, whatever its exponent. `Decimal.rank`
answers far exponents outright, and `rank_eq` says that this is a shortcut and
nothing more: the power of ten that it avoids would have led to the same rank.
After that the rank of a decimal is a matter of its value, and zeros may be
moved between the coefficient and the exponent (`rank_shift`), as a layout
does.

The search for the shortest decimal of a double keeps one invariant on every
grid: what it answers lies in the interval of the numbers that round to the
double. On the finest grid the double itself is a candidate, so there always is
an answer, and `toFloat_shortest` follows: reading the decimal of a finite
double gives the double back, signed zeros included.
-/

namespace Rpn

open Binary64

namespace Decimal

/-! ## The value of a decimal -/

/-- The value of a decimal as a quotient, without its sign. -/
def numerator (d : Decimal) : Nat :=
  d.coefficient * 10 ^ d.exponent.toNat

def denominator (d : Decimal) : Nat :=
  10 ^ (-d.exponent).toNat

theorem denominator_pos (d : Decimal) : 0 < d.denominator :=
  Nat.pow_pos (by decide)

theorem nearestRank_zero {den : Nat} (hden : 0 < den) :
    nearestRank 0 den = 0 := by
  refine (nearestRank_eq_iff hden).2 ⟨Nat.zero_le _, ?_, fun _ => ?_⟩
  · rw [Nat.zero_sub, steps_zero]
    omega
  · omega

/-- Ten to the 401 lies far above the largest double. -/
theorem nearestRank_huge {d : Decimal} (hpos : 0 < d.coefficient)
    (h : 400 < d.exponent) :
    nearestRank d.numerator d.denominator = infinityRank := by
  refine (nearestRank_eq_iff d.denominator_pos).2
    ⟨Nat.le_refl _, ?_, fun hlt => absurd hlt (Nat.lt_irrefl _)⟩
  have hden : d.denominator = 1 := by
    rw [denominator, Int.toNat_eq_zero.2 (by omega), Nat.pow_zero]
  have hnum : 10 ^ 401 ≤ d.numerator := by
    have hpow : 10 ^ 401 ≤ 10 ^ d.exponent.toNat :=
      pow_le_pow_right₀ (by decide) (by omega)
    exact Nat.le_trans hpow (Nat.le_mul_of_pos_left _ hpos)
  have hmono : steps (infinityRank - 1) ≤ steps infinityRank :=
    steps_mono (Nat.sub_le _ 1)
  have htop : steps infinityRank ≤ 10 ^ 401 * oneInSteps := by
    decide +kernel
  have hscaled := Nat.mul_le_mul_right oneInSteps hnum
  have heven : infinityRank % 2 = 0 := by decide
  rw [hden, Nat.mul_one, heven]
  omega

/-- Below ten to the minus 400 all is nearest to zero. -/
theorem nearestRank_tiny {d : Decimal}
    (h : d.exponent + (d.coefficient.log2 + 1 : Nat) < -400) :
    nearestRank d.numerator d.denominator = 0 := by
  refine (nearestRank_eq_iff d.denominator_pos).2
    ⟨Nat.zero_le _, ?_, fun _ => ?_⟩
  · rw [Nat.zero_sub, steps_zero]
    omega
  have hnum : d.numerator = d.coefficient := by
    rw [numerator, Int.toNat_eq_zero.2 (by omega), Nat.pow_zero, Nat.mul_one]
  have hcoefficient : d.coefficient ≤ 10 ^ (d.coefficient.log2 + 1) :=
    Nat.le_trans (Nat.le_of_lt Nat.lt_log2_self)
      (Nat.pow_le_pow_left (by decide) _)
  have hstep : 2 * oneInSteps ≤ 10 ^ 400 := by decide +kernel
  have hsteps : (steps 0 + steps (0 + 1)) * d.denominator = d.denominator := by
    rw [show steps 0 + steps (0 + 1) = 1 by decide, Nat.one_mul]
  rw [hsteps, hnum, Nat.zero_mod, Nat.add_zero]
  calc 2 * (d.coefficient * oneInSteps)
      = d.coefficient * (2 * oneInSteps) := by ring
    _ ≤ 10 ^ (d.coefficient.log2 + 1) * 10 ^ 400 :=
        Nat.mul_le_mul hcoefficient hstep
    _ = 10 ^ (d.coefficient.log2 + 1 + 400) :=
        (pow_add 10 (d.coefficient.log2 + 1) 400).symm
    _ ≤ d.denominator := Nat.pow_le_pow_right (by decide) (by omega)

/-- The rank of a decimal is the one nearest to its value. -/
theorem rank_eq (d : Decimal) :
    d.rank = nearestRank d.numerator d.denominator := by
  rw [rank]
  split
  · next hzero =>
      rw [numerator, hzero, Nat.zero_mul, nearestRank_zero d.denominator_pos]
  · next hzero =>
      split
      · next hhuge => rw [nearestRank_huge (Nat.pos_of_ne_zero hzero) hhuge]
      · split
        · next htiny => rw [nearestRank_tiny htiny]
        · split
          · next hsign =>
              rw [numerator, denominator,
                Int.toNat_eq_zero.2 (show -d.exponent ≤ 0 by omega),
                Nat.pow_zero, Nat.pow_eq]
          · next hsign =>
              rw [numerator, denominator,
                Int.toNat_eq_zero.2 (show d.exponent ≤ 0 by omega),
                Nat.pow_zero, Nat.mul_one, Nat.pow_eq]

/-- Decimals of the same value have the same rank. -/
theorem rank_congr {d d' : Decimal}
    (h : d.numerator * d'.denominator = d'.numerator * d.denominator) :
    d.rank = d'.rank := by
  rw [rank_eq, rank_eq]
  exact nearestRank_congr d.denominator_pos d'.denominator_pos h

/-- Zeros at the end of a coefficient may go into the exponent. -/
theorem rank_shift {negative negative' : Bool} {coefficient zeros : Nat}
    {exponent : Int} :
    rank ⟨negative, coefficient * 10 ^ zeros, exponent⟩ =
      rank ⟨negative', coefficient, exponent + zeros⟩ := by
  refine rank_congr ?_
  simp only [numerator, denominator]
  have hpow : zeros + exponent.toNat + (-(exponent + zeros)).toNat =
      (exponent + zeros).toNat + (-exponent).toNat := by omega
  calc coefficient * 10 ^ zeros * 10 ^ exponent.toNat *
        10 ^ (-(exponent + zeros)).toNat
      = coefficient *
        10 ^ (zeros + exponent.toNat + (-(exponent + zeros)).toNat) := by
          rw [Nat.pow_add, Nat.pow_add]
          ring
    _ = coefficient * 10 ^ (exponent + zeros).toNat *
        10 ^ (-exponent).toNat := by
          rw [hpow, Nat.pow_add]
          ring

/-! ## The digits of a decimal -/

/-- The digits of the coefficient. -/
def digits (d : Decimal) : List Char :=
  Nat.toDigits 10 d.coefficient

def length (d : Decimal) : Nat :=
  d.digits.length

/-- The power of ten that the first digit stands for. -/
def lead (d : Decimal) : Int :=
  d.exponent + d.length - 1

theorem length_pos (d : Decimal) : 0 < d.length := Nat.length_toDigits_pos

/-! ## The search stays in the interval -/

theorem units_eq : 10 ^ 1074 = stepInUnits * oneInSteps := by decide +kernel

theorem stepInUnits_pos : 0 < stepInUnits := by decide +kernel

theorem Basin.contains_ofRank {r n : Nat} :
    (Basin.ofRank r).contains n = true ↔
      (steps (r - 1) + steps r) * stepInUnits + r % 2 ≤ 2 * n ∧
        2 * n + r % 2 ≤ (steps r + steps (r + 1)) * stepInUnits := by
  rw [Basin.ofRank, Basin.contains]
  simp only []
  generalize (steps (r - 1) + steps r) * stepInUnits = low
  generalize (steps r + steps (r + 1)) * stepInUnits = high
  rcases Nat.mod_two_eq_zero_or_one r with h | h
  · rw [h, decide_eq_true rfl, if_pos rfl, Bool.and_eq_true, decide_eq_true_eq,
      decide_eq_true_eq]
    omega
  · rw [h, decide_eq_false (by decide), if_neg (by decide), Bool.and_eq_true,
      decide_eq_true_eq, decide_eq_true_eq]
    omega

/-- A double lies inside its own interval. -/
theorem Basin.contains_self {r : Nat} (h : 0 < r) :
    (Basin.ofRank r).contains (steps r * stepInUnits) = true := by
  have hlow : steps (r - 1) < steps r := steps_strictMono (by omega)
  have hhigh := steps_lt_succ r
  have hodd := Nat.mod_lt r (by decide : 0 < 2)
  have hlow' := Nat.mul_le_mul_right stepInUnits
    (show steps (r - 1) + steps r + 1 ≤ 2 * steps r by omega)
  have hhigh' := Nat.mul_le_mul_right stepInUnits
    (show 2 * steps r + 1 ≤ steps r + steps (r + 1) by omega)
  have hpos := stepInUnits_pos
  rw [Nat.add_mul _ 1, Nat.one_mul, Nat.mul_assoc] at hlow' hhigh'
  refine Basin.contains_ofRank.2 ⟨?_, ?_⟩
  · omega
  · omega

theorem Basin.contains_of_nearestOn {b : Basin} {units grid c : Nat}
    (h : b.nearestOn? units grid = some c) :
    b.contains (c * grid) = true := by
  rw [Basin.nearestOn?] at h
  split at h
  · next hbelow habove =>
      injection h with h
      have hle := roundQuotient_le units grid
      have hge := le_roundQuotient units grid
      have hcases : c = units / grid ∨ c = units / grid + 1 := by omega
      rcases hcases with rfl | rfl
      · exact hbelow
      · exact habove
  · next hbelow _ => injection h with h; exact h ▸ hbelow
  · next _ habove => injection h with h; exact h ▸ habove
  · cases h

/-- On every grid that the search comes to, it answers inside the interval. -/
theorem Basin.contains_search {b : Basin} {units : Nat}
    (h : b.contains units = true) (j : Nat) :
    b.contains ((b.search units j).1 * 10 ^ (b.search units j).2) = true := by
  induction j with
  | zero =>
      rw [Basin.search, Nat.pow_zero, Nat.mul_one]
      exact h
  | succ j ih =>
      rw [Basin.search]
      split
      · next c hc => exact contains_of_nearestOn hc
      · exact ih

/-- The rank of a decimal that is a whole number of units. -/
theorem rank_units (negative : Bool) (coefficient power : Nat) :
    rank ⟨negative, coefficient, (power : Int) - 1074⟩ =
      nearestRank (coefficient * 10 ^ power) (stepInUnits * oneInSteps) := by
  have hden := Nat.mul_pos stepInUnits_pos oneInSteps_pos
  rw [rank_eq]
  refine nearestRank_congr (denominator_pos _) hden ?_
  simp only [numerator, denominator]
  have hpow : ((power : Int) - 1074).toNat + 1074 =
      power + (-((power : Int) - 1074)).toNat := by omega
  rw [← units_eq, Nat.mul_assoc, ← pow_add, hpow, pow_add, Nat.mul_assoc]

/-- The decimals of a rank are those in its interval. -/
theorem rank_eq_iff_contains {negative : Bool} {r coefficient power : Nat}
    (hr : r < infinityRank) :
    rank ⟨negative, coefficient, (power : Int) - 1074⟩ = r ↔
      (Basin.ofRank r).contains (coefficient * 10 ^ power) = true := by
  rw [rank_units,
    nearestRank_eq_iff (Nat.mul_pos stepInUnits_pos oneInSteps_pos),
    Basin.contains_ofRank]
  refine ⟨fun h => ?_, fun h => ?_⟩
  · have hnearest := h.of_scale oneInSteps_pos
    exact ⟨hnearest.low, hnearest.high hr⟩
  · have hnearest : IsNearest r (coefficient * 10 ^ power) stepInUnits :=
      ⟨Nat.le_of_lt hr, h.1, fun _ => h.2⟩
    exact hnearest.scale oneInSteps_pos

theorem contains_coarsest {r : Nat} (h : 0 < r) :
    (Basin.ofRank r).contains ((coarsest r).1 * 10 ^ (coarsest r).2) = true :=
  Basin.contains_search (Basin.contains_self h)
    (powerAbove (steps r * stepInUnits))

theorem rank_shortest {x : Float} (h : Binary64.rank x < infinityRank) :
    (shortest x).rank = Binary64.rank x := by
  rw [shortest]
  by_cases hzero : Binary64.rank x = 0
  · rw [if_pos hzero, rank, if_pos rfl, hzero]
  · rw [if_neg hzero]
    exact (rank_eq_iff_contains h).2
      (contains_coarsest (Nat.pos_of_ne_zero hzero))

theorem negative_shortest (x : Float) :
    (shortest x).negative = isNegative x := by
  rw [shortest]
  split
  · rfl
  · rfl

/-- Reading the shortest decimal of a finite double gives the double back. -/
theorem toFloat_shortest {x : Float} (h : Binary64.rank x < infinityRank) :
    (shortest x).toFloat = x := by
  rw [toFloat, rank_shortest h, negative_shortest, ofRank_rank]

end Decimal

end Rpn
