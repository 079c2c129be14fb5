import Rpn.Proofs.KeptBits
import Rpn.Proofs.Rounding

/-!
# A quotient is rounded once, under the product of the signs

The library divides two mantissas only so far that rounding can go on from there
(`exists_divCore`), and so the quotient of two finite doubles is the double
nearest to the exact quotient of what they stand for (`div_eq`).

Signs and magnitudes do not meet in a quotient: whether there is one and how
large it is can be told from the ranks of the operands (`quotientRank?`), and its
sign from theirs alone. `div_eq_ofRank?` says so of all doubles the library
divides by, zero apart, which no caller divides by.
-/

namespace Rpn

namespace Binary64

open Float.Model Float.Model.UnpackedFloat

/-! ## Dividing mantissas -/

theorem log2_le_div (num : Nat) {den : Nat} (hden : 0 < den) :
    num.log2 ≤ (num / den).log2 + den.log2 + 1 := by
  rcases Nat.eq_zero_or_pos num with rfl | hpos
  · rw [Nat.log2_zero]
    omega
  have hquotient : num / den < 2 ^ ((num / den).log2 + 1) := Nat.lt_log2_self
  have hden' : den < 2 ^ (den.log2 + 1) := Nat.lt_log2_self
  have hlt : num < 2 ^ ((num / den).log2 + den.log2 + 2) := calc
    num < (num / den + 1) * den := by
        rw [Nat.mul_comm]
        exact Nat.lt_mul_div_succ num hden
    _ ≤ 2 ^ ((num / den).log2 + 1) * 2 ^ (den.log2 + 1) :=
        Nat.mul_le_mul hquotient (Nat.le_of_lt hden')
    _ = 2 ^ ((num / den).log2 + den.log2 + 2) := by
        rw [← Nat.pow_add]
        congr 1
        omega
  exact Nat.le_of_lt_succ ((Nat.log2_lt (Nat.ne_of_gt hpos)).2 hlt)

/-- The library takes some more bits of the dividend, and then no bit is missing
that is kept in the end. -/
theorem exists_divCore {m n : Nat} (hm : 0 < m) (hn : 0 < n) (s s' : Nat) :
    ∃ t, divCore Format.binary64 m ((s : Int) - 1074) n ((s' : Int) - 1074) =
        (m * 2 ^ t / n, ((s + 1074 : Nat) : Int) - (s' + t : Nat) - 1074,
          accuracyOfFraction (m * 2 ^ t % n) n) ∧
      s + 1074 ≤ s' + t +
        ((m * 2 ^ t / n).log2 + (s + 1074) - (s' + t) - 52) := by
  let target : Int := min ((s : Int) - s')
    (max ((m.log2 : Int) - n.log2 + s - s' - 53) (-1074))
  let t := ((s : Int) - s' - target).toNat
  have htarget : min ((s : Int) - 1074 - (s' - 1074))
      (Format.binary64.targetExponent (totalExponent m ((s : Int) - 1074) -
        totalExponent n ((s' : Int) - 1074))) = target := by
    show min _ (max ((m.log2 : Int) + 1 + (s - 1074) -
      (n.log2 + 1 + (s' - 1074)) - 53) (-1074)) = _
    simp only [target]
    omega
  have hshift : ((s : Int) - 1074 - (s' - 1074) - target).toNat = t := by
    simp only [t]
    omega
  have hlog := log2_le_div (m * 2 ^ t) hn
  rw [log2_mul_two_pow hm] at hlog
  refine ⟨t, ?_, ?_⟩
  · rw [divCore]
    simp only [htarget, hshift, Nat.shiftLeft_eq]
    refine Prod.ext rfl (Prod.ext ?_ rfl)
    show target = _
    simp only [t, target]
    omega
  -- The quotient has 53 bits at least by `hlog`, unless the exponent aimed at is
  -- the least there is; either way rounding has nothing to shift back.
  · generalize (m * 2 ^ t / n).log2 = k at *
    simp only [t, target] at *
    omega

theorem signOf_div (negative negative' : Bool) :
    signOf negative / signOf negative' = signOf (negative != negative') := by
  cases negative <;> cases negative' <;> rfl

section Dividing

variable {x y : Float}

theorem div_eq_pack (x y : Float) :
    x / y = Float.ofModel (Float.Model.pack (UnpackedFloat.div Format.binary64
      x.toModel.unpack y.toModel.unpack)) := rfl

/-- The quotient of two finite doubles that are not zero is the double nearest to
the exact quotient. -/
theorem div_eq (hx : 0 < rank x) (hx' : rank x < infinityRank)
    (hy : 0 < rank y) (hy' : rank y < infinityRank) :
    x / y = ofRank (isNegative x != isNegative y)
      (nearestRank (steps (rank x)) (steps (rank y))) := by
  have hm := mantissa_pos hx
  have hn := mantissa_pos hy
  obtain ⟨t, hcore, hready⟩ :=
    exists_divCore hm hn (spacing (rank x)) (spacing (rank y))
  have hsame : nearestRank (steps (rank x)) (steps (rank y)) =
      nearestRank (mantissa (rank x) * 2 ^ t * 2 ^ (spacing (rank x) + 1074))
        (mantissa (rank y) * 2 ^ (spacing (rank y) + t) * oneInSteps) := by
    have hpos := Nat.mul_pos hn (Nat.two_pow_pos (spacing (rank y)))
    have hpos' := Nat.mul_pos (Nat.mul_pos hn
      (Nat.two_pow_pos (spacing (rank y) + t))) oneInSteps_pos
    rw [steps_eq_mantissa, steps_eq_mantissa]
    refine nearestRank_congr hpos hpos' ?_
    have hone : 2 ^ (spacing (rank x) + 1074) =
        2 ^ spacing (rank x) * oneInSteps := by
      rw [oneInSteps_eq, ← Nat.pow_add]
    rw [hone, Nat.pow_add]
    ring
  rw [div_eq_pack, unpack_of_finite hx hx', unpack_of_finite hy hy',
    UnpackedFloat.div, hcore, hsame, signOf_div]
  exact roundWithAccuracy_quotient _ hn hready

end Dividing

/-! ## Quotients of any doubles -/

/-- The rank of a quotient, told from the ranks of dividend and divisor. There is
none if one of them is not a number, and none if both are zero or infinite. -/
def quotientRank? (r r' : Nat) : Option Nat :=
  if infinityRank < r ∨ infinityRank < r' ∨ r = 0 ∧ r' = 0 ∨
      r = infinityRank ∧ r' = infinityRank then none
  else if r = infinityRank ∨ r' = 0 then some infinityRank
  else if r = 0 ∨ r' = infinityRank then some 0
  else some (nearestRank (steps r) (steps r'))

section Ranks

variable {r r' : Nat}

theorem quotientRank?_eq_none_iff :
    quotientRank? r r' = none ↔ infinityRank < r ∨ infinityRank < r' ∨
      r = 0 ∧ r' = 0 ∨ r = infinityRank ∧ r' = infinityRank := by
  rw [quotientRank?]
  split
  · next hnone => exact iff_of_true rfl hnone
  · next hsome =>
      refine iff_of_false ?_ hsome
      split
      · exact Option.some_ne_none _
      · split
        · exact Option.some_ne_none _
        · exact Option.some_ne_none _

theorem quotientRank?_le {q : Nat} (h : quotientRank? r r' = some q) :
    q ≤ infinityRank := by
  rw [quotientRank?] at h
  split at h
  · cases h
  · split at h
    · cases h
      exact Nat.le_refl _
    · split at h
      · cases h
        exact Nat.zero_le _
      · cases h
        exact (isNearest_nearestRank _ (steps_pos (by omega))).bound

theorem quotientRank?_of_infinite {q : Nat} (h : quotientRank? r r' = some q)
    (hlarge : r = infinityRank ∨ r' = 0) : q = infinityRank := by
  rw [quotientRank?, if_pos hlarge] at h
  split at h
  · cases h
  · cases h
    rfl

theorem quotientRank?_of_zero {q : Nat} (h : quotientRank? r r' = some q)
    (hr' : r' = infinityRank) : q = 0 := by
  have hpos := infinityRank_pos
  rw [quotientRank?] at h
  split at h
  · cases h
  · rw [if_neg (by omega), if_pos (Or.inr hr')] at h
    cases h
    rfl

theorem quotientRank?_of_finite (hr : r < infinityRank) (hpos : 0 < r')
    (hr' : r' < infinityRank) :
    quotientRank? r r' = some (nearestRank (steps r) (steps r')) := by
  rw [quotientRank?, if_neg (by omega), if_neg (by omega)]
  split
  · next hsmall =>
      have hzero : r = 0 := by omega
      rw [hzero, nearestRank_of_num_eq_zero _ (steps_pos hpos) steps_zero]
  · rfl

end Ranks

/-- The double of a rank if there is one, and otherwise what is not a number. -/
def ofRank? (negative : Bool) : Option Nat → Float
  | none => nan
  | some r => ofRank negative r

section Any

variable {x y : Float}

theorem div_of_nan (h : infinityRank < rank x ∨ infinityRank < rank y) :
    x / y = nan := by
  rw [div_eq_pack]
  rcases h with hx | hy
  · rw [unpack_of_nan hx]
    rfl
  · rw [unpack_of_nan hy]
    cases x.toModel.unpack with
    | notANumber => rfl
    | infinity => rfl
    | zero => rfl
    | finite => rfl

theorem div_of_infinite (hx : rank x = infinityRank) (hpos : 0 < rank y)
    (hy : rank y < infinityRank) :
    x / y = ofRank (isNegative x != isNegative y) infinityRank := by
  rw [div_eq_pack, unpack_of_infinite hx, unpack_of_finite hpos hy,
    UnpackedFloat.div, signOf_div, pack_infinity]

theorem div_of_zero (hx : rank x = 0) (hpos : 0 < rank y)
    (hy : rank y < infinityRank) :
    x / y = ofRank (isNegative x != isNegative y) 0 := by
  rw [div_eq_pack, unpack_of_zero hx, unpack_of_finite hpos hy,
    UnpackedFloat.div, signOf_div, pack_zero]

theorem div_infinite (hx : rank x < infinityRank)
    (hy : rank y = infinityRank) :
    x / y = ofRank (isNegative x != isNegative y) 0 := by
  rw [div_eq_pack, unpack_of_infinite hy]
  rcases Nat.eq_zero_or_pos (rank x) with hzero | hpos
  · rw [unpack_of_zero hzero, UnpackedFloat.div, signOf_div, pack_zero]
  · rw [unpack_of_finite hpos hx, UnpackedFloat.div, signOf_div, pack_zero]

theorem infinite_div_infinite (hx : rank x = infinityRank)
    (hy : rank y = infinityRank) : x / y = nan := by
  rw [div_eq_pack, unpack_of_infinite hx, unpack_of_infinite hy]
  rfl

/-- The quotient that the library has, by anything but zero. -/
theorem div_eq_ofRank? (hy : 0 < rank y) :
    x / y = ofRank? (isNegative x != isNegative y)
      (quotientRank? (rank x) (rank y)) := by
  rcases rank_cases y with hynan | hyinf | hyzero | ⟨_, hylt⟩
  · rw [div_of_nan (Or.inr hynan), quotientRank?, if_pos (by omega), ofRank?]
  · rcases Nat.lt_trichotomy (rank x) infinityRank with hxlt | hxinf | hxnan
    · rw [div_infinite hxlt hyinf, quotientRank?, if_neg (by omega),
        if_neg (by omega), if_pos (by omega), ofRank?]
    · rw [infinite_div_infinite hxinf hyinf, quotientRank?, if_pos (by omega),
        ofRank?]
    · rw [div_of_nan (Or.inl hxnan), quotientRank?, if_pos (by omega), ofRank?]
  · exact absurd hyzero (Nat.ne_of_gt hy)
  · rcases rank_cases x with hxnan | hxinf | hxzero | ⟨hxpos, hxlt⟩
    · rw [div_of_nan (Or.inl hxnan), quotientRank?, if_pos (by omega), ofRank?]
    · rw [div_of_infinite hxinf hy hylt, quotientRank?, if_neg (by omega),
        if_pos (by omega), ofRank?]
    · rw [div_of_zero hxzero hy hylt, quotientRank?, if_neg (by omega),
        if_neg (by omega), if_pos (by omega), ofRank?]
    · rw [div_eq hxpos hxlt hy hylt, quotientRank?_of_finite hxlt hy hylt,
        ofRank?]

end Any

end Binary64

end Rpn
