import Rpn.Proofs.Unpacked

/-!
# What is kept of a quotient

The library rounds by shifting a mantissa to the right and keeping, of the bits
that fall out, the first one and whether any other was set. This is enough to
round to the nearest whole number (`roundedMantissa_shiftRight`). Of a quotient
of mantissas it keeps as much, and so a quotient can be told from a whole number
two bits longer, which is odd if anything was left (`jammed`).

A quotient that is rounded in this way gives the double that `nearestRank` finds
(`roundWithAccuracy_quotient`), if it was divided far enough: what falls out
later must be all that cannot be kept.
-/

namespace Rpn.Binary64

open Float.Model Float.Model.UnpackedFloat

/-! ## The bits that fall out -/

/-- What is kept of a number that is divided by a power of two: the whole part,
whether the rest is a half or more, and whether it is neither zero nor a half.
-/
structure Keeps (em : ExtendedMantissa) (n k : Nat) : Prop where
  mantissa_eq : em.mantissa = n / 2 ^ k
  round_iff : em.roundBit = true ↔ 2 ^ k ≤ 2 * (n % 2 ^ k)
  sticky_iff : em.stickyBit = true ↔
    2 * (n % 2 ^ k) ≠ 0 ∧ 2 * (n % 2 ^ k) ≠ 2 ^ k

theorem keeps_exact (n : Nat) : Keeps ⟨n, false, false⟩ n 0 := by
  have hmod : n % 2 ^ 0 = 0 := Nat.mod_one n
  constructor
  · exact (Nat.div_one n).symm
  · rw [hmod]
    exact iff_of_false nofun (by decide)
  · rw [hmod]
    exact iff_of_false nofun (by decide)

theorem Keeps.shiftRightOne {em : ExtendedMantissa} {n k : Nat}
    (h : Keeps em n k) : Keeps em.shiftRightOne n (k + 1) := by
  have hlt := Nat.mod_lt n (Nat.two_pow_pos k)
  have hpow : 2 ^ (k + 1) = 2 * 2 ^ k := Nat.pow_succ'
  have hmod : n % 2 ^ (k + 1) = n % 2 ^ k + 2 ^ k * (n / 2 ^ k % 2) :=
    Nat.mod_pow_succ
  constructor
  · show em.mantissa / 2 = _
    rw [h.mantissa_eq, Nat.div_div_eq_div_mul, Nat.pow_succ]
  · show (em.mantissa % 2 != 0) = true ↔ _
    rw [bne_iff_ne, h.mantissa_eq, hmod, hpow]
    rcases Nat.mod_two_eq_zero_or_one (n / 2 ^ k) with hbit | hbit
    · rw [hbit]
      omega
    · rw [hbit]
      omega
  · show (em.roundBit || em.stickyBit) = true ↔ _
    rw [Bool.or_eq_true, h.round_iff, h.sticky_iff, hmod, hpow]
    rcases Nat.mod_two_eq_zero_or_one (n / 2 ^ k) with hbit | hbit
    · rw [hbit]
      omega
    · rw [hbit]
      omega

theorem Keeps.shiftRight {em : ExtendedMantissa} {n : Nat} (h : Keeps em n 0)
    (k : Nat) : Keeps (em >>> k) n k := by
  induction k with
  | zero => exact h
  | succ k ih => exact ih.shiftRightOne

/-- What is kept is enough to round. -/
theorem Keeps.roundedMantissa {em : ExtendedMantissa} {n k : Nat}
    (h : Keeps em n k) : em.roundedMantissa = roundQuotient n (2 ^ k) := by
  obtain ⟨m, round, sticky⟩ := em
  obtain ⟨hmantissa, hround, hsticky⟩ := h
  simp only at hmantissa hround hsticky
  have hlt := Nat.mod_lt n (Nat.two_pow_pos k)
  rw [roundQuotient, ← hmantissa, ExtendedMantissa.roundedMantissa]
  cases round with
  | false =>
      have hbelow : 2 * (n % 2 ^ k) < 2 ^ k := by simpa using hround
      rw [if_pos hbelow]
      cases sticky with
      | false => rfl
      | true => rfl
  | true =>
      have habove : 2 ^ k ≤ 2 * (n % 2 ^ k) := hround.1 rfl
      rw [if_neg (Nat.not_lt.2 habove)]
      cases sticky with
      | false =>
          have hhalf : ¬ 2 ^ k < 2 * (n % 2 ^ k) := by
            have hpos := Nat.two_pow_pos k
            have hnot : ¬ (2 * (n % 2 ^ k) ≠ 0 ∧ 2 * (n % 2 ^ k) ≠ 2 ^ k) :=
              fun h => Bool.false_ne_true (hsticky.2 h)
            omega
          rw [if_neg hhalf]
          rfl
      | true =>
          have hmore := hsticky.1 rfl
          rw [if_pos (by omega)]
          rfl

theorem roundedMantissa_shiftRight (n k : Nat) :
    ((⟨n, false, false⟩ : ExtendedMantissa) >>> k).roundedMantissa =
      roundQuotient n (2 ^ k) :=
  ((keeps_exact n).shiftRight k).roundedMantissa

/-! ## The rest of a quotient -/

theorem roundQuotient_mul_right (num den : Nat) {k : Nat} (hk : 0 < k) :
    roundQuotient (num * k) (den * k) = roundQuotient num den := by
  have hexcess : 2 * (num * k % (den * k)) = 2 * (num % den) * k := by
    rw [Nat.mul_mod_mul_right, Nat.mul_assoc]
  rw [roundQuotient, roundQuotient, Nat.mul_div_mul_right _ _ hk, hexcess]
  simp only [Nat.mul_lt_mul_right hk]

/-- Four times a quotient, cut off, and made odd if that left something out. -/
def jammed (num den : Nat) : Nat :=
  2 * (2 * num / den) + if 2 * num % den = 0 then 0 else 1

theorem two_mul_div_mod (num : Nat) {den : Nat} (hden : 0 < den) :
    2 * num / den = 2 * (num / den) + 2 * (num % den) / den ∧
      2 * num % den = 2 * (num % den) % den := by
  have hsplit : 2 * num = 2 * (num % den) + 2 * (num / den) * den := by
    have hdiv := Nat.div_add_mod' num den
    rw [Nat.mul_assoc]
    omega
  rw [hsplit, Nat.add_mul_div_right _ _ hden, Nat.add_mul_mod_self_right]
  omega

theorem shiftRight_two (q : Nat) {half odd : Nat} (hhalf : half < 2)
    (hodd : odd < 2) :
    (⟨2 * (2 * q + half) + odd, false, false⟩ : ExtendedMantissa) >>> 2 =
      ⟨q, half != 0, odd != 0⟩ := by
  have hlow : (2 * (2 * q + half) + odd) / 2 = 2 * q + half := by omega
  have hbit : (2 * q + half) % 2 = half := by omega
  have hodd' : (2 * (2 * q + half) + odd) % 2 = odd := by omega
  show ExtendedMantissa.mk ((2 * (2 * q + half) + odd) / 2 / 2)
    ((2 * (2 * q + half) + odd) / 2 % 2 != 0)
    ((2 * (2 * q + half) + odd) % 2 != 0 || false) = _
  rw [hlow, hbit, hodd', Bool.or_false, show (2 * q + half) / 2 = q by omega]

/-- What the library keeps of a quotient is what it keeps of the jammed one when
two bits have fallen out. -/
theorem ofMantissaAndAccuracy_eq (num : Nat) {den : Nat} (hden : 0 < den) :
    ExtendedMantissa.ofMantissaAndAccuracy (num / den)
        (accuracyOfFraction (num % den) den) =
      (⟨jammed num den, false, false⟩ : ExtendedMantissa) >>> 2 := by
  obtain ⟨hdiv, hmod⟩ := two_mul_div_mod num hden
  have hlt := Nat.mod_lt num hden
  rw [jammed, hdiv, hmod, accuracyOfFraction]
  generalize num % den = rest at *
  rcases Nat.eq_zero_or_pos rest with rfl | hpos
  · rw [if_pos rfl, Nat.mul_zero, Nat.zero_div, Nat.zero_mod, if_pos rfl,
      shiftRight_two _ (by decide) (by decide)]
    rfl
  rw [if_neg (Nat.ne_of_gt hpos)]
  rcases Nat.lt_trichotomy (2 * rest) den with hless | hhalf | hmore
  · rw [compare_lt_iff_lt.2 hless, Nat.div_eq_of_lt hless,
      Nat.mod_eq_of_lt hless, if_neg (by omega),
      shiftRight_two _ (by decide) (by decide)]
    rfl
  · rw [compare_eq_iff_eq.2 hhalf, hhalf, Nat.div_self hden, Nat.mod_self,
      if_pos rfl, shiftRight_two _ (by decide) (by decide)]
    rfl
  · have hone : 2 * rest / den = 1 := Nat.div_eq_of_lt_le (by omega) (by omega)
    have hleft : 2 * rest % den = 2 * rest - den := by
      rw [Nat.mod_eq_sub_mod (Nat.le_of_lt hmore), Nat.mod_eq_of_lt (by omega)]
    rw [compare_gt_iff_gt.2 hmore, hone, hleft, if_neg (by omega),
      shiftRight_two _ (by decide) (by decide)]
    rfl

theorem shiftRight_add (em : ExtendedMantissa) (j k : Nat) :
    em >>> j >>> k = em >>> (j + k) := by
  induction k with
  | zero => rfl
  | succ k ih => exact congrArg ExtendedMantissa.shiftRightOne ih

/-- From a quotient by twice as much on, all that counts of the rest is whether
there is one. -/
theorem roundQuotient_mul_two (num : Nat) {den : Nat} (hden : 0 < den) :
    roundQuotient num (den * 2) =
      if num / den % 2 = 0 then num / den / 2
      else if num % den = 0 then num / den / 2 + num / den / 2 % 2
      else num / den / 2 + 1 := by
  have hlt := Nat.mod_lt num hden
  rw [roundQuotient, ← Nat.div_div_eq_div_mul, Nat.mod_mul]
  generalize num % den = rest at *
  rcases Nat.mod_two_eq_zero_or_one (num / den) with hbit | hbit
  · rw [hbit, if_pos rfl, if_pos (by omega)]
  · have hge : ¬ 2 * (rest + den * 1) < den * 2 := by omega
    rw [hbit, if_neg hge, if_neg Nat.one_ne_zero]
    rcases Nat.eq_zero_or_pos rest with hzero | hpos
    · rw [if_neg (by omega), if_pos hzero]
    · rw [if_pos (by omega), if_neg (Nat.ne_of_gt hpos)]

theorem jammed_div_two (num den : Nat) : jammed num den / 2 = 2 * num / den := by
  rw [jammed]
  split <;> omega

theorem jammed_mod_two (num den : Nat) :
    jammed num den % 2 = 0 ↔ 2 * num % den = 0 := by
  rw [jammed]
  split <;> omega

theorem mod_mul_eq_zero_iff (a : Nat) {b : Nat} (hb : 0 < b) (c : Nat) :
    a % (b * c) = 0 ↔ a % b = 0 ∧ a / b % c = 0 := by
  rw [Nat.mod_mul, Nat.add_eq_zero_iff, Nat.mul_eq_zero,
    or_iff_right (Nat.ne_of_gt hb)]

/-- What is kept of a quotient is enough to round it. -/
theorem roundedMantissa_quotient (num : Nat) {den : Nat} (hden : 0 < den)
    (k : Nat) :
    (ExtendedMantissa.ofMantissaAndAccuracy (num / den)
        (accuracyOfFraction (num % den) den) >>> k).roundedMantissa =
      roundQuotient num (den * 2 ^ k) := by
  have hpow := Nat.two_pow_pos k
  have hlong : 2 ^ (2 + k) = 2 * 2 ^ k * 2 := by
    rw [Nat.pow_add]
    omega
  have hdiv : jammed num den / (2 * 2 ^ k) = 2 * num / (den * 2 ^ k) := by
    rw [← Nat.div_div_eq_div_mul, ← Nat.div_div_eq_div_mul, jammed_div_two]
  have hmod : jammed num den % (2 * 2 ^ k) = 0 ↔
      2 * num % (den * 2 ^ k) = 0 := by
    rw [mod_mul_eq_zero_iff _ Nat.two_pos, mod_mul_eq_zero_iff _ hden,
      jammed_mod_two, jammed_div_two]
  rw [ofMantissaAndAccuracy_eq num hden, shiftRight_add,
    roundedMantissa_shiftRight, hlong, roundQuotient_mul_two _ (by omega),
    ← roundQuotient_mul_right num _ Nat.two_pos, Nat.mul_comm num 2,
    roundQuotient_mul_two _ (Nat.mul_pos hden hpow), hdiv]
  simp only [hmod]

/-! ## The place of a quotient -/

theorem nearestRank_quotient (n d : Nat) :
    nearestRank n (d * oneInSteps) = min infinityRank
      (((n / d).log2 - 52) * binade +
        roundQuotient n (d * 2 ^ ((n / d).log2 - 52))) := by
  rw [nearestRank]
  simp only [Nat.mul_div_mul_right _ _ oneInSteps_pos]
  rw [Nat.shiftLeft_eq, Nat.mul_right_comm,
    roundQuotient_mul_right _ _ oneInSteps_pos]

theorem log2_div_two_pow (n k : Nat) : (n / 2 ^ k).log2 = n.log2 - k := by
  rw [Nat.log2_eq_log_two, Nat.log2_eq_log_two, Nat.log_div_base_pow]

theorem le_log2_of_div_pos {n k : Nat} (h : 0 < n / 2 ^ k) : k ≤ n.log2 := by
  have hpow := Nat.two_pow_pos k
  have hle : 2 ^ k ≤ n := (Nat.div_pos_iff.1 h).2
  exact (Nat.le_log2 (by omega)).2 hle

theorem log2_mul_two_pow {m : Nat} (hm : 0 < m) (k : Nat) :
    (m * 2 ^ k).log2 = m.log2 + k := by
  have hcancel := Nat.mul_div_cancel m (Nat.two_pow_pos k)
  have hlog := log2_div_two_pow (m * 2 ^ k) k
  have hle : k ≤ (m * 2 ^ k).log2 := le_log2_of_div_pos (by rwa [hcancel])
  rw [hcancel] at hlog
  omega

/-- Scaled up by `j` bits and down by `i`, a quotient has a logarithm larger by
as many, unless it is zero as a whole number and grows. -/
theorem log2_scaled {num den i j : Nat} (h : 0 < num / den ∨ j ≤ i) :
    (num * 2 ^ j / (den * 2 ^ i)).log2 = (num / den).log2 + j - i := by
  rcases Nat.le_total j i with hle | hle
  · have hsplit : 2 ^ i = 2 ^ (i - j) * 2 ^ j := by
      rw [← Nat.pow_add, Nat.sub_add_cancel hle]
    rw [hsplit, ← Nat.mul_assoc, Nat.mul_div_mul_right _ _ (Nat.two_pow_pos j),
      ← Nat.div_div_eq_div_mul, log2_div_two_pow]
    omega
  · have hsplit : 2 ^ j = 2 ^ (j - i) * 2 ^ i := by
      rw [← Nat.pow_add, Nat.sub_add_cancel hle]
    have hcancel : num * 2 ^ (j - i) / den / 2 ^ (j - i) = num / den := by
      rw [Nat.div_div_eq_div_mul, Nat.mul_div_mul_right _ _ (Nat.two_pow_pos _)]
    have hlog := log2_div_two_pow (num * 2 ^ (j - i) / den) (j - i)
    have hge : j - i ≤ (num * 2 ^ (j - i) / den).log2 := by
      rcases h with hpos | hji
      · exact le_log2_of_div_pos (by rwa [hcancel])
      · omega
    rw [hcancel] at hlog
    rw [hsplit, ← Nat.mul_assoc, Nat.mul_div_mul_right _ _ (Nat.two_pow_pos i)]
    omega

theorem targetExponent_eq (m : Nat) (exponent : Int) :
    Format.binary64.targetExponent (totalExponent m exponent) =
      max ((m.log2 : Int) + 1 + exponent - 53) (-1074) := rfl

theorem shiftToTargetExponent_eq (m k : Nat) :
    shiftToTargetExponent Format.binary64 m ((k : Int) - 1074) .exact =
      ((⟨m, false, false⟩ : ExtendedMantissa) >>> (m.log2 - 52),
        ((k + (m.log2 - 52) : Nat) : Int) - 1074) := by
  have hshift : (max ((m.log2 : Int) + 1 + (k - 1074) - 53) (-1074) -
      ((k : Int) - 1074)).toNat = m.log2 - 52 := by omega
  rw [shiftToTargetExponent, targetExponent_eq, shiftToExponent, hshift]
  refine Prod.ext rfl ?_
  show (k : Int) - 1074 + ((m.log2 - 52 : Nat) : Int) = _
  omega

theorem shiftToTargetExponent_quotient {q i j : Nat} (accuracy : Accuracy)
    (h : j ≤ i + (q.log2 + j - i - 52)) :
    shiftToTargetExponent Format.binary64 q ((j : Int) - i - 1074) accuracy =
      (ExtendedMantissa.ofMantissaAndAccuracy q accuracy >>>
          (i + (q.log2 + j - i - 52) - j),
        ((q.log2 + j - i - 52 : Nat) : Int) - 1074) := by
  have hshift : (max ((q.log2 : Int) + 1 + (j - i - 1074) - 53) (-1074) -
      ((j : Int) - i - 1074)).toNat = i + (q.log2 + j - i - 52) - j := by omega
  rw [shiftToTargetExponent, targetExponent_eq, shiftToExponent, hshift]
  refine Prod.ext rfl ?_
  show (j : Int) - i - 1074 + ((i + (q.log2 + j - i - 52) - j : Nat) : Int) = _
  omega

/-! ## Rounding -/

/-- An unpacked double that may be zero. -/
def unpacked (negative : Bool) (m : Nat) (exponent : Int) : UnpackedFloat :=
  if h : m = 0 then .zero (signOf negative)
  else .finite (signOf negative) m exponent (Nat.pos_of_ne_zero h)

theorem pack_unpacked (negative : Bool) {s m : Nat} (hplace : InPlace s m)
    (hlt : m < 2 * binade) :
    Float.ofModel (Float.Model.pack (unpacked negative m ((s : Int) - 1074))) =
      ofRank negative (min infinityRank (s * binade + m)) := by
  rw [unpacked]
  split
  · next hzero =>
      have hs : s = 0 := by
        refine hplace.2.resolve_right ?_
        rw [hzero]
        decide
      rw [pack_zero, hzero, hs]
      rfl
  · exact pack_finite negative _ hplace hlt

/-- A rounded mantissa is shifted once more if it has reached the next power of
two, and the place is the same. -/
theorem pack_shifted (negative : Bool) {s m : Nat} (hplace : InPlace s m) :
    let shifted :=
      shiftToTargetExponent Format.binary64 m ((s : Int) - 1074) .exact
    Float.ofModel
        (Float.Model.pack (unpacked negative shifted.1.mantissa shifted.2)) =
      ofRank negative (min infinityRank (s * binade + m)) := by
  intro shifted
  have hshifted := shiftToTargetExponent_eq m s
  rcases Nat.lt_or_ge m (2 * binade) with hlt | hge
  · have hlog : m.log2 - 52 = 0 := by
      rcases Nat.eq_zero_or_pos m with rfl | hm
      · decide
      · have hsmall : m.log2 < 53 :=
          (Nat.log2_lt (Nat.ne_of_gt hm)).2 hlt
        omega
    rw [hlog] at hshifted
    rw [show shifted = _ from hshifted]
    exact pack_unpacked negative hplace hlt
  · obtain rfl : m = 2 * binade := Nat.le_antisymm hplace.1 hge
    have hlog : (2 * binade).log2 - 52 = 1 := by
      rw [show 2 * binade = 2 ^ 53 by decide, Nat.log2_two_pow]
    have hnext : InPlace (s + 1) binade :=
      ⟨Nat.le_mul_of_pos_left _ Nat.two_pos, Or.inr (Nat.le_refl _)⟩
    have hrank : s * binade + 2 * binade = (s + 1) * binade + binade := by
      rw [Nat.add_mul]
      omega
    rw [hlog] at hshifted
    rw [show shifted = _ from hshifted, hrank]
    have hlt : binade < 2 * binade := by decide
    exact pack_unpacked negative hnext hlt

/-- A quotient of whole numbers, scaled up by `j` bits and down by `i`, is rounded
to the nearest rank of so many steps, if no bit is missing of what is kept in the
end. -/
theorem roundWithAccuracy_quotient (negative : Bool) {num den i j : Nat}
    (hden : 0 < den) (h : j ≤ i + ((num / den).log2 + j - i - 52)) :
    Float.ofModel (Float.Model.pack (roundWithAccuracy Format.binary64
        (signOf negative) (num / den) ((j : Int) - i - 1074)
        (accuracyOfFraction (num % den) den))) =
      ofRank negative (nearestRank (num * 2 ^ j) (den * 2 ^ i * oneInSteps)) := by
  have hsome : 0 < num / den ∨ j ≤ i := by
    rcases Nat.eq_zero_or_pos (num / den) with hzero | hpos
    · rw [hzero, Nat.log2_zero] at h
      omega
    · exact Or.inl hpos
  have hlog := log2_scaled hsome
  have hshifted := shiftToTargetExponent_quotient
    (accuracyOfFraction (num % den) den) h
  generalize hs : (num / den).log2 + j - i - 52 = s at *
  have hrounded : roundQuotient (num * 2 ^ j) (den * 2 ^ i * 2 ^ s) =
      roundQuotient num (den * 2 ^ (i + s - j)) := by
    rw [← roundQuotient_mul_right num _ (Nat.two_pow_pos j), Nat.mul_assoc,
      Nat.mul_assoc, ← Nat.pow_add, ← Nat.pow_add, Nat.sub_add_cancel h]
  have hplace : InPlace s (roundQuotient num (den * 2 ^ (i + s - j))) := by
    have hquot := quotient_place (t := num * 2 ^ j / (den * 2 ^ i)) (s := s)
      (by rw [hlog, hs])
    rw [Nat.div_div_eq_div_mul] at hquot
    rw [← hrounded]
    have hle := roundQuotient_le (num * 2 ^ j) (den * 2 ^ i * 2 ^ s)
    have hge := le_roundQuotient (num * 2 ^ j) (den * 2 ^ i * 2 ^ s)
    exact ⟨by omega, hquot.2.imp_right (by omega)⟩
  rw [nearestRank_quotient, hlog, hs, hrounded, ← pack_shifted negative hplace,
    roundWithAccuracy, hshifted]
  simp only [roundedMantissa_quotient num hden]
  rfl

end Rpn.Binary64
