import Rpn.Proofs.Bits
import Rpn.Proofs.Nearest

/-!
# The library's doubles

Lean computes with doubles in an unpacked form: a sign, a mantissa and an
exponent, or one of the special values. Here that form is told by sign and rank.
A finite double of rank `s * binade + m` is unpacked to the mantissa `m` and the
exponent `s - 1074` (`unpack_of_finite`), and what is unpacked in this way is
packed to the rank that it came from, or to infinity if that rank is too large
(`pack_finite`). Comparing to zero and to one then means what it should, and
negating changes the sign and nothing else (`neg_eq`).
-/

namespace Rpn.Binary64

open Float.Model Float.Model.UnpackedFloat

/-! ## The place of a rank -/

/-- The binary logarithm of the spacing of the doubles around a rank. -/
def spacing (r : Nat) : Nat :=
  r / binade - 1

/-- The magnitude of a rank, in spacings. -/
def mantissa (r : Nat) : Nat :=
  if r < binade then r else binade + r % binade

theorem rank_eq_place (r : Nat) : spacing r * binade + mantissa r = r := by
  rw [spacing, mantissa]
  have hdiv := Nat.div_add_mod' r binade
  split
  · next hlow =>
      rw [Nat.div_eq_of_lt hlow, Nat.zero_sub, Nat.zero_mul, Nat.zero_add]
  · next hhigh =>
      have hpos : 1 ≤ r / binade :=
        (Nat.one_le_div_iff binade_pos).2 (Nat.le_of_not_lt hhigh)
      obtain ⟨q, hq⟩ := Nat.exists_eq_add_of_le hpos
      rw [hq, Nat.add_mul] at hdiv
      rw [hq, Nat.add_sub_cancel_left]
      omega

theorem mantissa_lt (r : Nat) : mantissa r < 2 * binade := by
  have hmod := Nat.mod_lt r binade_pos
  rw [mantissa]
  split
  · omega
  · omega

theorem inPlace_mantissa (r : Nat) : InPlace (spacing r) (mantissa r) := by
  refine ⟨Nat.le_of_lt (mantissa_lt r), ?_⟩
  rw [spacing, mantissa]
  split
  · next hlow =>
      exact Or.inl (by rw [Nat.div_eq_of_lt hlow])
  · exact Or.inr (Nat.le_add_right _ _)

theorem steps_eq_mantissa (r : Nat) : steps r = mantissa r * 2 ^ spacing r := by
  rw [← (inPlace_mantissa r).steps_eq, rank_eq_place]

theorem mantissa_pos {r : Nat} (h : 0 < r) : 0 < mantissa r := by
  rw [mantissa]
  split
  · exact h
  · exact Nat.add_pos_left binade_pos _

/-! ## Unpacking -/

/-- A sign, as the library has it. -/
def signOf (negative : Bool) : Sign :=
  if negative then .negative else .positive

section Unpacking

variable {x : Float}

theorem exponent_eq (x : Float) :
    (@unpackExponent Format.binary64 x.toBits.toBitVec).toNat =
      rank x / binade := by
  rw [toNat_unpackExponent]
  show x.toBits.toNat / binade % 2048 = _
  simp only [rank, signWeight, binade]
  omega

theorem mantissa_eq (x : Float) :
    (@unpackMantissa Format.binary64 x.toBits.toBitVec).toNat =
      rank x % binade := by
  rw [toNat_unpackMantissa]
  show x.toBits.toNat % binade = _
  simp only [rank, signWeight, binade]
  omega

theorem sign_eq (x : Float) :
    Sign.ofBitVec (@unpackSign Format.binary64 x.toBits.toBitVec) =
      signOf (isNegative x) := by
  have hlt : x.toBits.toNat < 2 ^ 64 := x.toBits.toNat_lt
  have hbit : (@unpackSign Format.binary64 x.toBits.toBitVec).toNat =
      x.toBits.toNat / signWeight % 2 := by
    simp only [unpackSign, BitVec.toNat_cast, BitVec.extractLsb_toNat,
      Nat.shiftRight_eq_div_pow, signWeight]
    rfl
  have hzero : @unpackSign Format.binary64 x.toBits.toBitVec = 0#1 ↔
      x.toBits.toNat < signWeight := by
    rw [← BitVec.toNat_inj, hbit]
    simp only [signWeight, BitVec.toNat_zero]
    omega
  rw [Sign.ofBitVec, signOf, isNegative]
  by_cases h : x.toBits.toNat < signWeight
  · rw [if_pos (hzero.2 h), decide_eq_false (Nat.not_le.2 h)]
    rfl
  · rw [if_neg (mt hzero.1 h), decide_eq_true (Nat.not_lt.1 h)]
    rfl

theorem unpack_of_nan (h : infinityRank < rank x) :
    x.toModel.unpack = .notANumber := by
  rw [eq_nan_of_rank h]
  rfl

theorem unpack_of_infinite (h : rank x = infinityRank) :
    x.toModel.unpack = .infinity (signOf (isNegative x)) := by
  rw [← ofRank_rank x, h, isNegative_ofRank (Nat.le_refl _)]
  cases isNegative x with
  | false => rfl
  | true => rfl

theorem unpack_of_zero (h : rank x = 0) :
    x.toModel.unpack = .zero (signOf (isNegative x)) := by
  rw [← ofRank_rank x, h, isNegative_ofRank (Nat.zero_le _)]
  cases isNegative x with
  | false => rfl
  | true => rfl

theorem unpack_of_finite (hpos : 0 < rank x) (hlt : rank x < infinityRank) :
    x.toModel.unpack =
      .finite (signOf (isNegative x)) (mantissa (rank x))
        ((spacing (rank x) : Int) - 1074) (mantissa_pos hpos) := by
  have hexponent := exponent_eq x
  have hmantissa := mantissa_eq x
  have hfield : rank x / binade < 2047 := Nat.div_lt_of_lt_mul hlt
  have hall : @unpackExponent Format.binary64 x.toBits.toBitVec ≠ -1#_ := by
    intro hmax
    rw [hmax] at hexponent
    exact absurd hexponent.symm (Nat.ne_of_lt hfield)
  have hnone : @unpackExponent Format.binary64 x.toBits.toBitVec = 0#_ ↔
      rank x < binade := by
    rw [← BitVec.toNat_inj, hexponent, BitVec.toNat_zero,
      Nat.div_eq_zero_iff_lt binade_pos]
  show UnpackedFloat.unpack Format.binary64 x.toBits.toBitVec = _
  rw [UnpackedFloat.unpack]
  simp only [if_neg hall]
  by_cases hlow : rank x < binade
  · have hmod : rank x % binade = rank x := Nat.mod_eq_of_lt hlow
    have hsome : @unpackMantissa Format.binary64 x.toBits.toBitVec ≠ 0#_ := by
      intro hzero
      rw [hzero, hmod] at hmantissa
      exact absurd hmantissa (Nat.ne_of_lt hpos)
    rw [if_pos (hnone.2 hlow), dif_neg hsome]
    simp only [finite.injEq, sign_eq, hmantissa, hexponent, hmod, mantissa,
      if_pos hlow, spacing, Nat.div_eq_of_lt hlow, true_and]
    decide
  · have hpos' : 1 ≤ rank x / binade :=
      (Nat.one_le_div_iff binade_pos).2 (Nat.le_of_not_lt hlow)
    rw [if_neg (mt hnone.1 hlow)]
    simp only [finite.injEq, sign_eq, BitVec.toNat_append, hmantissa,
      hexponent, mantissa, if_neg hlow, spacing, true_and]
    refine ⟨?_, ?_⟩
    · have hmod : rank x % binade < 2 ^ 52 := Nat.mod_lt _ binade_pos
      rw [← Nat.shiftLeft_add_eq_or_of_lt hmod]
      rfl
    · have hbias : (Format.binary64.exponentBias : Int) = 1023 := by decide
      rw [hbias]
      omega

end Unpacking

/-! ## Packing -/

theorem toNat_packComponents (negative : Bool) (exponent : BitVec 11)
    (mantissa : BitVec 52) :
    (packComponents Format.binary64 (signOf negative) exponent
        mantissa).toNat =
      (if negative then signWeight else 0) + exponent.toNat * binade +
        mantissa.toNat := by
  rw [packComponents, BitVec.toNat_append, BitVec.toNat_append,
    ← Nat.shiftLeft_add_eq_or_of_lt exponent.isLt,
    ← Nat.shiftLeft_add_eq_or_of_lt mantissa.isLt, Nat.shiftLeft_eq,
    Nat.shiftLeft_eq, Nat.add_mul]
  cases negative with
  | false => rfl
  | true => rfl

/-- Bits with a sign and a rank are those of the double with that sign and that
rank. -/
theorem ofModel_eq_ofRank {model : Float.Model} {negative : Bool} {r : Nat}
    (hr : r ≤ infinityRank)
    (h : model.toBits.toNat = (if negative then signWeight else 0) + r) :
    Float.ofModel model = ofRank negative r := by
  have hbits : (Float.ofModel model).toBits = (ofRank negative r).toBits := by
    refine UInt64.toNat_inj.1 ?_
    rw [toNat_ofRank hr]
    refine h.trans ?_
    cases negative with
    | false => exact Nat.zero_add r
    | true => rfl
  rw [← Float.ofBits_toBits (Float.ofModel model), hbits, Float.ofBits_toBits]

theorem pack_zero (negative : Bool) :
    Float.ofModel (Float.Model.pack (.zero (signOf negative))) =
      ofRank negative 0 := by
  cases negative with
  | false => rfl
  | true => rfl

/-- What is in its place is packed to its rank, or to infinity from there on. -/
theorem pack_finite (negative : Bool) {s m : Nat} (hm : 0 < m)
    (hplace : InPlace s m) (hlt : m < 2 * binade) :
    Float.ofModel
        (Float.Model.pack (.finite (signOf negative) m ((s : Int) - 1074) hm)) =
      ofRank negative (min infinityRank (s * binade + m)) := by
  have hbias : (Format.binary64.exponentBias : Int) = 1023 := by decide
  have hbiased : ((s : Int) - 1074 + Format.binary64.exponentBias + 52).toNat =
      s + 1 := by
    rw [hbias]
    omega
  refine ofModel_eq_ofRank (Nat.min_le_left _ _) ?_
  show (UnpackedFloat.pack Format.binary64 _).toNat = _
  show BitVec.toNat (if 2 ^ 11 ≤
      ((s : Int) - 1074 + Format.binary64.exponentBias + 52).toNat + 1 then
        packedInfinity Format.binary64 (signOf negative)
      else if m.log2 + 1 = 53 then
        packComponents Format.binary64 (signOf negative) (BitVec.ofNat 11
          ((s : Int) - 1074 + Format.binary64.exponentBias + 52).toNat)
          (BitVec.ofNat 52 m)
      else
        packComponents Format.binary64 (signOf negative) 0#11
          (BitVec.ofNat 52 m)) = _
  rw [hbiased]
  by_cases hover : 2 ^ 11 ≤ s + 1 + 1
  · have hrank : infinityRank ≤ s * binade + m := by
      have hstart := hplace.2
      simp only [infinityRank, binade] at *
      omega
    rw [if_pos hover, packedInfinity, toNat_packComponents,
      Nat.min_eq_left hrank]
    rfl
  · have hrank : s * binade + m < infinityRank := by
      simp only [infinityRank, binade] at *
      omega
    rw [if_neg hover, Nat.min_eq_right (Nat.le_of_lt hrank)]
    by_cases hnormal : binade ≤ m
    · have hlog : m.log2 = 52 := (Nat.log2_eq_iff (Nat.ne_of_gt hm)).2
        ⟨hnormal, hlt⟩
      rw [hlog, if_pos rfl, toNat_packComponents, BitVec.toNat_ofNat,
        BitVec.toNat_ofNat]
      simp only [binade] at *
      omega
    · have hlog : m.log2 < 52 := (Nat.log2_lt (Nat.ne_of_gt hm)).2
        (Nat.lt_of_not_le hnormal)
      have hs : s = 0 := hplace.2.resolve_right hnormal
      have hfield : (BitVec.ofNat 52 m).toNat = m := by
        rw [BitVec.toNat_ofNat]
        exact Nat.mod_eq_of_lt (Nat.lt_of_not_le hnormal)
      rw [if_neg (by omega), toNat_packComponents, hfield, hs, Nat.add_assoc]
      rfl

/-! ## Comparing -/

section Comparing

/-- A double is not a number, infinite, zero, or one with a place. -/
theorem rank_cases (x : Float) :
    infinityRank < rank x ∨ rank x = infinityRank ∨ rank x = 0 ∨
      0 < rank x ∧ rank x < infinityRank := by
  omega

variable {x : Float}

theorem isFinite_iff : x.isFinite = true ↔ rank x < infinityRank := by
  show x.toModel.unpack.isFinite = true ↔ _
  rcases rank_cases x with hnan | hinfinite | hzero | ⟨hpos, hlt⟩
  · rw [unpack_of_nan hnan]
    exact iff_of_false Bool.false_ne_true (by omega)
  · rw [unpack_of_infinite hinfinite]
    exact iff_of_false Bool.false_ne_true (by omega)
  · rw [unpack_of_zero hzero]
    exact iff_of_true rfl (by rw [hzero]; decide)
  · rw [unpack_of_finite hpos hlt]
    exact iff_of_true rfl hlt

theorem isInf_iff : x.isInf = true ↔ rank x = infinityRank := by
  show x.toModel.unpack.isInf = true ↔ _
  rcases rank_cases x with hnan | hinfinite | hzero | ⟨hpos, hlt⟩
  · rw [unpack_of_nan hnan]
    exact iff_of_false Bool.false_ne_true (by omega)
  · rw [unpack_of_infinite hinfinite]
    exact iff_of_true rfl hinfinite
  · rw [unpack_of_zero hzero]
    exact iff_of_false Bool.false_ne_true (by rw [hzero]; decide)
  · rw [unpack_of_finite hpos hlt]
    exact iff_of_false Bool.false_ne_true (by omega)

theorem isNaN_iff : x.isNaN = true ↔ infinityRank < rank x := by
  show x.toModel.unpack.isNaN = true ↔ _
  rcases rank_cases x with hnan | hinfinite | hzero | ⟨hpos, hlt⟩
  · rw [unpack_of_nan hnan]
    exact iff_of_true rfl hnan
  · rw [unpack_of_infinite hinfinite]
    exact iff_of_false Bool.false_ne_true (by omega)
  · rw [unpack_of_zero hzero]
    exact iff_of_false Bool.false_ne_true (by omega)
  · rw [unpack_of_finite hpos hlt]
    exact iff_of_false Bool.false_ne_true (by omega)

theorem isInf_eq_false_of_isFinite (h : x.isFinite = true) :
    x.isInf = false := by
  rw [← Bool.not_eq_true, isInf_iff]
  exact Nat.ne_of_lt (isFinite_iff.1 h)

theorem lt_zero_iff :
    x < 0 ↔ isNegative x = true ∧ 0 < rank x ∧ rank x ≤ infinityRank := by
  have hcompare : x < 0 ↔
      (x.toModel.unpack.compare (.zero .positive) == some .lt) = true :=
    decide_eq_true_iff
  rw [hcompare, beq_iff_eq]
  rcases rank_cases x with hnan | hinfinite | hzero | ⟨hpos, hlt⟩
  · rw [unpack_of_nan hnan]
    exact iff_of_false nofun (by omega)
  · rw [unpack_of_infinite hinfinite, hinfinite]
    cases isNegative x with
    | false => exact iff_of_false nofun nofun
    | true => exact iff_of_true rfl ⟨rfl, infinityRank_pos, Nat.le_refl _⟩
  · rw [unpack_of_zero hzero, hzero]
    exact iff_of_false nofun fun h => absurd h.2.1 (Nat.lt_irrefl 0)
  · rw [unpack_of_finite hpos hlt]
    cases isNegative x with
    | false => exact iff_of_false nofun nofun
    | true => exact iff_of_true rfl ⟨rfl, hpos, Nat.le_of_lt hlt⟩

theorem beq_zero_iff : (x == 0) = true ↔ rank x = 0 := by
  have hcompare : (x == 0) = true ↔
      (x.toModel.unpack.compare (.zero .positive) == some .eq) = true := Iff.rfl
  rw [hcompare, beq_iff_eq]
  rcases rank_cases x with hnan | hinfinite | hzero | ⟨hpos, hlt⟩
  · rw [unpack_of_nan hnan]
    exact iff_of_false nofun (by omega)
  · rw [unpack_of_infinite hinfinite, hinfinite]
    refine iff_of_false ?_ (Nat.ne_of_gt infinityRank_pos)
    cases isNegative x with
    | false => exact nofun
    | true => exact nofun
  · rw [unpack_of_zero hzero]
    exact iff_of_true rfl hzero
  · rw [unpack_of_finite hpos hlt]
    refine iff_of_false ?_ (Nat.ne_of_gt hpos)
    cases isNegative x with
    | false => exact nofun
    | true => exact nofun

/-- The rank of one. -/
def oneRank : Nat := 1023 * binade

theorem beq_one_iff :
    (x == 1) = true ↔ isNegative x = false ∧ rank x = oneRank := by
  have hcompare : (x == 1) = true ↔
      (x.toModel.unpack.compare (.finite .positive binade (-52) binade_pos) ==
        some .eq) = true := Iff.rfl
  rw [hcompare, beq_iff_eq]
  have hone : 0 < oneRank ∧ oneRank < infinityRank := by decide
  rcases rank_cases x with hnan | hinfinite | hzero | ⟨hpos, hlt⟩
  · rw [unpack_of_nan hnan]
    exact iff_of_false nofun (by omega)
  · rw [unpack_of_infinite hinfinite]
    refine iff_of_false ?_ (by omega)
    cases isNegative x with
    | false => exact nofun
    | true => exact nofun
  · rw [unpack_of_zero hzero]
    exact iff_of_false nofun (by omega)
  · rw [unpack_of_finite hpos hlt]
    cases isNegative x with
    | true => exact iff_of_false nofun nofun
    | false =>
        have hplace : (spacing (rank x) : Int) - 1074 = -52 ∧
            mantissa (rank x) = binade ↔ rank x = oneRank := by
          constructor
          · rintro ⟨hs, hm⟩
            rw [← rank_eq_place (rank x), hm,
              show spacing (rank x) = 1022 by omega]
            rfl
          · intro hrank
            rw [hrank]
            decide
        rw [← hplace, ← compare_eq_iff_eq (a := mantissa (rank x)),
          ← compare_eq_iff_eq (a := (spacing (rank x) : Int) - 1074),
          ← Ordering.then_eq_eq]
        exact Option.some_inj.trans (and_iff_right rfl).symm

end Comparing

/-! ## Negating -/

section Negating

variable {x : Float}

theorem neg_eq_pack (x : Float) :
    -x = Float.ofModel (Float.Model.pack x.toModel.unpack.neg) := rfl

theorem neg_signOf (negative : Bool) : -signOf negative = signOf (!negative) := by
  cases negative with
  | false => rfl
  | true => rfl

theorem pack_infinity (negative : Bool) :
    Float.ofModel (Float.Model.pack (.infinity (signOf negative))) =
      ofRank negative infinityRank := by
  cases negative with
  | false => rfl
  | true => rfl

theorem neg_of_nan (h : infinityRank < rank x) : -x = nan := by
  rw [neg_eq_pack, unpack_of_nan h]
  rfl

/-- The other sign, and the same magnitude. -/
theorem neg_eq (h : rank x ≤ infinityRank) :
    -x = ofRank (!isNegative x) (rank x) := by
  rw [neg_eq_pack]
  rcases rank_cases x with hnan | hinfinite | hzero | ⟨hpos, hlt⟩
  · exact absurd hnan (Nat.not_lt.2 h)
  · rw [unpack_of_infinite hinfinite, UnpackedFloat.neg, neg_signOf,
      pack_infinity, hinfinite]
  · rw [unpack_of_zero hzero, UnpackedFloat.neg, neg_signOf, pack_zero, hzero]
  · rw [unpack_of_finite hpos hlt, UnpackedFloat.neg, neg_signOf,
      pack_finite _ _ (inPlace_mantissa _) (mantissa_lt _), rank_eq_place,
      Nat.min_eq_right h]

theorem rank_neg (x : Float) : rank (-x) = rank x := by
  rcases Nat.lt_or_ge infinityRank (rank x) with hnan | hle
  · rw [neg_of_nan hnan, eq_nan_of_rank hnan]
  · rw [neg_eq hle, rank_ofRank hle]

theorem isNegative_neg (h : rank x ≤ infinityRank) :
    isNegative (-x) = !isNegative x := by
  rw [neg_eq h, isNegative_ofRank h]

end Negating

end Rpn.Binary64
