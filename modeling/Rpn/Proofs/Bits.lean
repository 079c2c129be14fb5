import Mathlib
import Rpn.Binary64.Basic

/-!
# A double is its sign and its rank

Everything else in the project speaks of doubles by sign and rank, so this is
where the bits end. Sign and rank of a double give the double back
(`ofRank_rank`). A double made of a sign and a rank up to that of infinity has
that sign and that rank (`isNegative_ofRank`, `rank_ofRank`): such bits are
those of a double already, so the logic's own unpacked form changes nothing.
The ranks above infinity have one double between them, `nan`, which is why
`eq_nan_of_rank` needs no more than a comparison.
-/

namespace Rpn.Binary64

open Float.Model Float.Model.UnpackedFloat

/-! ## Bits and doubles -/

theorem toNat_unpackExponent (b : BitVec Format.binary64.numBits) :
    (unpackExponent b).toNat = b.toNat / binade % 2048 := by
  simp only [unpackExponent, BitVec.toNat_cast, BitVec.extractLsb_toNat,
    Nat.shiftRight_eq_div_pow, binade]

theorem toNat_unpackMantissa (b : BitVec Format.binary64.numBits) :
    (unpackMantissa b).toNat = b.toNat % binade := by
  simp only [unpackMantissa, BitVec.toNat_cast, BitVec.extractLsb_toNat,
    Nat.shiftRight_eq_div_pow, binade, Nat.pow_zero, Nat.div_one]

theorem toBits_ofBits {bits : UInt64}
    (h : Format.binary64.Valid bits.toBitVec) :
    (Float.ofBits bits).toBits = bits :=
  UInt64.eq_of_toBitVec_eq (pack_unpack_of_valid h)

/-! ## Signs and ranks -/

theorem valid_of_rank {bits : UInt64}
    (h : bits.toNat % signWeight ≤ infinityRank) :
    Format.binary64.Valid bits.toBitVec := by
  refine ⟨fun hmax hmantissa => ?_⟩
  exfalso
  have hexponent := congrArg BitVec.toNat hmax
  rw [toNat_unpackExponent] at hexponent
  have hpos : (@unpackMantissa Format.binary64 bits.toBitVec).toNat ≠ 0 :=
    fun h0 => hmantissa (BitVec.eq_of_toNat_eq h0)
  rw [toNat_unpackMantissa] at hpos
  have hexponent : bits.toNat / binade % 2048 = 2047 := hexponent
  have hpos : bits.toNat % binade ≠ 0 := hpos
  simp only [signWeight, infinityRank, binade] at *
  omega

theorem ofRank_rank (x : Float) : ofRank (isNegative x) (rank x) = x := by
  have hlt : x.toBits.toNat < 2 ^ 64 := x.toBits.toNat_lt
  have hbits : (if isNegative x then signWeight + rank x else rank x) =
      x.toBits.toNat := by
    rcases Nat.lt_or_ge x.toBits.toNat signWeight with h | h
    · rw [isNegative, decide_eq_false (by omega), if_neg (by decide), rank]
      exact Nat.mod_eq_of_lt h
    · rw [isNegative, decide_eq_true h, if_pos rfl, rank]
      simp only [signWeight] at *
      omega
  rw [ofRank, hbits, UInt64.ofNat_toNat, Float.ofBits_toBits]

theorem toNat_ofRank {negative : Bool} {r : Nat} (h : r ≤ infinityRank) :
    (ofRank negative r).toBits.toNat =
      if negative then signWeight + r else r := by
  have hinfinity : infinityRank < signWeight := by decide
  have hnat : (UInt64.ofNat (if negative then signWeight + r else r)).toNat =
      if negative then signWeight + r else r := by
    rw [UInt64.toNat_ofNat']
    refine Nat.mod_eq_of_lt ?_
    simp only [signWeight] at *
    split <;> omega
  rw [ofRank, toBits_ofBits, hnat]
  refine valid_of_rank ?_
  rw [hnat]
  cases negative with
  | false => rw [if_neg (by decide), Nat.mod_eq_of_lt (by omega)]; exact h
  | true =>
      rw [if_pos rfl, Nat.add_mod_left, Nat.mod_eq_of_lt (by omega)]
      exact h

theorem rank_ofRank {negative : Bool} {r : Nat} (h : r ≤ infinityRank) :
    rank (ofRank negative r) = r := by
  have hinfinity : infinityRank < signWeight := by decide
  rw [rank, toNat_ofRank h]
  cases negative with
  | false =>
      rw [if_neg (by decide)]
      exact Nat.mod_eq_of_lt (by omega)
  | true =>
      rw [if_pos rfl, Nat.add_mod_left]
      exact Nat.mod_eq_of_lt (by omega)

theorem isNegative_ofRank {negative : Bool} {r : Nat} (h : r ≤ infinityRank) :
    isNegative (ofRank negative r) = negative := by
  have hinfinity : infinityRank < signWeight := by decide
  rw [isNegative, toNat_ofRank h]
  cases negative with
  | false =>
      rw [if_neg (by decide)]
      exact decide_eq_false (by omega)
  | true =>
      rw [if_pos rfl]
      exact decide_eq_true (by omega)

/-- There is only one double that is not a number. -/
theorem eq_nan_of_rank {x : Float} (h : infinityRank < rank x) : x = nan := by
  have hlt : x.toBits.toNat < 2 ^ 64 := x.toBits.toNat_lt
  have hexponent :
      (@unpackExponent Format.binary64 x.toBits.toBitVec).toNat = 2047 := by
    rw [toNat_unpackExponent]
    show x.toBits.toNat / binade % 2048 = 2047
    simp only [rank, infinityRank, binade, signWeight] at *
    omega
  have hmantissa :
      (@unpackMantissa Format.binary64 x.toBits.toBitVec).toNat ≠ 0 := by
    rw [toNat_unpackMantissa]
    show x.toBits.toNat % binade ≠ 0
    simp only [rank, infinityRank, binade, signWeight] at *
    omega
  have hbits : x.toBits.toBitVec = packedNaN Format.binary64 :=
    x.toModel.valid.eq_packedNaN (BitVec.eq_of_toNat_eq hexponent)
      fun h0 => hmantissa (congrArg BitVec.toNat h0)
  have hword : x.toBits = UInt64.ofNat (infinityRank + binade / 2) :=
    UInt64.eq_of_toBitVec_eq (hbits.trans rfl)
  rw [← Float.ofBits_toBits x, hword]
  rfl

end Rpn.Binary64
