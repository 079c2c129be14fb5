import Rpn.Number.Grammar
import Rpn.Number.Spelling
import Rpn.Pattern.Acceptance

/-!
# The grammar says what it is meant to say

`Number.literal` is a pattern, put together so that a machine can read it, and
`IsLiteral` describes the same tokens by how they can be cut up. The two are
compared part by part: for every part of the pattern there is one lemma, and
none of them looks into another part.

The pattern is ambiguous. A run of digits can be split in several ways between
the beginning of a whole part and what is repeated after it, `1.5` fits both
kinds of decimal, and a fraction of three digits both kinds of fraction. It
makes no difference: `Pattern.accepts_iff` holds for every pattern, because
derivatives follow all choices at once, and so `isNumber_iff` loses no token to
a choice that came too early.
-/

namespace Rpn.Number

open Pattern
open Text (isDigit)

variable {cs : List Char}

/-! ## Digits and groups -/

theorem matches_sign_iff : Matches (optional sign) cs ↔ IsSign cs := by
  rw [matches_optional, sign, oneOf, matches_one, IsSign]
  refine ⟨fun h => ?_, fun h => ?_⟩
  · rcases h with rfl | ⟨c, rfl, hc⟩
    · exact Or.inl rfl
    · simp only [List.contains_cons, List.contains_nil, Bool.or_false,
        Bool.or_eq_true, beq_iff_eq] at hc
      rcases hc with rfl | rfl
      · exact Or.inr (Or.inl rfl)
      · exact Or.inr (Or.inr rfl)
  · rcases h with rfl | rfl | rfl
    · exact Or.inl rfl
    · exact Or.inr ⟨'+', rfl, by decide⟩
    · exact Or.inr ⟨'-', rfl, by decide⟩

theorem matches_group_iff : Matches group cs ↔ IsGroup cs := by
  rw [group, matches_char_seq, IsGroup]
  simp only [digit, matches_times_one, AllDigits]

theorem matches_digitOrGroup_iff :
    Matches (alt digit group) cs ↔ IsDigitOrGroup cs := by
  rw [matches_alt, digit, matches_one, matches_group_iff, IsDigitOrGroup]

/-- At most so many digits, and then something else. -/
def UpTo (n : Nat) (isRest : List Char → Prop) (cs : List Char) : Prop :=
  ∃ ds rest, cs = ds ++ rest ∧ ds.length ≤ n ∧ AllDigits ds ∧ isRest rest

theorem upTo_zero {isRest : List Char → Prop} :
    UpTo 0 isRest cs ↔ isRest cs := by
  refine ⟨fun h => ?_, fun h => ?_⟩
  · obtain ⟨ds, rest, rfl, hlength, _, hrest⟩ := h
    rw [List.eq_nil_of_length_eq_zero (Nat.le_zero.1 hlength)]
    exact hrest
  · exact ⟨[], cs, rfl, Nat.le_refl _, by simp [AllDigits], h⟩

theorem matches_optional_digit_seq {p : Pattern} {n : Nat}
    {isRest : List Char → Prop}
    (hp : ∀ s, Matches p s ↔ UpTo n isRest s) :
    Matches (seq (optional digit) p) cs ↔ UpTo (n + 1) isRest cs := by
  simp only [matches_seq, matches_optional, digit, matches_one, hp]
  refine ⟨fun h => ?_, fun h => ?_⟩
  · obtain ⟨a, b, rfl, ha, ds, rest, rfl, hlength, hds, hrest⟩ := h
    rcases ha with rfl | ⟨c, rfl, hc⟩
    · exact ⟨ds, rest, rfl, by omega, hds, hrest⟩
    · refine ⟨c :: ds, rest, rfl, ?_, List.forall_mem_cons.2 ⟨hc, hds⟩, hrest⟩
      rw [List.length_cons]
      omega
  · obtain ⟨ds, rest, rfl, hlength, hds, hrest⟩ := h
    cases ds with
    | nil => exact ⟨[], rest, rfl, Or.inl rfl, [], rest, rfl, by simp, hds, hrest⟩
    | cons c ds =>
        obtain ⟨hc, hds⟩ := List.forall_mem_cons.1 hds
        rw [List.length_cons] at hlength
        exact ⟨[c], ds ++ rest, rfl, Or.inr ⟨c, rfl, hc⟩,
          ds, rest, rfl, by omega, hds, hrest⟩

theorem matches_integral_iff : Matches integral cs ↔ IsIntegral cs := by
  have hlater (s : List Char) :
      Matches (seq (optional digit) (seq (optional digit)
          (many (alt digit group)))) s ↔
        UpTo 2 (fun rest => ∃ parts : List (List Char), rest = parts.flatten ∧
          ∀ part ∈ parts, IsDigitOrGroup part) s := by
    refine matches_optional_digit_seq fun s => ?_
    refine matches_optional_digit_seq fun s => ?_
    rw [upTo_zero]
    simp only [matches_many, matches_digitOrGroup_iff]
  show Matches (seq digit (seq (optional digit)
    (seq (optional digit) (many (alt digit group))))) cs ↔ IsIntegral cs
  rw [digit, matches_one_seq, ← digit]
  simp only [hlater]
  refine ⟨fun h => ?_, fun h => ?_⟩
  · obtain ⟨c, _, rfl, hc, ds, _, rfl, hlength, hds, parts, rfl, hparts⟩ := h
    refine ⟨c :: ds, parts, rfl, ?_, ?_, List.forall_mem_cons.2 ⟨hc, hds⟩,
      hparts⟩
    · rw [List.length_cons]
      omega
    · rw [List.length_cons]
      omega
  · obtain ⟨first, parts, rfl, hpos, hlength, hfirst, hparts⟩ := h
    obtain ⟨c, ds, rfl⟩ := List.exists_cons_of_length_pos hpos
    obtain ⟨hc, hds⟩ := List.forall_mem_cons.1 hfirst
    rw [List.length_cons] at hlength
    exact ⟨c, _, rfl, hc, ds, _, rfl, by omega, hds, parts, rfl, hparts⟩

theorem matches_shortGroup_iff :
    Matches (inOrder [char '_', digit, optional digit]) cs ↔
      IsShortGroup cs := by
  show Matches (seq (char '_') (seq digit (optional digit))) cs ↔ _
  simp only [matches_char_seq, digit, matches_one_seq, matches_optional,
    matches_one]
  refine ⟨fun h => ?_, fun h => ?_⟩
  · obtain ⟨_, rfl, c, rest, rfl, hc, hrest⟩ := h
    rcases hrest with rfl | ⟨d, rfl, hd⟩
    · exact ⟨[c], rfl, by simp, by simp, by simpa [AllDigits] using hc⟩
    · exact ⟨[c, d], rfl, by simp, by simp, by simp [AllDigits, hc, hd]⟩
  · obtain ⟨ds, rfl, hpos, hlength, hds⟩ := h
    obtain ⟨c, rest, rfl⟩ := List.exists_cons_of_length_pos hpos
    obtain ⟨hc, hrest⟩ := List.forall_mem_cons.1 hds
    refine ⟨_, rfl, c, rest, rfl, hc, ?_⟩
    cases rest with
    | nil => exact Or.inl rfl
    | cons d rest =>
        simp only [List.length_cons] at hlength
        obtain rfl : rest = [] := List.eq_nil_of_length_eq_zero (by omega)
        exact Or.inr ⟨d, rfl, hrest d (by simp)⟩

theorem matches_fractional_iff : Matches fractional cs ↔ IsFractional cs := by
  rw [fractional, matches_alt, digit, matches_atLeastOnce_one, ← digit]
  refine or_congr Iff.rfl ?_
  show Matches (seq (times digit 3) (seq (many group)
    (optional (inOrder [char '_', digit, optional digit])))) cs ↔ _
  simp only [matches_seq, matches_many, matches_optional, matches_group_iff,
    matches_shortGroup_iff]
  simp only [digit, matches_times_one]
  refine ⟨fun h => ?_, fun h => ?_⟩
  · obtain ⟨first, _, rfl, ⟨hlength, hfirst⟩, _, last, rfl, ⟨groups, rfl, hgroups⟩,
      hlast⟩ := h
    exact ⟨first, groups, last, rfl, hlength, hfirst, hgroups, hlast⟩
  · obtain ⟨first, groups, last, rfl, hlength, hfirst, hgroups, hlast⟩ := h
    exact ⟨first, _, rfl, ⟨hlength, hfirst⟩, _, last, rfl,
      ⟨groups, rfl, hgroups⟩, hlast⟩

/-! ## Decimals and exponents -/

theorem matches_exponent_iff : Matches exponent cs ↔ IsExponent cs := by
  show Matches (seq (oneOf ['e', 'E']) (seq (optional sign)
    (atLeastOnce digit))) cs ↔ _
  rw [oneOf, matches_one_seq]
  simp only [matches_seq, matches_sign_iff, digit, matches_atLeastOnce_one,
    List.contains_cons, List.contains_nil, Bool.or_false, Bool.or_eq_true,
    beq_iff_eq]
  refine ⟨fun h => ?_, fun h => ?_⟩
  · obtain ⟨mark, _, rfl, hmark, sign, ds, rfl, hsign, hne, hds⟩ := h
    exact ⟨mark, sign, ds, rfl, hmark, hsign, hne, hds⟩
  · obtain ⟨mark, sign, ds, rfl, hmark, hsign, hne, hds⟩ := h
    exact ⟨mark, _, rfl, hmark, sign, ds, rfl, hsign, hne, hds⟩

theorem matches_pointed_iff :
    Matches (seq (char '.') (optional fractional)) cs ↔ IsPointed cs := by
  simp only [matches_char_seq, matches_optional, matches_fractional_iff,
    IsPointed]

theorem matches_decimal_iff : Matches decimal cs ↔ IsDecimal cs := by
  rw [decimal, matches_alt]
  refine or_congr ?_ ?_
  · simp only [matches_seq (p := integral), matches_optional,
      matches_integral_iff, matches_pointed_iff]
  · show Matches (seq (optional integral) (seq (char '.') fractional)) cs ↔ _
    simp only [matches_seq (p := optional integral), matches_optional,
      matches_integral_iff, matches_char_seq, matches_fractional_iff]
    refine ⟨fun h => ?_, fun h => ?_⟩
    · obtain ⟨whole, _, rfl, hwhole, fraction, rfl, hfraction⟩ := h
      exact ⟨whole, fraction, rfl, hwhole, hfraction⟩
    · obtain ⟨whole, fraction, rfl, hwhole, hfraction⟩ := h
      exact ⟨whole, _, rfl, hwhole, fraction, rfl, hfraction⟩

/-! ## Words -/

theorem toNat_toLower (c : Char) :
    c.toLower.toNat =
      if 65 ≤ c.toNat ∧ c.toNat ≤ 90 then c.toNat + 32 else c.toNat := by
  have hcase : (c.val ≥ 'A'.val ∧ c.val ≤ 'Z'.val) ↔
      (65 ≤ c.toNat ∧ c.toNat ≤ 90) := by
    rw [ge_iff_le, UInt32.le_iff_toNat_le, UInt32.le_iff_toNat_le]
    exact Iff.rfl
  by_cases h : 65 ≤ c.toNat ∧ c.toNat ≤ 90
  · have hlower : c.toLower = ⟨c.val + 32, _⟩ := dif_pos (hcase.2 h)
    rw [hlower, if_pos h]
    show (c.val + 32).toNat = c.val.toNat + 32
    rw [UInt32.toNat_add]
    refine Nat.mod_eq_of_lt ?_
    have hlt : c.val.toNat ≤ 90 := h.2
    show c.val.toNat + 32 < 2 ^ 32
    omega
  · have hlower : c.toLower = c := dif_neg fun h' => h (hcase.1 h')
    rw [hlower, if_neg h]

/-- A small letter comes from itself and from its capital. -/
theorem toLower_eq_iff (small capital : Char) {c : Char}
    (h : 97 ≤ small.toNat ∧ small.toNat ≤ 122)
    (hcapital : capital.toNat + 32 = small.toNat) :
    c.toLower = small ↔ c = small ∨ c = capital := by
  have hnat (a b : Char) : a = b ↔ a.toNat = b.toNat :=
    ⟨congrArg _, Char.toNat_inj.1⟩
  rw [hnat, hnat, hnat, toNat_toLower]
  split
  · omega
  · omega

/-- A class of characters has just those that stand for a letter. -/
def IsLetter (isMember : Char → Bool) (letter : Char) : Prop :=
  ∀ c, isMember c = true ↔ StandsFor letter c

theorem isLetter_pair (small capital : Char)
    (h : 97 ≤ small.toNat ∧ small.toNat ≤ 122)
    (hcapital : capital.toNat + 32 = small.toNat) (hi : small ≠ 'i') :
    IsLetter [small, capital].contains small := by
  intro c
  simp only [List.contains_cons, List.contains_nil, Bool.or_false,
    Bool.or_eq_true, beq_iff_eq, StandsFor, hi, false_and, or_false]
  exact (toLower_eq_iff small capital h hcapital).symm

theorem isLetter_i : IsLetter ['i', 'I', '\u0130'].contains 'i' := by
  intro c
  simp only [List.contains_cons, List.contains_nil, Bool.or_false,
    Bool.or_eq_true, beq_iff_eq, StandsFor, true_and]
  rw [toLower_eq_iff 'i' 'I' (by decide) (by decide), or_assoc]

theorem matches_letter_seq {isMember : Char → Bool} {letter : Char}
    (hletter : IsLetter isMember letter) {p : Pattern}
    {words : List (List Char)} (hp : ∀ s, Matches p s ↔ Spells words s) :
    Matches (seq (one isMember) p) cs ↔
      Spells (words.map (letter :: ·)) cs := by
  rw [matches_one_seq]
  refine ⟨fun h => ?_, fun h => ?_⟩
  · obtain ⟨c, rest, rfl, hc, hrest⟩ := h
    obtain ⟨word, hword, hspelt⟩ := (hp rest).1 hrest
    exact ⟨letter :: word, List.mem_map_of_mem hword,
      .cons ((hletter c).1 hc) hspelt⟩
  · obtain ⟨_, hmem, hspelt⟩ := h
    obtain ⟨word, hword, rfl⟩ := List.mem_map.1 hmem
    obtain ⟨c, rest, hc, hrest, rfl⟩ := List.forall₂_cons_left_iff.1 hspelt
    exact ⟨c, rest, rfl, (hletter c).2 hc, (hp rest).2 ⟨word, hword, hrest⟩⟩

theorem matches_letter {isMember : Char → Bool} {letter : Char}
    (hletter : IsLetter isMember letter) :
    Matches (one isMember) cs ↔ Spells [[letter]] cs := by
  rw [matches_one]
  refine ⟨fun h => ?_, fun h => ?_⟩
  · obtain ⟨c, rfl, hc⟩ := h
    exact ⟨[letter], by simp, .cons ((hletter c).1 hc) .nil⟩
  · obtain ⟨_, hmem, hspelt⟩ := h
    obtain rfl := List.mem_singleton.1 hmem
    obtain ⟨c, rest, hc, hrest, rfl⟩ := List.forall₂_cons_left_iff.1 hspelt
    rw [List.forall₂_nil_left_iff.1 hrest]
    exact ⟨c, rfl, (hletter c).2 hc⟩

theorem spells_append {words words' : List (List Char)} :
    Spells (words ++ words') cs ↔ Spells words cs ∨ Spells words' cs := by
  simp only [Spells, List.mem_append, or_and_right, exists_or]

theorem spells_empty : Spells [[]] cs ↔ cs = [] := by
  simp only [Spells, List.mem_singleton, exists_eq_left,
    List.forall₂_nil_left_iff]

theorem matches_special_iff :
    Matches special cs ↔ Spells nonFiniteWords cs := by
  have hn := isLetter_pair 'n' 'N' (by decide) (by decide)
    (by decide)
  have hf := isLetter_pair 'f' 'F' (by decide) (by decide)
    (by decide)
  have ht := isLetter_pair 't' 'T' (by decide) (by decide)
    (by decide)
  have hy := isLetter_pair 'y' 'Y' (by decide) (by decide)
    (by decide)
  have ha := isLetter_pair 'a' 'A' (by decide) (by decide)
    (by decide)
  have hending (s : List Char) : Matches infinityEnding s ↔
      Spells [['i', 'n', 'i', 't', 'y']] s :=
    matches_letter_seq isLetter_i fun _ => matches_letter_seq hn fun _ =>
      matches_letter_seq isLetter_i fun _ => matches_letter_seq ht fun _ =>
        matches_letter hy
  have hoptional (s : List Char) : Matches (optional infinityEnding) s ↔
      Spells [[], ['i', 'n', 'i', 't', 'y']] s := by
    rw [matches_optional, hending, ← spells_empty, ← spells_append]
    rfl
  have hinfinity :
      Matches (inOrder [letterI, letterN, oneOf ['f', 'F'],
          optional infinityEnding]) cs ↔
        Spells ["inf".toList, "infinity".toList] cs :=
    matches_letter_seq isLetter_i fun _ => matches_letter_seq hn fun _ =>
      matches_letter_seq hf hoptional
  have hnan : Matches (inOrder [letterN, oneOf ['a', 'A'], letterN]) cs ↔
      Spells ["nan".toList] cs :=
    matches_letter_seq hn fun _ => matches_letter_seq ha fun _ =>
      matches_letter hn
  rw [special, matches_alt, hinfinity, hnan, ← spells_append]
  rfl

/-! ## Tokens -/

theorem matches_literal_iff : Matches literal cs ↔ IsLiteral cs := by
  rw [literal, matches_alt]
  show Matches (seq (optional sign) (seq decimal (optional exponent))) cs ∨
    Matches (seq (optional sign) special) cs ↔ _
  simp only [matches_seq, matches_optional (p := exponent), matches_sign_iff,
    matches_decimal_iff, matches_exponent_iff, matches_special_iff]
  refine ⟨fun h => ?_, fun h => ?_⟩
  · rcases h with ⟨sign, _, rfl, hsign, hbody⟩ | ⟨sign, body, rfl, hsign, hbody⟩
    · exact ⟨sign, _, rfl, hsign, Or.inl hbody⟩
    · exact ⟨sign, body, rfl, hsign, Or.inr hbody⟩
  · obtain ⟨sign, body, rfl, hsign, hbody | hbody⟩ := h
    · exact Or.inl ⟨sign, body, rfl, hsign, hbody⟩
    · exact Or.inr ⟨sign, body, rfl, hsign, hbody⟩

/-- The number tokens are the texts that are spelled as one. -/
theorem isNumber_iff (token : String) :
    isNumber token = true ↔ IsLiteral token.toList := by
  rw [isNumber, accepts_iff, matches_literal_iff]

end Rpn.Number
