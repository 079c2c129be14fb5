import Rpn.Proofs.Grammar
import Rpn.Proofs.Numeral
import Rpn.Token

/-!
# Which number tokens are read

A number token is recognised by a pattern and then read as free text, and the
reader knows nothing of the pattern. They agree on decimals and words but for
two kinds of characters: the pattern takes digits of which nobody knows the
value, and it takes a capital I with a dot for an i. `isUnread` names them.
`exists_readPlain?_iff` says that a token is read exactly if it has no such
character.

One direction takes a token apart as `IsLiteral` says and drops the
underscores; a decimal then is a `Numeral`, which the reader is known to read.
The other direction is about the reader alone: of whatever text, it reads only
characters that it knows, and what it takes for a decimal is a numeral.
-/

namespace Rpn.Number

open Text (digitValue? hasDigitValue isDigit isBlank)

/-- A character of number tokens that no reader knows: a digit without a known
value, or a capital I with a dot. -/
def isUnread (c : Char) : Bool :=
  (isDigit c && !hasDigitValue c) || c == '\u0130'

theorem hasDigitValue_of_read {c : Char} (h : isDigit c = true)
    (hread : isUnread c = false) : hasDigitValue c = true := by
  rw [isUnread, h, Bool.true_and, Bool.or_eq_false_iff] at hread
  simpa using hread.1

theorem ne_of_read {c : Char} (hread : isUnread c = false) : c ≠ '\u0130' := by
  intro h
  rw [h] at hread
  revert hread
  decide

/-- The digits without a known value lie far beyond ASCII. -/
theorem toNat_of_isUnread {c : Char} (h : isUnread c = true) :
    hasDigitValue c = false ∧ 128 ≤ c.toNat := by
  have htable : ∀ point ∈ Text.lateZeroPoints, 128 ≤ point := by decide
  rw [isUnread, Bool.or_eq_true, Bool.and_eq_true, Bool.not_eq_true',
    beq_iff_eq] at h
  rcases h with ⟨hdigit, hvalue⟩ | rfl
  · rw [isDigit, hvalue, Bool.false_or, Option.isSome_iff_exists] at hdigit
    obtain ⟨point, hfound⟩ := hdigit
    obtain ⟨hmem, hle, _⟩ := mem_of_zeroOf? hfound
    exact ⟨hvalue, Nat.le_trans (htable point hmem) hle⟩
  · decide

/-! ## The characters of a token -/

theorem isBlank_of_isDigit {c : Char} (h : isDigit c = true) :
    isBlank c = false := by
  rw [isDigit, Bool.or_eq_true] at h
  rcases h with h | h
  · exact isBlank_of_hasDigitValue h
  · obtain ⟨point, hfound⟩ := Option.isSome_iff_exists.1 h
    exact isBlank_of_zeroOf? (by decide +kernel) hfound

/-- A part of a token that has at least one digit, and underscores at most
besides. -/
structure IsGrouped (cs : List Char) : Prop where
  digits : ∀ c ∈ cs, c ≠ '_' → isDigit c = true
  exists_digit : ∃ c ∈ cs, isDigit c = true

theorem digits_of_scored {ds : List Char} (h : AllDigits ds) :
    ∀ c ∈ '_' :: ds, c ≠ '_' → isDigit c = true := by
  intro c hc hne
  rcases List.mem_cons.1 hc with rfl | hc
  · exact absurd rfl hne
  · exact h c hc

theorem IsGroup.digits {cs : List Char} (h : IsGroup cs) :
    ∀ c ∈ cs, c ≠ '_' → isDigit c = true := by
  obtain ⟨ds, rfl, _, hds⟩ := h
  exact digits_of_scored hds

theorem exists_digit_of_length {cs rest : List Char} (h : AllDigits cs)
    (hpos : 1 ≤ cs.length) : ∃ c ∈ cs ++ rest, isDigit c = true := by
  obtain ⟨c, ds, rfl⟩ := List.exists_cons_of_length_pos hpos
  exact ⟨c, by simp, h c (by simp)⟩

theorem IsIntegral.grouped {cs : List Char} (h : IsIntegral cs) :
    IsGrouped cs := by
  obtain ⟨first, parts, rfl, hpos, _, hfirst, hparts⟩ := h
  refine ⟨fun c hc hne => ?_, exists_digit_of_length hfirst hpos⟩
  rcases List.mem_append.1 hc with hc | hc
  · exact hfirst c hc
  · obtain ⟨part, hpart, hc⟩ := List.mem_flatten.1 hc
    rcases hparts part hpart with ⟨d, rfl, hd⟩ | hgroup
    · rw [List.mem_singleton.1 hc]
      exact hd
    · exact hgroup.digits c hc hne

theorem IsFractional.grouped {cs : List Char} (h : IsFractional cs) :
    IsGrouped cs := by
  rcases h with ⟨hne, hdigits⟩ |
    ⟨first, groups, last, rfl, hlength, hfirst, hgroups, hlast⟩
  · obtain ⟨c, ds, rfl⟩ := List.exists_cons_of_ne_nil hne
    exact ⟨fun c hc _ => hdigits c hc, c, by simp, hdigits c (by simp)⟩
  · refine ⟨fun c hc hne => ?_, exists_digit_of_length hfirst (by omega)⟩
    rw [List.mem_append, List.mem_append] at hc
    rcases hc with hc | hc | hc
    · exact hfirst c hc
    · obtain ⟨group, hgroup, hc⟩ := List.mem_flatten.1 hc
      exact (hgroups group hgroup).digits c hc hne
    · rcases hlast with rfl | ⟨ds, rfl, _, _, hds⟩
      · cases hc
      · exact digits_of_scored hds c hc hne

theorem digits_of_optional {cs : List Char} (h : cs = [] ∨ IsGrouped cs) :
    ∀ c ∈ cs, c ≠ '_' → isDigit c = true := by
  rcases h with rfl | h
  · intro c hc
    cases hc
  · exact h.digits

/-- The parts of a decimal. One of them may be empty, but not both. -/
theorem IsDecimal.exists_parts {cs : List Char} (h : IsDecimal cs) :
    ∃ (whole : List Char) (fraction? : Option (List Char)),
      cs = whole ++ (fraction?.map ('.' :: ·)).getD [] ∧
        (∀ c ∈ whole, c ≠ '_' → isDigit c = true) ∧
        (∀ c ∈ fraction?.getD [], c ≠ '_' → isDigit c = true) ∧
        ∃ c ∈ whole ++ fraction?.getD [], isDigit c = true := by
  rcases h with ⟨whole, rest, rfl, hwhole, hrest⟩ |
    ⟨whole, fraction, rfl, hwhole, hfraction⟩
  · obtain ⟨c, hc, hdigit⟩ := hwhole.grouped.exists_digit
    rcases hrest with rfl | ⟨fraction, rfl, hfraction⟩
    · exact ⟨whole, none, rfl, hwhole.grouped.digits, digits_of_optional (.inl rfl),
        c, List.mem_append_left _ hc, hdigit⟩
    · exact ⟨whole, some fraction, rfl, hwhole.grouped.digits,
        digits_of_optional (hfraction.imp_right IsFractional.grouped),
        c, List.mem_append_left _ hc, hdigit⟩
  · obtain ⟨c, hc, hdigit⟩ := hfraction.grouped.exists_digit
    exact ⟨whole, some fraction, rfl,
      digits_of_optional (hwhole.imp_right IsIntegral.grouped),
      hfraction.grouped.digits, c, List.mem_append_right _ hc, hdigit⟩

theorem IsSign.mem {cs : List Char} (h : IsSign cs) :
    ∀ c ∈ cs, c = '+' ∨ c = '-' := by
  intro c hc
  rcases h with rfl | rfl | rfl
  · cases hc
  · exact Or.inl (List.mem_singleton.1 hc)
  · exact Or.inr (List.mem_singleton.1 hc)

theorem StandsFor.toNat {letter c : Char} (h : StandsFor letter c)
    (hletter : 97 ≤ letter.toNat ∧ letter.toNat ≤ 122) :
    c = '\u0130' ∨ (65 ≤ c.toNat ∧ c.toNat ≤ 122) := by
  rcases h with h | ⟨_, h⟩
  · rw [← h, toNat_toLower] at hletter
    split at hletter
    · omega
    · omega
  · exact Or.inl h

/-- What holds of all that may stand for a letter of a word holds of all
characters that spell it. -/
theorem forall_of_spelt {P : Char → Prop} {word cs : List Char}
    (h : List.Forall₂ StandsFor word cs)
    (hword : ∀ letter ∈ word, ∀ c, StandsFor letter c → P c) :
    ∀ c ∈ cs, P c := by
  induction h with
  | nil =>
      intro c hc
      cases hc
  | cons hstands _ ih =>
      rw [List.forall_mem_cons] at hword ⊢
      exact ⟨hword.1 _ hstands, ih hword.2⟩

theorem letters_of_nonFiniteWords : ∀ word ∈ nonFiniteWords,
    ∀ letter ∈ word, 97 ≤ letter.toNat ∧ letter.toNat ≤ 122 := by
  have hall : nonFiniteWords.all (·.all fun letter =>
      97 ≤ letter.toNat && letter.toNat ≤ 122) = true := by decide
  intro word hword letter hletter
  have hletters := List.all_eq_true.1 hall word hword
  have hrange := List.all_eq_true.1 hletters letter hletter
  simpa only [Bool.and_eq_true, decide_eq_true_eq] using hrange

theorem mem_of_spelt {word cs : List Char}
    (h : List.Forall₂ StandsFor word cs) (hword : word ∈ nonFiniteWords) :
    ∀ c ∈ cs, c = '\u0130' ∨ (65 ≤ c.toNat ∧ c.toNat ≤ 122) :=
  forall_of_spelt h fun letter hletter _ hstands =>
    hstands.toNat (letters_of_nonFiniteWords word hword letter hletter)

theorem underscore_not_mem_of_spelt {word cs : List Char}
    (h : List.Forall₂ StandsFor word cs) (hword : word ∈ nonFiniteWords) :
    '_' ∉ cs := by
  have hne : ∀ c ∈ cs, c ≠ '_' := by
    refine forall_of_spelt h fun letter hletter c hstands heq => ?_
    have hrange := letters_of_nonFiniteWords word hword letter hletter
    rcases hstands with h | ⟨_, h⟩
    · rw [← h, heq] at hrange
      revert hrange
      decide
    · rw [heq] at h
      exact absurd h (by decide)
  exact fun hmem => hne '_' hmem rfl

theorem IsDecimal.mem {cs : List Char} (h : IsDecimal cs) :
    ∀ c ∈ cs, isDigit c = true ∨ c = '_' ∨ c = '.' := by
  obtain ⟨whole, fraction?, rfl, hwhole, hfraction, _⟩ := h.exists_parts
  intro c hc
  by_cases hscore : c = '_'
  · exact Or.inr (Or.inl hscore)
  rcases List.mem_append.1 hc with hc | hc
  · exact Or.inl (hwhole c hc hscore)
  · cases fraction? with
    | none => cases hc
    | some fraction =>
        rcases List.mem_cons.1 hc with rfl | hc
        · exact Or.inr (Or.inr rfl)
        · exact Or.inl (hfraction c hc hscore)

theorem IsExponent.mem {cs : List Char} (h : IsExponent cs) :
    ∀ c ∈ cs, isDigit c = true ∨ c = '+' ∨ c = '-' ∨ c = 'e' ∨ c = 'E' := by
  obtain ⟨mark, sign, ds, rfl, hmark, hsign, _, hds⟩ := h
  intro c hc
  rw [List.mem_cons, List.mem_append] at hc
  rcases hc with rfl | hc | hc
  · exact Or.inr (Or.inr (Or.inr hmark))
  · exact Or.inr ((hsign.mem c hc).imp_right Or.inl)
  · exact Or.inl (hds c hc)

/-- Every character of a token is a digit, the dotted capital I, or one of the
ASCII characters from the plus sign to the last small letter. -/
theorem IsLiteral.mem {cs : List Char} (h : IsLiteral cs) :
    ∀ c ∈ cs, isDigit c = true ∨ c = '\u0130' ∨
      (43 ≤ c.toNat ∧ c.toNat ≤ 122) := by
  obtain ⟨sign, body, rfl, hsign, hbody⟩ := h
  intro c hc
  rcases List.mem_append.1 hc with hc | hc
  · rcases hsign.mem c hc with rfl | rfl
    · decide
    · decide
  rcases hbody with ⟨decimal, exponent, rfl, hdecimal, hexponent⟩ |
    ⟨word, hword, hspelt⟩
  · rcases List.mem_append.1 hc with hc | hc
    · rcases hdecimal.mem c hc with h | rfl | rfl
      · exact Or.inl h
      · decide
      · decide
    · rcases hexponent with rfl | hexponent
      · cases hc
      rcases hexponent.mem c hc with h | rfl | rfl | rfl | rfl
      · exact Or.inl h
      · decide
      · decide
      · decide
      · decide
  · rcases mem_of_spelt hspelt hword c hc with
      h | h
    · exact Or.inr (Or.inl h)
    · exact Or.inr (Or.inr (by omega))

theorem IsLiteral.not_blank {cs : List Char} (h : IsLiteral cs) :
    ∀ c ∈ cs, isBlank c = false := by
  intro c hc
  rcases h.mem c hc with hdigit | rfl | hascii
  · exact isBlank_of_isDigit hdigit
  · decide
  · simp only [isBlank, Bool.or_eq_false_iff, Bool.and_eq_false_iff,
      decide_eq_false_iff_not, beq_eq_false_iff_ne]
    omega

theorem isLiteral_of_isNumber {token : String} (h : isNumber token = true) :
    IsLiteral token.toList :=
  matches_literal_iff.1 ((Pattern.accepts_iff _ _).1 h)

theorem isNumber_of_isLiteral {token : String}
    (h : IsLiteral token.toList) : isNumber token = true :=
  (Pattern.accepts_iff _ _).2 (matches_literal_iff.2 h)

/-! ## A decimal is a numeral between underscores -/

theorem withoutUnderscores_append (cs cs' : List Char) :
    withoutUnderscores (cs ++ cs') =
      withoutUnderscores cs ++ withoutUnderscores cs' :=
  List.filter_append cs cs'

theorem mem_withoutUnderscores {cs : List Char} {c : Char} :
    c ∈ withoutUnderscores cs ↔ c ∈ cs ∧ c ≠ '_' := by
  simp [withoutUnderscores, List.mem_filter]

theorem ne_underscore_of_isDigit {c : Char} (h : isDigit c = true) :
    c ≠ '_' := by
  intro heq
  rw [heq] at h
  revert h
  decide

theorem exists_exponent {mark : Char} {sign ds : List Char}
    (hmark : mark = 'e' ∨ mark = 'E') (hsign : IsSign sign) (hne : ds ≠ [])
    (hdigits : ∀ c ∈ ds, hasDigitValue c = true) :
    ∃ e : Exponent, mark :: (sign ++ ds) = e.characters := by
  have hcapital : ∃ capital : Bool, mark = if capital then 'E' else 'e' := by
    rcases hmark with rfl | rfl
    · exact ⟨false, rfl⟩
    · exact ⟨true, rfl⟩
  obtain ⟨capital, rfl⟩ := hcapital
  rcases hsign with rfl | rfl | rfl
  · exact ⟨⟨capital, none, ds, hne, hdigits⟩, rfl⟩
  · exact ⟨⟨capital, some false, ds, hne, hdigits⟩, rfl⟩
  · exact ⟨⟨capital, some true, ds, hne, hdigits⟩, rfl⟩

theorem IsExponent.exists_exponent {cs : List Char} (h : IsExponent cs)
    (hread : ∀ c ∈ cs, isUnread c = false) :
    ∃ e : Exponent, cs = e.characters := by
  obtain ⟨mark, sign, ds, rfl, hmark, hsign, hne, hds⟩ := h
  exact Number.exists_exponent hmark hsign hne fun c hc =>
    hasDigitValue_of_read (hds c hc) (hread c (by simp [hc]))

/-- Without its underscores, a decimal is digits with a point among them or
none. -/
theorem IsDecimal.exists_digits {cs : List Char} (h : IsDecimal cs) :
    ∃ (whole : List Char) (fraction? : Option (List Char)),
      withoutUnderscores cs = whole ++ (fraction?.map ('.' :: ·)).getD [] ∧
        whole ++ fraction?.getD [] ≠ [] ∧
        AllDigits whole ∧ AllDigits (fraction?.getD []) := by
  obtain ⟨whole, fraction?, rfl, hwhole, hfraction, c, hc, hdigit⟩ :=
    h.exists_parts
  have hdigits {ds : List Char}
      (hds : ∀ c ∈ ds, c ≠ '_' → isDigit c = true) :
      AllDigits (withoutUnderscores ds) := by
    intro c hc
    obtain ⟨hmem, hne⟩ := mem_withoutUnderscores.1 hc
    exact hds c hmem hne
  have hfraction' : (fraction?.map withoutUnderscores).getD [] =
      withoutUnderscores (fraction?.getD []) := by
    cases fraction? with
    | none => rfl
    | some fraction => rfl
  refine ⟨withoutUnderscores whole, fraction?.map withoutUnderscores, ?_, ?_,
    hdigits hwhole, ?_⟩
  · rw [withoutUnderscores_append]
    cases fraction? with
    | none => rfl
    | some fraction => rfl
  · rw [hfraction', ← withoutUnderscores_append]
    exact List.ne_nil_of_mem
      (mem_withoutUnderscores.2 ⟨hc, ne_underscore_of_isDigit hdigit⟩)
  · rw [hfraction']
    exact hdigits hfraction

theorem underscore_not_mem_of_exponent {cs : List Char}
    (h : cs = [] ∨ IsExponent cs) : '_' ∉ cs := by
  intro hmem
  rcases h with rfl | h
  · cases hmem
  · rcases h.mem _ hmem with h | h
    · exact absurd h (by decide)
    · revert h
      decide

/-- Without its underscores, a decimal with an exponent or without is a
numeral. -/
theorem IsDecimal.exists_numeral {cs exponent : List Char} (h : IsDecimal cs)
    (hexponent : exponent = [] ∨ IsExponent exponent)
    (hread : ∀ c ∈ cs ++ exponent, isUnread c = false) :
    ∃ n : Numeral, withoutUnderscores (cs ++ exponent) = n.characters := by
  obtain ⟨hread, hreadExponent⟩ := List.forall_mem_append.1 hread
  obtain ⟨whole, fraction?, hcs, hne, hwhole, hfraction⟩ := h.exists_digits
  obtain ⟨e?, he⟩ : ∃ e? : Option Exponent,
      exponent = (e?.map Exponent.characters).getD [] := by
    rcases hexponent with rfl | hexponent
    · exact ⟨none, rfl⟩
    · obtain ⟨e, rfl⟩ := hexponent.exists_exponent hreadExponent
      exact ⟨some e, rfl⟩
  have hmem : ∀ c ∈ whole ++ (fraction?.map ('.' :: ·)).getD [],
      isUnread c = false := by
    rw [← hcs]
    exact fun c hc => hread c (mem_withoutUnderscores.1 hc).1
  obtain ⟨hmem, hmem'⟩ := List.forall_mem_append.1 hmem
  have hwhole' : ∀ c ∈ whole, hasDigitValue c = true := fun c hc =>
    hasDigitValue_of_read (hwhole c hc) (hmem c hc)
  have hfraction' : ∀ c ∈ fraction?.getD [], hasDigitValue c = true := by
    intro c hc
    refine hasDigitValue_of_read (hfraction c hc) ?_
    cases fraction? with
    | none => cases hc
    | some fraction => exact hmem' c (List.mem_cons_of_mem _ hc)
  refine ⟨⟨whole, fraction?, e?, hne, hwhole', hfraction'⟩, ?_⟩
  rw [withoutUnderscores_append, hcs, withoutUnderscores_of_not_mem
    (underscore_not_mem_of_exponent hexponent), Numeral.characters,
    Numeral.pointCharacters_eq, Numeral.exponentCharacters, he,
    List.append_assoc]
  cases e? with
  | none => rfl
  | some e => rfl

theorem Numeral.isDecimal (n : Numeral) :
    IsDecimal (n.whole ++ n.pointCharacters) :=
  matches_decimal_iff.1 n.matches_decimal

theorem Numeral.isExponent (n : Numeral) :
    n.exponentCharacters = [] ∨ IsExponent n.exponentCharacters := by
  rw [exponentCharacters]
  cases n.exponent? with
  | none => exact Or.inl rfl
  | some e => exact Or.inr (matches_exponent_iff.1 (matches_exponent e))

/-! ## What is read -/

theorem takeSign_append {sign rest : List Char} (h : IsSign sign)
    (hrest : takeSign rest = (false, rest)) :
    takeSign (sign ++ rest) = (sign == ['-'], rest) := by
  rcases h with rfl | rfl | rfl
  · exact hrest
  · rfl
  · rfl

/-- The sign of a token stays when the underscores go. -/
theorem withoutUnderscores_sign {sign : List Char} (h : IsSign sign)
    (cs : List Char) :
    withoutUnderscores (sign ++ cs) = sign ++ withoutUnderscores cs := by
  rw [withoutUnderscores_append, withoutUnderscores_of_not_mem fun hmem => ?_]
  rcases h.mem _ hmem with h | h
  · revert h
    decide
  · revert h
    decide

theorem lower_of_spelt {word cs : List Char}
    (h : List.Forall₂ StandsFor word cs)
    (hread : ∀ c ∈ cs, isUnread c = false) : lower cs = word := by
  induction h with
  | nil => rfl
  | @cons letter c word cs hstands _ ih =>
      obtain ⟨hc, hread⟩ := List.forall_mem_cons.1 hread
      have hletter : c.toLower = letter := by
        rcases hstands with h | ⟨_, h⟩
        · exact h
        · exact absurd h (ne_of_read hc)
      show c.toLower :: lower cs = letter :: word
      rw [hletter, ih hread]

theorem exists_readPlain?_word {cs rest : List Char} {negative : Bool}
    (hsign : takeSign cs = (negative, rest))
    (hword : lower rest ∈ nonFiniteWords) : ∃ x, readPlain? cs = some x := by
  simp only [readPlain?, hsign]
  by_cases hnan : lower rest = "nan".toList
  · rw [if_pos hnan]
    exact ⟨_, rfl⟩
  · have hinf : lower rest = "inf".toList ∨ lower rest = "infinity".toList := by
      simp only [nonFiniteWords, List.mem_cons, List.not_mem_nil, or_false]
        at hword
      rcases hword with h | h | h
      · exact Or.inl h
      · exact Or.inr h
      · exact absurd h hnan
    rw [if_neg hnan, if_pos hinf]
    exact ⟨_, rfl⟩

/-- A word has no sign of its own. -/
theorem takeSign_of_spelt {word cs : List Char}
    (h : List.Forall₂ StandsFor word cs) (hmem : word ∈ nonFiniteWords) :
    takeSign cs = (false, cs) := by
  have hletters := mem_of_spelt h hmem
  cases cs with
  | nil => rfl
  | cons c cs =>
      have hc := hletters c (by simp)
      refine takeSign_of_ne ?_ ?_
      · intro heq
        rw [heq] at hc
        revert hc
        decide
      · intro heq
        rw [heq] at hc
        revert hc
        decide

theorem IsLiteral.exists_readPlain? {cs : List Char} (h : IsLiteral cs)
    (hread : ∀ c ∈ cs, isUnread c = false) :
    ∃ x, readPlain? (withoutUnderscores cs) = some x := by
  obtain ⟨sign, body, rfl, hsign, hbody⟩ := h
  obtain ⟨_, hread⟩ := List.forall_mem_append.1 hread
  rw [withoutUnderscores_sign hsign]
  rcases hbody with ⟨decimal, exponent, rfl, hdecimal, hexponent⟩ |
    ⟨word, hword, hspelt⟩
  · obtain ⟨n, hn⟩ := hdecimal.exists_numeral hexponent hread
    rw [hn]
    exact ⟨_, readPlain?_numeral (takeSign_append hsign n.takeSign_characters)⟩
  · -- The dotted capital I is unread, so only case is left to differ.
    have hlower := lower_of_spelt hspelt hread
    rw [withoutUnderscores_of_not_mem (underscore_not_mem_of_spelt hspelt hword)]
    refine exists_readPlain?_word
      (takeSign_append hsign (takeSign_of_spelt hspelt hword)) ?_
    rw [hlower]
    exact hword

/-! ## What the reader takes

What the reader takes for a decimal is a numeral, all of it; and what it reads
at all is made of digits with a known value and of ASCII characters. -/

theorem exists_digitRun (cs : List Char) :
    ∃ ds, cs = ds ++ (digitRun cs).2 ∧ (digitRun cs).1 = digitValues ds ∧
      ∀ c ∈ ds, hasDigitValue c = true := by
  induction cs with
  | nil => exact ⟨[], rfl, rfl, by simp⟩
  | cons c cs ih =>
      rw [digitRun]
      cases hvalue : digitValue? c with
      | none => exact ⟨[], rfl, rfl, by simp⟩
      | some d =>
          obtain ⟨ds, hds, hvalues, hdigits⟩ := ih
          have hc : hasDigitValue c = true := by
            rw [hasDigitValue, hvalue]
            rfl
          refine ⟨c :: ds, ?_, ?_, List.forall_mem_cons.2 ⟨hc, hdigits⟩⟩
          · show c :: cs = c :: (ds ++ (digitRun cs).2)
            rw [← hds]
          · show d :: (digitRun cs).1 = digitValues (c :: ds)
            rw [hvalues, digitValues, digitValues,
              List.filterMap_cons_some hvalue]

theorem exists_sign (cs : List Char) :
    ∃ sign, IsSign sign ∧ cs = sign ++ (takeSign cs).2 := by
  rw [takeSign.eq_def]
  split
  · exact ⟨['-'], Or.inr (Or.inr rfl), rfl⟩
  · exact ⟨['+'], Or.inr (Or.inl rfl), rfl⟩
  · exact ⟨[], Or.inl rfl, rfl⟩

theorem exists_exponent_of_readExponent? {cs : List Char} {power : Int}
    (h : readExponent? cs = some power) :
    ∃ e? : Option Exponent, cs = (e?.map Exponent.characters).getD [] := by
  rw [readExponent?.eq_def] at h
  split at h
  · exact ⟨none, rfl⟩
  · next mark rest =>
      split at h
      · next hmark =>
          obtain ⟨sign, hsign, hrest⟩ := exists_sign rest
          obtain ⟨ds, hds, hvalues, hdigits⟩ :=
            exists_digitRun (takeSign rest).2
          simp only [] at h
          generalize digitRun (takeSign rest).2 = run at h hds hvalues
          split at h
          · cases h
          · next digits hne =>
              rw [List.append_nil] at hds
              have hnil : ds ≠ [] := by
                rintro rfl
                exact hne hvalues
              obtain ⟨e, he⟩ := exists_exponent hmark hsign hnil hdigits
              exact ⟨some e, by rw [hrest, hds, he]; rfl⟩
          · cases h
      · cases h

theorem exists_fractionRun (cs : List Char) :
    ∃ fraction? : Option (List Char),
      cs = (fraction?.map ('.' :: ·)).getD [] ++ (fractionRun cs).2 ∧
        (fractionRun cs).1 = digitValues (fraction?.getD []) ∧
        ∀ c ∈ fraction?.getD [], hasDigitValue c = true := by
  rw [fractionRun.eq_def]
  split
  · next cs =>
      obtain ⟨ds, hds, hvalues, hdigits⟩ := exists_digitRun cs
      exact ⟨some ds, congrArg ('.' :: ·) hds, hvalues, hdigits⟩
  · exact ⟨none, rfl, rfl, by simp⟩

/-- The reader takes numerals for decimals, and nothing else. -/
theorem exists_numeral_of_readDecimal? {cs : List Char} {negative : Bool}
    {d : Decimal} (h : readDecimal? negative cs = some d) :
    ∃ n : Numeral, cs = n.characters := by
  rw [readDecimal?] at h
  simp only [] at h
  split at h
  · cases h
  · next hsome =>
      obtain ⟨power, hpower, _⟩ := Option.map_eq_some_iff.1 h
      obtain ⟨whole, hwhole, hwholeValues, hwholeDigits⟩ := exists_digitRun cs
      obtain ⟨fraction?, hfraction, hvalues, hdigits⟩ :=
        exists_fractionRun (digitRun cs).2
      obtain ⟨e?, he⟩ := exists_exponent_of_readExponent? hpower
      have hne : whole ++ fraction?.getD [] ≠ [] := by
        intro hnil
        obtain ⟨hwholeNil, hfractionNil⟩ := List.append_eq_nil_iff.1 hnil
        rw [hwholeValues, hvalues, hwholeNil, hfractionNil] at hsome
        exact hsome rfl
      refine ⟨⟨whole, fraction?, e?, hne, hwholeDigits, hdigits⟩, ?_⟩
      rw [Numeral.characters, Numeral.pointCharacters_eq,
        Numeral.exponentCharacters, hwhole, hfraction, he]
      cases e? with
      | none => rfl
      | some e => rfl

/-- A digit with a known value, or a character of ASCII. -/
def IsKnown (c : Char) : Prop :=
  hasDigitValue c = true ∨ c.toNat < 128

theorem isUnread_of_isKnown {c : Char} (h : IsKnown c) : isUnread c = false := by
  rw [← Bool.not_eq_true]
  intro hunread
  obtain ⟨hvalue, hbeyond⟩ := toNat_of_isUnread hunread
  rcases h with h | h
  · rw [hvalue] at h
    cases h
  · omega

theorem Numeral.isKnown {n : Numeral} {c : Char} (h : c ∈ n.characters) :
    IsKnown c := by
  have hsigns : ['.', 'e', 'E', '+', '-'].all (·.toNat < 128) = true := by
    decide
  refine (mem_characters h).imp_right fun h => ?_
  exact of_decide_eq_true (List.all_eq_true.1 hsigns c h)

theorem known_of_takeSign {cs : List Char}
    (h : ∀ c ∈ (takeSign cs).2, IsKnown c) : ∀ c ∈ cs, IsKnown c := by
  obtain ⟨sign, hsign, hcs⟩ := exists_sign cs
  rw [hcs]
  refine List.forall_mem_append.2 ⟨fun c hc => ?_, h⟩
  rcases hsign.mem c hc with rfl | rfl
  · exact Or.inr (by decide)
  · exact Or.inr (by decide)

theorem known_of_lower {cs word : List Char} (h : lower cs = word)
    (hword : word.all (·.toNat < 128) = true) : ∀ c ∈ cs, IsKnown c := by
  intro c hc
  have hlower : c.toLower ∈ word := h ▸ List.mem_map_of_mem hc
  have hlt := of_decide_eq_true (List.all_eq_true.1 hword _ hlower)
  rw [toNat_toLower] at hlt
  refine Or.inr ?_
  split at hlt
  · omega
  · exact hlt

theorem known_of_readPlain? {cs : List Char} {x : Float}
    (h : readPlain? cs = some x) : ∀ c ∈ cs, IsKnown c := by
  refine known_of_takeSign ?_
  rw [readPlain?] at h
  simp only [] at h
  split at h
  · next hnan => exact known_of_lower hnan (by decide)
  · split at h
    · next hinf =>
        rcases hinf with hinf | hinf
        · exact known_of_lower hinf (by decide)
        · exact known_of_lower hinf (by decide)
    · obtain ⟨d, hd, _⟩ := Option.map_eq_some_iff.1 h
      obtain ⟨n, hn⟩ := exists_numeral_of_readDecimal? hd
      rw [hn]
      exact fun c hc => n.isKnown hc

/-! ## Tokens -/

/-- A token is read exactly if every character of it is known. -/
theorem IsLiteral.exists_readPlain?_iff {cs : List Char} (h : IsLiteral cs) :
    (∃ x, readPlain? (withoutUnderscores cs) = some x) ↔
      ∀ c ∈ cs, isUnread c = false := by
  refine ⟨fun ⟨x, hx⟩ c hc => ?_, h.exists_readPlain?⟩
  by_cases hscore : c = '_'
  · rw [hscore]
    decide
  · exact isUnread_of_isKnown
      (known_of_readPlain? hx c (mem_withoutUnderscores.2 ⟨hc, hscore⟩))

theorem IsLiteral.read?_eq {cs : List Char} (h : IsLiteral cs) :
    read? (String.ofList (withoutUnderscores cs)) =
      readPlain? (withoutUnderscores cs) := by
  refine read?_ofList (fun c hc => ?_) fun hmem => ?_
  · exact h.not_blank c (mem_withoutUnderscores.1 hc).1
  · exact (mem_withoutUnderscores.1 hmem).2 rfl

end Rpn.Number
