import Rpn.Number.Exact
import Rpn.Proofs.Loading
import Rpn.Proofs.Rounding

/-!
# Number tokens have their exact values, correctly rounded

The value of a numeral as the reader puts it together, one coefficient and one
power of ten, is the value that its parts have each by itself
(`exactOf_numeral`). A decimal without its underscores is a numeral, and so what
a token is converted to is its exact value, rounded once.
-/

namespace Rpn

open Binary64 (IsRounded signFactor)
open Text (digitValue? hasDigitValue isDigit zeroOf?)

namespace Number

/-! ## What digits are worth -/

theorem worth_of_digitValue? {c : Char} {d : Nat}
    (h : digitValue? c = some d) : worth c = d := by
  rw [digitValue?, Option.map_eq_some_iff] at h
  obtain ⟨point, hpoint, hd⟩ := h
  rw [zeroOf?] at hpoint
  rw [worth, zeroOf?, List.find?_append, hpoint]
  exact hd

theorem map_worth {ds : List Char} (h : ∀ c ∈ ds, hasDigitValue c = true) :
    ds.map worth = digitValues ds := by
  induction ds with
  | nil => rfl
  | cons c ds ih =>
      obtain ⟨hc, hds⟩ := List.forall_mem_cons.1 h
      obtain ⟨d, hd⟩ := exists_digitValue hc
      rw [List.map_cons, ih hds, worth_of_digitValue? hd, digitValues,
        digitValues, List.filterMap_cons_some hd]

theorem ofDigits_eq (ds : List Nat) :
    ofDigits ds = Nat.ofDigits 10 ds.reverse := by
  rw [ofDigits, Nat.ofDigits_eq_foldr, List.foldr_reverse]
  simp only [Nat.cast_id, add_comm]

theorem worthOf_eq {ds : List Char} (h : ∀ c ∈ ds, hasDigitValue c = true) :
    worthOf ds = ofDigits (digitValues ds) := by
  rw [worthOf, map_worth h, ofDigits_eq]

theorem worthOf_append (front back : List Char) :
    worthOf (front ++ back) =
      worthOf front * 10 ^ back.length + worthOf back := by
  rw [worthOf, worthOf, worthOf, List.map_append, List.reverse_append,
    Nat.ofDigits_append, List.length_reverse, List.length_map]
  ring

/-! ## Taking a token apart -/

section Cutting

variable {isMark : Char → Bool} {front : List Char}

theorem cutAt_append {c : Char} (hfront : ∀ d ∈ front, isMark d = false)
    (hc : isMark c = true) (back : List Char) :
    cutAt isMark (front ++ c :: back) = (front, back) := by
  have hkeep : ∀ d ∈ front, (!isMark d) = true := by simpa using hfront
  rw [cutAt, List.takeWhile_append_of_pos hkeep,
    List.dropWhile_append_of_pos hkeep, List.takeWhile_cons_of_neg (by simp [hc]),
    List.dropWhile_cons_of_neg (by simp [hc]), List.append_nil]
  rfl

theorem cutAt_of_none (hfront : ∀ d ∈ front, isMark d = false) :
    cutAt isMark front = (front, []) := by
  have hkeep : ∀ d ∈ front, (!isMark d) = true := by simpa using hfront
  rw [cutAt, List.takeWhile_eq_self_iff.2 hkeep,
    List.dropWhile_eq_nil_iff.2 hkeep]
  rfl

end Cutting

/-- Where a text does not start with a sign. -/
def Unsigned (cs : List Char) : Prop :=
  ∀ c ∈ cs.head?, c ≠ '+' ∧ c ≠ '-'

theorem afterSign_of_unsigned {cs : List Char} (h : Unsigned cs) :
    afterSign cs = cs := by
  cases cs with
  | nil => rfl
  | cons c cs =>
      obtain ⟨hplus, hminus⟩ := h c rfl
      rw [afterSign, List.dropWhile_cons_of_neg (by simp [hplus, hminus])]

theorem afterSign_append {sign cs : List Char} (hsign : IsSign sign)
    (h : Unsigned cs) : afterSign (sign ++ cs) = cs := by
  rcases hsign with rfl | rfl | rfl
  · exact afterSign_of_unsigned h
  · exact afterSign_of_unsigned h
  · exact afterSign_of_unsigned h

theorem startsWithMinus_append {sign cs : List Char} (hsign : IsSign sign)
    (h : Unsigned cs) : startsWithMinus (sign ++ cs) = (sign == ['-']) := by
  rcases hsign with rfl | rfl | rfl
  · cases cs with
    | nil => rfl
    | cons c cs =>
        obtain ⟨_, hminus⟩ := h c rfl
        simp [startsWithMinus, hminus]
  · rfl
  · rfl

theorem unsigned_of_digits {cs : List Char}
    (h : ∀ c ∈ cs, hasDigitValue c = true) : Unsigned cs := by
  intro c hc
  have hdigit := h c (List.mem_of_mem_head? hc)
  exact ⟨ne_of_hasDigitValue hdigit (by decide),
    ne_of_hasDigitValue hdigit (by decide)⟩

/-! ## Numerals -/

theorem Exponent.isSign (e : Exponent) : IsSign e.signCharacters := by
  rw [Exponent.signCharacters]
  split
  · exact Or.inl rfl
  · exact Or.inr (Or.inr rfl)
  · exact Or.inr (Or.inl rfl)

theorem Exponent.signedWorth (e : Exponent) :
    Number.signedWorth (e.signCharacters ++ e.digits) = e.value := by
  have hunsigned := unsigned_of_digits e.areDigits
  have hminus : (e.signCharacters == ['-']) = e.isNegative := by
    rw [Exponent.signCharacters, Exponent.isNegative]
    split
    · next hnone => rw [hnone]; rfl
    · next hsome => rw [hsome]; rfl
    · next hsome => rw [hsome]; rfl
  rw [Number.signedWorth, startsWithMinus_append e.isSign hunsigned,
    afterSign_append e.isSign hunsigned, hminus, worthOf_eq e.areDigits,
    Exponent.value]

namespace Numeral

variable (n : Numeral)

theorem unsigned : Unsigned n.characters := by
  obtain ⟨c, cs, hcs, hc⟩ := n.exists_head
  intro d hd
  rw [hcs] at hd
  obtain rfl : c = d := Option.some.inj hd
  rcases hc with hc | rfl
  · exact ⟨ne_of_hasDigitValue hc (by decide),
      ne_of_hasDigitValue hc (by decide)⟩
  · decide

theorem pointedWorth :
    Number.pointedWorth (n.whole ++ n.pointCharacters) =
      worthOf n.whole + worthOf n.fraction / 10 ^ n.fraction.length := by
  have hwhole : ∀ c ∈ n.whole, (c == '.') = false := by
    intro c hc
    rw [beq_eq_false_iff_ne]
    exact ne_of_hasDigitValue (n.wholeDigits c hc) (by decide)
  rw [Number.pointedWorth, pointCharacters, fraction]
  cases n.fraction? with
  | none =>
      rw [List.append_nil, cutAt_of_none hwhole]
      rfl
  | some fraction =>
      rw [cutAt_append hwhole rfl]
      rfl

theorem cutAt_characters :
    ∃ power, cutAt (fun c => c == 'e' || c == 'E') n.characters =
        (n.whole ++ n.pointCharacters, power) ∧
      Number.signedWorth power = n.power := by
  have hmantissa : ∀ c ∈ n.whole ++ n.pointCharacters,
      (c == 'e' || c == 'E') = false := by
    intro c hc
    rcases n.isDecimal.mem c hc with hdigit | rfl | rfl
    · simp only [Bool.or_eq_false_iff, beq_eq_false_iff_ne]
      constructor
      · rintro rfl
        revert hdigit
        decide
      · rintro rfl
        revert hdigit
        decide
    · rfl
    · rfl
  rw [characters, ← List.append_assoc, exponentCharacters, power]
  cases n.exponent? with
  | none =>
      rw [List.append_nil]
      exact ⟨[], cutAt_of_none hmantissa, rfl⟩
  | some e =>
      have hmark : (e.mark == 'e' || e.mark == 'E') = true := by
        rcases e.mark_eq with h | h
        · rw [h]
          rfl
        · rw [h]
          rfl
      exact ⟨_, cutAt_append hmantissa hmark _, e.signedWorth⟩

theorem toRat_decimal (negative : Bool) :
    (n.decimal negative).toRat = signFactor negative *
      ((worthOf n.whole + worthOf n.fraction / 10 ^ n.fraction.length) *
        10 ^ n.power) := by
  have hdigits : ∀ c ∈ n.whole ++ n.fraction, hasDigitValue c = true :=
    List.forall_mem_append.2 ⟨n.wholeDigits, n.fractionDigits⟩
  have hten : (10 : ℚ) ^ n.fraction.length ≠ 0 := by positivity
  rw [decimal, Decimal.toRat, ← worthOf_eq hdigits, worthOf_append,
    zpow_sub₀ (by norm_num), zpow_natCast, signFactor]
  push_cast
  field_simp

/-- A numeral under a sign is read as the value of its parts. -/
theorem exactOf_numeral {sign : List Char} (hsign : IsSign sign) :
    exactOf (sign ++ n.characters) = (n.decimal (sign == ['-'])).toRat := by
  obtain ⟨power, hcut, hpower⟩ := n.cutAt_characters
  rw [exactOf, afterSign_append hsign n.unsigned, hcut,
    startsWithMinus_append hsign n.unsigned, toRat_decimal, ← hpower,
    ← n.pointedWorth]
  rfl

end Numeral

/-! ## Tokens -/

theorem unsigned_of_withoutUnderscores {cs : List Char}
    (h : Unsigned (withoutUnderscores cs)) : Unsigned cs := by
  intro d hd
  cases cs with
  | nil => cases hd
  | cons c cs =>
      obtain rfl : c = d := Option.some.inj hd
      by_cases hscore : c = '_'
      · rw [hscore]
        decide
      · exact h c (by simp [withoutUnderscores, hscore])

/-- A token that is no word is a sign and a numeral, but for underscores. -/
theorem IsLiteral.exists_numeral {cs : List Char} (h : IsLiteral cs)
    (hword : ¬ IsWord cs) (hread : ∀ c ∈ cs, isUnread c = false) :
    ∃ (sign body : List Char) (n : Numeral), cs = sign ++ body ∧
      IsSign sign ∧ withoutUnderscores body = n.characters := by
  obtain ⟨sign, body, rfl, hsign, hbody⟩ := h
  obtain ⟨_, hread⟩ := List.forall_mem_append.1 hread
  rcases hbody with ⟨decimal, exponent, rfl, hdecimal, hexponent⟩ | hspelt
  · obtain ⟨n, hn⟩ := hdecimal.exists_numeral hexponent hread
    exact ⟨sign, _, n, rfl, hsign, hn⟩
  · exact absurd ⟨sign, body, rfl, hsign, hspelt⟩ hword

theorem toNat_of_isDigit {c : Char} (h : isDigit c = true) :
    (0x30 ≤ c.toNat ∧ c.toNat < 0x3a) ∨ 128 ≤ c.toNat := by
  cases hvalue : hasDigitValue c with
  | true =>
      rcases toNat_of_hasDigitValue hvalue with hascii | hbeyond
      · exact Or.inl hascii
      · exact Or.inr (by omega)
  | false =>
      have hunread : isUnread c = true := by
        rw [isUnread, h, hvalue]
        rfl
      exact Or.inr (toNat_of_isUnread hunread).2

/-- No word has a digit in it. -/
theorem not_isWord_of_isDigit {cs : List Char} {c : Char} (hc : c ∈ cs)
    (hdigit : isDigit c = true) : ¬ IsWord cs := by
  rintro ⟨sign, body, rfl, hsign, word, hword, hspelt⟩
  have hrange := toNat_of_isDigit hdigit
  rcases List.mem_append.1 hc with hc | hc
  · rcases hsign.mem c hc with rfl | rfl
    · exact absurd hdigit (by decide)
    · exact absurd hdigit (by decide)
  · rcases mem_of_spelt hspelt hword c hc with rfl | hletter
    · exact absurd hdigit (by decide)
    · omega

end Number

namespace Token

open Binary64 (isNegative)
open Number (IsWord exactValue isLiteral_of_isNumber isNumber isUnread
  startsWithMinus)

/-- A number token that is no word is converted to its exact value, correctly
rounded and under its own sign, unless it has a digit that no reader knows. Such
a token is not converted at all. -/
theorem number_is_rounded {token : String} (h : isNumber token = true)
    (hword : ¬ IsWord token.toList) :
    ((∀ c ∈ token.toList, isUnread c = false) →
      ∃ x, number token = .ok x ∧ IsRounded (exactValue token) x ∧
        isNegative x = startsWithMinus token.toList ∧
        ((x == 0) = true ↔ |exactValue token| ≤ 2 ^ (-1075 : ℤ))) ∧
    ((∃ c ∈ token.toList, isUnread c = true) →
      number token = .error (.unreadable (plain token))) := by
  refine ⟨fun hread => ?_, number_of_unread h⟩
  obtain ⟨sign, body, n, hcs, hsign, hn⟩ :=
    (isLiteral_of_isNumber h).exists_numeral hword hread
  have hplain : Number.withoutUnderscores token.toList =
      sign ++ n.characters := by
    rw [hcs, Number.withoutUnderscores_sign hsign, hn]
  have hbody : Number.Unsigned body := by
    refine Number.unsigned_of_withoutUnderscores ?_
    rw [hn]
    exact n.unsigned
  have hnumber := number_of_isNumber h
  rw [hplain, Number.readPlain?_numeral
    (Number.takeSign_append hsign n.takeSign_characters)] at hnumber
  refine ⟨_, hnumber, ?_⟩
  rw [exactValue, hplain, n.exactOf_numeral hsign, hcs,
    Number.startsWithMinus_append hsign hbody]
  exact ⟨Decimal.isRounded_toFloat _, Decimal.isNegative_toFloat _,
    Decimal.toFloat_eq_zero_iff _⟩

/-- A number half way between two doubles, in groups. -/
theorem number_is_rounded_half_way :
    isNumber "-9_007_199_254_740.993e3" = true ∧
      ¬ IsWord "-9_007_199_254_740.993e3".toList ∧
      exactValue "-9_007_199_254_740.993e3" = -9007199254740993 ∧
      ∃ x, number "-9_007_199_254_740.993e3" = .ok x ∧
        IsRounded (-9007199254740993) x := by
  have hnumber : isNumber "-9_007_199_254_740.993e3" = true := by
    decide +kernel
  have hword : ¬ IsWord "-9_007_199_254_740.993e3".toList :=
    Number.not_isWord_of_isDigit (c := '9') (by decide) (by decide)
  have hvalue : exactValue "-9_007_199_254_740.993e3" = -9007199254740993 := by
    decide +kernel
  have hall : "-9_007_199_254_740.993e3".toList.all (!isUnread ·) = true := by
    decide +kernel
  have hread : ∀ c ∈ "-9_007_199_254_740.993e3".toList, isUnread c = false := by
    intro c hc
    simpa using List.all_eq_true.1 hall c hc
  obtain ⟨x, hx, hrounded, _⟩ := (number_is_rounded hnumber hword).1 hread
  rw [hvalue] at hrounded
  exact ⟨hnumber, hword, hvalue, x, hx, hrounded⟩

/-- A digit one of a script that came late, by itself. -/
def lateOne : String := "𞓱"

/-- It is a number token for one, and it is not converted. -/
theorem late_one_is_not_converted :
    isNumber lateOne = true ∧ ¬ IsWord lateOne.toList ∧
      exactValue lateOne = 1 ∧
      number lateOne = .error (.unreadable lateOne) := by
  have hnumber : isNumber lateOne = true := by decide +kernel
  refine ⟨hnumber, ?_, ?_, ?_⟩
  · exact Number.not_isWord_of_isDigit (c := '𞓱') (by decide) (by decide)
  · decide +kernel
  · exact number_of_unread hnumber ⟨'𞓱', by decide, by decide⟩

end Token

end Rpn
