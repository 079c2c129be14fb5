import Rpn.Number.Grammar
import Rpn.Number.Reader
import Rpn.Pattern.Acceptance

/-!
# Numerals

A numeral is a decimal as it stands in a text, without its sign: digits, a
point that may be missing with the digits after it, and an exponent that may be
missing. It carries the proofs that its parts are what they should be, so that
two statements hold of every numeral without further conditions: the reader
finds all of it and nothing else (`readDecimal?_characters`), and the grammar
of number tokens admits it (`matches_literal`).

Neither side looks at what comes in between. Whoever writes numbers has only to
show that a numeral is what is written.
-/

namespace Rpn

open Text (digitValue? hasDigitValue isDigit isBlank)

namespace Number

/-! ## Digits -/

def digitValues (cs : List Char) : List Nat :=
  cs.filterMap digitValue?

theorem exists_digitValue {c : Char} (h : hasDigitValue c = true) :
    ∃ d, digitValue? c = some d :=
  Option.isSome_iff_exists.1 h

theorem length_digitValues {cs : List Char}
    (h : ∀ c ∈ cs, hasDigitValue c = true) :
    (digitValues cs).length = cs.length := by
  induction cs with
  | nil => rfl
  | cons c cs ih =>
      obtain ⟨d, hd⟩ := exists_digitValue (h c (by simp))
      have ih := ih fun c hc => h c (by simp [hc])
      rw [digitValues] at ih ⊢
      rw [List.filterMap_cons_some hd, List.length_cons, List.length_cons, ih]

theorem digitValues_append (cs cs' : List Char) :
    digitValues (cs ++ cs') = digitValues cs ++ digitValues cs' :=
  List.filterMap_append

/-- A run of digits ends where there is no digit. -/
theorem digitRun_append {ds rest : List Char}
    (h : ∀ c ∈ ds, hasDigitValue c = true)
    (hrest : ∀ c ∈ rest.head?, digitValue? c = none) :
    digitRun (ds ++ rest) = (digitValues ds, rest) := by
  induction ds with
  | nil =>
      cases rest with
      | nil => rfl
      | cons c cs =>
          rw [List.nil_append, digitRun, hrest c rfl]
          rfl
  | cons c cs ih =>
      obtain ⟨d, hd⟩ := exists_digitValue (h c (by simp))
      rw [List.cons_append, digitRun, hd]
      simp only []
      rw [ih fun c hc => h c (by simp [hc]), digitValues, digitValues,
        List.filterMap_cons_some hd]

theorem mem_of_zeroOf? {points : List Nat} {c : Char} {point : Nat}
    (h : Text.zeroOf? points c = some point) :
    point ∈ points ∧ point ≤ c.toNat ∧ c.toNat < point + 10 := by
  have hrange := List.find?_some h
  simp only [Bool.and_eq_true, decide_eq_true_eq] at hrange
  exact ⟨List.mem_of_find?_eq_some h, hrange⟩

theorem exists_zero {c : Char} (h : hasDigitValue c = true) :
    ∃ point, Text.zeroOf? Text.zeroPoints c = some point := by
  obtain ⟨d, hd⟩ := exists_digitValue h
  rw [digitValue?, Option.map_eq_some_iff] at hd
  obtain ⟨point, hfound, _⟩ := hd
  exact ⟨point, hfound⟩

/-- Digits of other scripts have code points beyond the ASCII ones. -/
theorem toNat_of_hasDigitValue {c : Char} (h : hasDigitValue c = true) :
    (0x30 ≤ c.toNat ∧ c.toNat < 0x3a) ∨ 0x660 ≤ c.toNat := by
  have htable : ∀ point ∈ Text.zeroPoints, point = 0x30 ∨ 0x660 ≤ point := by
    decide
  obtain ⟨point, hfound⟩ := exists_zero h
  obtain ⟨hmem, hrange⟩ := mem_of_zeroOf? hfound
  rcases htable point hmem with rfl | hbeyond
  · exact Or.inl hrange
  · exact Or.inr (Nat.le_trans hbeyond hrange.1)

theorem hasDigitValue_of_isDigit {c : Char} (h : c.isDigit = true) :
    hasDigitValue c = true ∧ digitValue? c = some (c.toNat - 48) := by
  have hrange : 48 ≤ c.toNat ∧ c.toNat ≤ 57 := by
    rw [Char.isDigit, Bool.and_eq_true, decide_eq_true_eq, decide_eq_true_eq]
      at h
    exact ⟨UInt32.le_iff_toNat_le.1 h.1, UInt32.le_iff_toNat_le.1 h.2⟩
  have hzero : Text.zeroOf? Text.zeroPoints c = some 48 := by
    rw [Text.zeroOf?, Text.zeroPoints, List.find?_cons_of_pos]
    simp only [Bool.and_eq_true, decide_eq_true_eq]
    omega
  have hvalue : digitValue? c = some (c.toNat - 48) := by
    rw [digitValue?, hzero]
    rfl
  exact ⟨by rw [hasDigitValue, hvalue]; rfl, hvalue⟩

theorem isDigit_of_hasDigitValue {c : Char} (h : hasDigitValue c = true) :
    isDigit c = true := by
  rw [isDigit, h, Bool.true_or]

/-! ## Numerals -/

/-- An exponent as it is written. -/
structure Exponent where
  capital : Bool
  /-- Whether its sign is a minus, if it has a sign. -/
  negative? : Option Bool
  digits : List Char
  ne_nil : digits ≠ []
  areDigits : ∀ c ∈ digits, hasDigitValue c = true

/-- A decimal as it is written, without its sign. -/
structure Numeral where
  whole : List Char
  fraction? : Option (List Char)
  exponent? : Option Exponent
  ne_nil : whole ++ fraction?.getD [] ≠ []
  wholeDigits : ∀ c ∈ whole, hasDigitValue c = true
  fractionDigits : ∀ c ∈ fraction?.getD [], hasDigitValue c = true

namespace Exponent

def mark (e : Exponent) : Char :=
  if e.capital then 'E' else 'e'

def signCharacters (e : Exponent) : List Char :=
  match e.negative? with
  | none => []
  | some true => ['-']
  | some false => ['+']

def characters (e : Exponent) : List Char :=
  e.mark :: (e.signCharacters ++ e.digits)

def isNegative (e : Exponent) : Bool :=
  e.negative?.getD false

def value (e : Exponent) : Int :=
  if e.isNegative then -(ofDigits (digitValues e.digits) : Int)
  else ofDigits (digitValues e.digits)

end Exponent

namespace Numeral

def pointCharacters (n : Numeral) : List Char :=
  match n.fraction? with
  | none => []
  | some fraction => '.' :: fraction

def exponentCharacters (n : Numeral) : List Char :=
  match n.exponent? with
  | none => []
  | some e => e.characters

def characters (n : Numeral) : List Char :=
  n.whole ++ (n.pointCharacters ++ n.exponentCharacters)

def fraction (n : Numeral) : List Char :=
  n.fraction?.getD []

def power (n : Numeral) : Int :=
  match n.exponent? with
  | none => 0
  | some e => e.value

/-- The decimal that a numeral stands for, under a sign. -/
def decimal (n : Numeral) (negative : Bool) : Decimal :=
  ⟨negative, ofDigits (digitValues (n.whole ++ n.fraction)),
    n.power - n.fraction.length⟩

end Numeral

/-! ## Reading -/

theorem digitRun_all {ds : List Char}
    (h : ∀ c ∈ ds, hasDigitValue c = true) :
    digitRun ds = (digitValues ds, []) := by
  have hend : ∀ c ∈ [].head?, digitValue? c = none := fun c hc => by cases hc
  have hrun := digitRun_append h hend
  rw [List.append_nil] at hrun
  exact hrun

theorem ne_of_hasDigitValue {c c' : Char} (h : hasDigitValue c = true)
    (h' : hasDigitValue c' = false) : c ≠ c' := by
  intro heq
  rw [heq, h'] at h
  cases h

theorem takeSign_of_ne {c : Char} {cs : List Char} (hplus : c ≠ '+')
    (hminus : c ≠ '-') : takeSign (c :: cs) = (false, c :: cs) := by
  rw [takeSign]
  · intro cs' h
    injection h with h
    exact hminus h
  · intro cs' h
    injection h with h
    exact hplus h

theorem Exponent.takeSign_characters (e : Exponent) :
    takeSign (e.signCharacters ++ e.digits) = (e.isNegative, e.digits) := by
  obtain ⟨capital, negative?, digits, hne, hdigits⟩ := e
  match negative? with
  | some true => rfl
  | some false => rfl
  | none =>
      obtain ⟨c, cs, rfl⟩ := List.exists_cons_of_ne_nil hne
      have hc := hdigits c (by simp)
      exact takeSign_of_ne (ne_of_hasDigitValue hc (by decide))
        (ne_of_hasDigitValue hc (by decide))

theorem Exponent.mark_eq (e : Exponent) : e.mark = 'e' ∨ e.mark = 'E' := by
  rw [mark]
  cases e.capital
  · exact Or.inl rfl
  · exact Or.inr rfl

theorem readExponent?_characters (e : Exponent) :
    readExponent? e.characters = some e.value := by
  have hlength := length_digitValues e.areDigits
  have hne := List.length_pos_iff.2 e.ne_nil
  rw [Exponent.characters, readExponent?, if_pos e.mark_eq]
  simp only [e.takeSign_characters, digitRun_all e.areDigits]
  rw [Exponent.value]
  cases hvalues : digitValues e.digits with
  | nil =>
      rw [hvalues, List.length_nil] at hlength
      omega
  | cons d ds => rfl

namespace Numeral

theorem exponentCharacters_head (n : Numeral) :
    ∀ c ∈ n.exponentCharacters.head?, digitValue? c = none ∧ c ≠ '.' := by
  intro c hc
  rw [exponentCharacters] at hc
  cases he : n.exponent? with
  | none =>
      rw [he] at hc
      cases hc
  | some e =>
      rw [he] at hc
      obtain rfl : e.mark = c := Option.some.inj hc
      rcases e.mark_eq with h | h
      · rw [h]; decide
      · rw [h]; decide

theorem readExponent?_exponentCharacters (n : Numeral) :
    readExponent? n.exponentCharacters = some n.power := by
  rw [exponentCharacters, power]
  cases n.exponent? with
  | none => rfl
  | some e => exact readExponent?_characters e

theorem fractionRun_characters (n : Numeral) :
    fractionRun (n.pointCharacters ++ n.exponentCharacters) =
      (digitValues n.fraction, n.exponentCharacters) := by
  have hhead := n.exponentCharacters_head
  have hdigits := n.fractionDigits
  rw [pointCharacters, fraction]
  cases hf : n.fraction? with
  | none =>
      cases hcs : n.exponentCharacters with
      | nil => rfl
      | cons c cs =>
          rw [hcs] at hhead
          simp only [List.nil_append]
          rw [fractionRun]
          · rfl
          · intro cs' h
            injection h with h
            exact (hhead c rfl).2 h
  | some fraction =>
      rw [hf] at hdigits
      exact digitRun_append hdigits fun c hc => (hhead c hc).1

theorem length_fraction (n : Numeral) :
    (digitValues n.fraction).length = n.fraction.length :=
  length_digitValues n.fractionDigits

/-- The reader finds the decimal that a numeral stands for. -/
theorem readDecimal?_characters (n : Numeral) (negative : Bool) :
    readDecimal? negative n.characters = some (n.decimal negative) := by
  have hrest : ∀ c ∈ (n.pointCharacters ++ n.exponentCharacters).head?,
      digitValue? c = none := by
    intro c hc
    rw [pointCharacters] at hc
    cases hf : n.fraction? with
    | none =>
        rw [hf] at hc
        exact (n.exponentCharacters_head c hc).1
    | some fraction =>
        rw [hf] at hc
        obtain rfl : '.' = c := Option.some.inj hc
        decide
  have hsome : ¬ ((digitValues n.whole).isEmpty &&
      (digitValues n.fraction).isEmpty) = true := by
    intro hempty
    rw [Bool.and_eq_true, List.isEmpty_iff_length_eq_zero,
      List.isEmpty_iff_length_eq_zero, length_digitValues n.wholeDigits,
      n.length_fraction, List.length_eq_zero_iff,
      List.length_eq_zero_iff] at hempty
    refine n.ne_nil ?_
    rw [hempty.1]
    exact hempty.2
  rw [readDecimal?, characters]
  simp only [digitRun_append n.wholeDigits hrest, n.fractionRun_characters]
  rw [if_neg hsome, n.readExponent?_exponentCharacters, Option.map_some,
    decimal, digitValues_append, n.length_fraction]

end Numeral

/-! ## Free text around a numeral -/

theorem isBlank_of_zeroOf? {points : List Nat}
    (htable : ∀ point ∈ points, ∀ k < 10,
      isBlank (Char.ofNat (point + k)) = false)
    {c : Char} {point : Nat} (h : Text.zeroOf? points c = some point) :
    isBlank c = false := by
  obtain ⟨hmem, hrange⟩ := mem_of_zeroOf? h
  have hc := htable point hmem (c.toNat - point) (by omega)
  rw [Nat.add_sub_cancel' hrange.1, Char.ofNat_toNat] at hc
  exact hc

theorem isBlank_of_hasDigitValue {c : Char} (h : hasDigitValue c = true) :
    isBlank c = false := by
  obtain ⟨point, hfound⟩ := exists_zero h
  exact isBlank_of_zeroOf? (by decide +kernel) hfound

theorem trim_of_not_blank {cs : List Char}
    (h : ∀ c ∈ cs, isBlank c = false) : Text.trim cs = cs := by
  have hkeep : ∀ ds : List Char, (∀ c ∈ ds, isBlank c = false) →
      ds.dropWhile isBlank = ds := by
    intro ds hds
    cases ds with
    | nil => rfl
    | cons c ds =>
        rw [List.dropWhile_cons_of_neg (by rw [hds c (by simp)]; decide)]
  rw [Text.trim, hkeep cs h, hkeep cs.reverse (by simpa using h),
    List.reverse_reverse]

theorem isSeparated_of_not_mem {cs : List Char} (h : '_' ∉ cs)
    (afterDigit : Bool) : isSeparated afterDigit cs = true := by
  induction cs generalizing afterDigit with
  | nil => rfl
  | cons c cs ih =>
      rw [List.mem_cons, not_or] at h
      rw [isSeparated, if_neg (Ne.symm h.1)]
      exact ih h.2 _

theorem withoutUnderscores_of_not_mem {cs : List Char} (h : '_' ∉ cs) :
    withoutUnderscores cs = cs := by
  refine List.filter_eq_self.2 fun c hc => ?_
  refine decide_eq_true fun heq => ?_
  rw [heq] at hc
  exact h hc

/-- Text without blanks and underscores is read as it stands. -/
theorem read?_ofList {cs : List Char} (hblank : ∀ c ∈ cs, isBlank c = false)
    (hscore : '_' ∉ cs) : read? (String.ofList cs) = readPlain? cs := by
  rw [read?, String.toList_ofList]
  simp only [trim_of_not_blank hblank]
  rw [if_pos (isSeparated_of_not_mem hscore false),
    withoutUnderscores_of_not_mem hscore]

namespace Numeral

theorem mem_characters {n : Numeral} {c : Char} (h : c ∈ n.characters) :
    hasDigitValue c = true ∨ c ∈ ['.', 'e', 'E', '+', '-'] := by
  rw [characters, List.mem_append, List.mem_append] at h
  rcases h with h | h | h
  · exact Or.inl (n.wholeDigits c h)
  · have hdigits := n.fractionDigits
    rw [pointCharacters] at h
    cases hf : n.fraction? with
    | none =>
        rw [hf] at h
        cases h
    | some fraction =>
        rw [hf] at h hdigits
        rcases List.mem_cons.1 h with rfl | h
        · exact Or.inr (by simp)
        · exact Or.inl (hdigits c h)
  · rw [exponentCharacters] at h
    cases he : n.exponent? with
    | none =>
        rw [he] at h
        cases h
    | some e =>
        rw [he] at h
        rcases List.mem_cons.1 h with rfl | h
        · rcases e.mark_eq with h | h
          · exact Or.inr (by simp [h])
          · exact Or.inr (by simp [h])
        · rcases List.mem_append.1 h with h | h
          · refine Or.inr ?_
            rw [Exponent.signCharacters] at h
            split at h
            · cases h
            · simp [List.mem_singleton.1 h]
            · simp [List.mem_singleton.1 h]
          · exact Or.inl (e.areDigits c h)

theorem not_blank_of_mem {n : Numeral} {c : Char} (h : c ∈ n.characters) :
    isBlank c = false := by
  have hsigns : ['.', 'e', 'E', '+', '-'].all (!isBlank ·) = true := by decide
  rcases mem_characters h with h | h
  · exact isBlank_of_hasDigitValue h
  · have hc := List.all_eq_true.1 hsigns c h
    rwa [Bool.not_eq_true'] at hc

theorem underscore_not_mem (n : Numeral) : '_' ∉ n.characters := by
  intro h
  rcases mem_characters h with h | h
  · exact absurd h (by decide)
  · exact absurd h (by decide)

theorem exists_head (n : Numeral) :
    ∃ c cs, n.characters = c :: cs ∧ (hasDigitValue c = true ∨ c = '.') := by
  rw [characters]
  cases hw : n.whole with
  | cons c cs =>
      refine ⟨c, _, rfl, Or.inl (n.wholeDigits c ?_)⟩
      rw [hw]
      exact List.mem_cons_self
  | nil =>
      rw [pointCharacters]
      cases hf : n.fraction? with
      | some fraction => exact ⟨'.', _, rfl, Or.inr rfl⟩
      | none =>
          refine absurd ?_ n.ne_nil
          rw [hw, hf]
          rfl

end Numeral

theorem toLower_eq_self {c : Char} (h : hasDigitValue c = true ∨ c = '.') :
    c.toLower = c := by
  rcases h with h | rfl
  · have hrange := toNat_of_hasDigitValue h
    refine dif_neg fun hcase => ?_
    have hlow : 65 ≤ c.toNat := UInt32.le_iff_toNat_le.1 hcase.1
    have hhigh : c.toNat ≤ 90 := UInt32.le_iff_toNat_le.1 hcase.2
    omega
  · decide

/-- A text that begins like a numeral is none of the words. -/
theorem lower_ne_word {c d : Char} {cs ds : List Char}
    (h : hasDigitValue c = true ∨ c = '.')
    (hd : hasDigitValue d = false ∧ d ≠ '.') : lower (c :: cs) ≠ d :: ds := by
  intro heq
  injection heq with hhead
  rw [toLower_eq_self h] at hhead
  rcases h with h | h
  · exact ne_of_hasDigitValue h hd.1 hhead
  · exact hd.2 (hhead.symm.trans h)

def signText (negative : Bool) : List Char :=
  if negative then ['-'] else []

theorem eq_minus_of_mem_signText {negative : Bool} {c : Char}
    (h : c ∈ signText negative) : c = '-' := by
  cases negative with
  | true => exact List.mem_singleton.1 h
  | false => cases h

theorem Numeral.takeSign_characters (n : Numeral) :
    takeSign n.characters = (false, n.characters) := by
  obtain ⟨c, cs, hcs, hc⟩ := n.exists_head
  rw [hcs]
  rcases hc with hc | rfl
  · exact takeSign_of_ne (ne_of_hasDigitValue hc (by decide))
      (ne_of_hasDigitValue hc (by decide))
  · exact takeSign_of_ne (by decide) (by decide)

/-- What is read after the sign, if that is a numeral. -/
theorem readPlain?_numeral {cs : List Char} {negative : Bool} {n : Numeral}
    (hsign : takeSign cs = (negative, n.characters)) :
    readPlain? cs = some (n.decimal negative).toFloat := by
  obtain ⟨c, cs, hcs, hc⟩ := n.exists_head
  have hnan : lower n.characters ≠ "nan".toList :=
    hcs ▸ lower_ne_word hc (by decide)
  have hinf : ¬ (lower n.characters = "inf".toList ∨
      lower n.characters = "infinity".toList) :=
    not_or.2 ⟨hcs ▸ lower_ne_word hc (by decide),
      hcs ▸ lower_ne_word hc (by decide)⟩
  rw [readPlain?]
  simp only [hsign]
  rw [if_neg hnan, if_neg hinf, n.readDecimal?_characters, Option.map_some]

theorem readPlain?_characters (n : Numeral) (negative : Bool) :
    readPlain? (signText negative ++ n.characters) =
      some (n.decimal negative).toFloat := by
  refine readPlain?_numeral ?_
  cases negative with
  | true => rfl
  | false => exact n.takeSign_characters

theorem read?_characters (n : Numeral) (negative : Bool) :
    read? (String.ofList (signText negative ++ n.characters)) =
      some (n.decimal negative).toFloat := by
  rw [read?_ofList, readPlain?_characters]
  · intro c hc
    rcases List.mem_append.1 hc with h | h
    · rw [eq_minus_of_mem_signText h]
      decide
    · exact Numeral.not_blank_of_mem h
  · intro hc
    rcases List.mem_append.1 hc with h | h
    · exact absurd (eq_minus_of_mem_signText h) (by decide)
    · exact n.underscore_not_mem h

/-! ## The grammar admits every numeral -/

open Pattern

theorem matches_many_digit {p : Pattern} {cs : List Char}
    (hp : ∀ c, isDigit c = true → Matches p [c])
    (h : ∀ c ∈ cs, isDigit c = true) : Matches (many p) cs := by
  induction cs with
  | nil => exact .stop
  | cons c cs ih =>
      exact .more (hp c (h c (by simp))) (ih fun c hc => h c (by simp [hc]))

theorem matches_integral {cs : List Char} (hne : cs ≠ [])
    (h : ∀ c ∈ cs, isDigit c = true) : Matches integral cs := by
  obtain ⟨c, cs, rfl⟩ := List.exists_cons_of_ne_nil hne
  have hrest : Matches (many (alt digit group)) cs :=
    matches_many_digit (fun _ hc => .left (.one hc))
      fun c hc => h c (by simp [hc])
  exact .seq (.one (h c (by simp))) (.seq .skip (.seq .skip hrest))

theorem matches_exponent (e : Exponent) : Matches exponent e.characters := by
  have hsign : Matches (optional sign) e.signCharacters := by
    rw [Exponent.signCharacters]
    split
    · exact .skip
    · exact .take (.one (by decide))
    · exact .take (.one (by decide))
  have hmark : Matches (oneOf ['e', 'E']) [e.mark] := by
    rcases e.mark_eq with h | h
    · rw [h]
      exact .one (by decide)
    · rw [h]
      exact .one (by decide)
  have hdigits : Matches (atLeastOnce digit) e.digits :=
    matches_atLeastOnce_one.2 ⟨e.ne_nil, fun c hc =>
      isDigit_of_hasDigitValue (e.areDigits c hc)⟩
  exact .seq hmark (.seq hsign hdigits)

/-- Digits with a point among them or none are a decimal. -/
theorem matches_decimal_of_digits {whole : List Char}
    {fraction? : Option (List Char)}
    (hne : whole ++ fraction?.getD [] ≠ [])
    (hwhole : ∀ c ∈ whole, isDigit c = true)
    (hfraction : ∀ c ∈ fraction?.getD [], isDigit c = true) :
    Matches Number.decimal (whole ++ (fraction?.map ('.' :: ·)).getD []) := by
  have hpoint : Matches (char '.') ['.'] := .one (by decide)
  cases fraction? with
  | none =>
      rw [Option.getD_none, List.append_nil] at hne
      exact .left (.seq (matches_integral hne hwhole) .skip)
  | some fraction =>
      rw [Option.getD_some] at hne hfraction
      by_cases hnil : whole = []
      · rw [hnil, List.nil_append] at hne ⊢
        exact .right (.seq .skip (.seq hpoint
          (.left (matches_atLeastOnce_one.2 ⟨hne, hfraction⟩))))
      · refine .left (.seq (matches_integral hnil hwhole)
          (.take (.seq hpoint ?_)))
        by_cases hnil' : fraction = []
        · rw [hnil']
          exact .skip
        · exact .take (.left (matches_atLeastOnce_one.2 ⟨hnil', hfraction⟩))

theorem Numeral.pointCharacters_eq (n : Numeral) :
    n.pointCharacters = (n.fraction?.map ('.' :: ·)).getD [] := by
  rw [pointCharacters]
  cases n.fraction? with
  | none => rfl
  | some fraction => rfl

theorem Numeral.matches_decimal (n : Numeral) :
    Matches Number.decimal (n.whole ++ n.pointCharacters) := by
  rw [n.pointCharacters_eq]
  exact matches_decimal_of_digits n.ne_nil
    (fun c hc => isDigit_of_hasDigitValue (n.wholeDigits c hc))
    (fun c hc => isDigit_of_hasDigitValue (n.fractionDigits c hc))

theorem matches_literal (n : Numeral) (negative : Bool) :
    Matches literal (signText negative ++ n.characters) := by
  have hsign : Matches (optional sign) (signText negative) := by
    cases negative with
    | false => exact .skip
    | true => exact .take (.one (by decide))
  have hexponent : Matches (optional exponent) n.exponentCharacters := by
    rw [Numeral.exponentCharacters]
    cases n.exponent? with
    | none => exact .skip
    | some e => exact .take (matches_exponent e)
  rw [Numeral.characters, ← List.append_assoc n.whole]
  exact .left (.seq hsign (.seq n.matches_decimal hexponent))

theorem isNumber_characters (n : Numeral) (negative : Bool) :
    isNumber (String.ofList (signText negative ++ n.characters)) = true := by
  rw [isNumber, String.toList_ofList, accepts_iff]
  exact matches_literal n negative

end Number

end Rpn
