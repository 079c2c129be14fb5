import Rpn.Decimal.Layout
import Rpn.Proofs.Numeral
import Rpn.Proofs.Shortest
import Rpn.Token

/-!
# A written number reads back

The calculator saves an operand as its number, so a program survives only if
every number does. `number_numberText` is that statement: the text of a double
is a number token, and the token stands for that very double, whatever it is.

For a finite double the text is a sign and a numeral. The layout decides where
the point goes and whether there is an exponent, and on the way it may add
zeros. `Numeral.Writes` says which digits there are and where the point stands,
`exists_writes` that a layout does so, and `Numeral.Writes.rank` that the rank
of the decimal is not lost on the way, whatever its digits are. Infinities and
the double that is not a number are written as words, and there are only three
of them.
-/

namespace Rpn

open Number Binary64
open Text (hasDigitValue)

namespace Layout

/-! ## ASCII digits -/

theorem foldl_digitValues {cs : List Char} (h : ∀ c ∈ cs, c.isDigit = true)
    (start : Nat) :
    (digitValues cs).foldl (fun value d => 10 * value + d) start =
      Nat.ofDigitChars 10 cs start := by
  induction cs generalizing start with
  | nil => rfl
  | cons c cs ih =>
      have hc := (hasDigitValue_of_isDigit (h c (by simp))).2
      have ih := ih (fun c hc => h c (by simp [hc]))
        (10 * start + (c.toNat - 48))
      rw [digitValues] at ih ⊢
      rw [List.filterMap_cons_some hc, List.foldl_cons, ih,
        Nat.ofDigitChars_cons]
      rfl

theorem ofDigits_digitValues {cs : List Char}
    (h : ∀ c ∈ cs, c.isDigit = true) :
    ofDigits (digitValues cs) = Nat.ofDigitChars 10 cs 0 :=
  foldl_digitValues h 0

theorem length_zeros (k : Nat) : (zeros k).length = k :=
  List.length_replicate

theorem zeros_append (k k' : Nat) : zeros k ++ zeros k' = zeros (k + k') :=
  List.replicate_append_replicate

theorem isDigit_zeros (k : Nat) : ∀ c ∈ zeros k, c.isDigit = true := by
  intro c hc
  rw [List.eq_of_mem_replicate hc]
  decide

theorem isDigit_toDigits (n : Nat) :
    ∀ c ∈ Nat.toDigits 10 n, c.isDigit = true :=
  fun _ hc => Nat.isDigit_of_mem_toDigits (by decide) (by decide) hc

/-- Digits with zeros on both sides. -/
theorem isDigit_padded (before n after : Nat) :
    ∀ c ∈ zeros before ++ (Nat.toDigits 10 n ++ zeros after),
      c.isDigit = true :=
  List.forall_mem_append.2 ⟨isDigit_zeros before,
    List.forall_mem_append.2 ⟨isDigit_toDigits n, isDigit_zeros after⟩⟩

theorem ofDigitChars_padded (before n after : Nat) :
    Nat.ofDigitChars 10 (zeros before ++ (Nat.toDigits 10 n ++ zeros after)) 0 =
      n * 10 ^ after := by
  rw [Nat.ofDigitChars_append, Nat.ofDigitChars_append, zeros, zeros,
    Nat.ofDigitChars_replicate_zero, Nat.ofDigitChars_replicate_zero,
    Nat.mul_zero, Nat.ofDigitChars_ten_toDigits, Nat.mul_comm]

end Layout

open Layout (zeros)

/-! ## How a decimal is written -/

/-- An exponent with its sign and two digits at least. -/
def Number.Exponent.written (power : Int) : Exponent where
  capital := false
  negative? := some (decide (power < 0))
  digits := zeros (2 - (Nat.toDigits 10 power.natAbs).length) ++
    Nat.toDigits 10 power.natAbs
  ne_nil := List.append_ne_nil_of_right_ne_nil _ Nat.toDigits_ne_nil
  areDigits c hc := (hasDigitValue_of_isDigit (List.forall_mem_append.2
    ⟨Layout.isDigit_zeros _, Layout.isDigit_toDigits _⟩ c hc)).1

namespace Number.Numeral

/-- Without an exponent: the digits, with zeros in front that reach back to the
ones, or zeros behind that reach on to the first place after the point. -/
structure IsPositional (n : Numeral) (d : Decimal) : Prop where
  digits : n.whole ++ n.fraction =
    zeros (-d.lead).toNat ++ (d.digits ++ zeros (d.exponent + 1).toNat)
  ones : n.whole.length = d.lead.toNat + 1
  exponent : n.exponent? = none

/-- With an exponent: the digits alone, one of them in front of the point, and
no point if there are no more. -/
structure IsScientific (n : Numeral) (d : Decimal) : Prop where
  digits : n.whole ++ n.fraction = d.digits
  ones : n.whole.length = 1
  point : n.fraction? = none ↔ d.length = 1
  exponent : n.exponent? = some (Exponent.written d.lead)

/-- There is no exponent if the first digit stands for a power of ten from -4 to
15. -/
def Writes (n : Numeral) (d : Decimal) : Prop :=
  if -4 ≤ d.lead ∧ d.lead ≤ 15 then n.IsPositional d else n.IsScientific d

end Number.Numeral

/-! ## What is written has the rank of the decimal -/

theorem Number.Exponent.value_written (power : Int) :
    (Exponent.written power).value = power := by
  have hall := Layout.isDigit_padded
    (2 - (Nat.toDigits 10 power.natAbs).length) power.natAbs 0
  have hdigits := Layout.ofDigitChars_padded
    (2 - (Nat.toDigits 10 power.natAbs).length) power.natAbs 0
  rw [show zeros 0 = [] from rfl, List.append_nil] at hall hdigits
  rw [value, isNegative, written, Layout.ofDigits_digitValues hall, hdigits,
    Option.getD_some]
  by_cases hsign : power < 0
  · rw [if_pos (decide_eq_true hsign)]
    omega
  · rw [if_neg (by simpa using hsign)]
    omega

namespace Number.Numeral

theorem decimal_eq {n : Numeral}
    (h : ∀ c ∈ n.whole ++ n.fraction, c.isDigit = true) (negative : Bool) :
    n.decimal negative =
      ⟨negative, Nat.ofDigitChars 10 (n.whole ++ n.fraction) 0,
        n.power - n.fraction.length⟩ := by
  rw [decimal, Layout.ofDigits_digitValues h]

theorem IsPositional.rank {n : Numeral} {d : Decimal} (h : n.IsPositional d)
    (negative : Bool) : (n.decimal negative).rank = d.rank := by
  have hall := Layout.isDigit_padded (-d.lead).toNat d.coefficient
    (d.exponent + 1).toNat
  have hlength := congrArg List.length h.digits
  rw [List.length_append, List.length_append, List.length_append,
    Layout.length_zeros, Layout.length_zeros, h.ones] at hlength
  have hpos := d.length_pos
  have hexponent : (0 : Int) - n.fraction.length + (d.exponent + 1).toNat =
      d.exponent := by
    rw [Decimal.length] at hpos
    rw [Decimal.lead, Decimal.length] at hlength
    omega
  rw [decimal_eq (h.digits ▸ hall), h.digits, Decimal.digits,
    Layout.ofDigitChars_padded, power, h.exponent]
  exact Decimal.rank_shift.trans
    (congrArg (fun e => Decimal.rank ⟨d.negative, d.coefficient, e⟩) hexponent)

theorem IsScientific.rank {n : Numeral} {d : Decimal} (h : n.IsScientific d)
    (negative : Bool) : (n.decimal negative).rank = d.rank := by
  have hlength := congrArg List.length h.digits
  rw [List.length_append, h.ones] at hlength
  have hexponent : d.lead - n.fraction.length = d.exponent := by
    rw [Decimal.lead, Decimal.length]
    omega
  rw [decimal_eq (h.digits ▸ Layout.isDigit_toDigits d.coefficient), h.digits,
    Decimal.digits, Nat.ofDigitChars_ten_toDigits, power, h.exponent]
  simp only []
  rw [Exponent.value_written, hexponent]
  rfl

theorem Writes.rank {n : Numeral} {d : Decimal} (h : n.Writes d)
    (negative : Bool) : (n.decimal negative).rank = d.rank := by
  rw [Writes] at h
  split at h
  · exact h.rank negative
  · exact h.rank negative

end Number.Numeral

/-! ## What a layout writes -/

namespace Layout

theorem exponent_eq (lead : Int) :
    standard.exponent lead = (Exponent.written lead).characters := by
  rw [exponent, Exponent.characters, Exponent.mark, Exponent.signCharacters]
  by_cases hsign : lead < 0
  · simp [hsign, standard, Exponent.written]
  · simp [hsign, standard, Exponent.written]

/-- The numeral of the given parts, in ASCII digits. -/
def numeral (whole : List Char) (fraction? : Option (List Char))
    (exponent? : Option Exponent) (hne : whole ≠ [])
    (h : ∀ c ∈ whole ++ fraction?.getD [], c.isDigit = true) : Numeral where
  whole := whole
  fraction? := fraction?
  exponent? := exponent?
  ne_nil := List.append_ne_nil_of_left_ne_nil hne _
  wholeDigits c hc :=
    (hasDigitValue_of_isDigit (h c (List.mem_append_left _ hc))).1
  fractionDigits c hc :=
    (hasDigitValue_of_isDigit (h c (List.mem_append_right _ hc))).1

section Forms

variable (d : Decimal)

theorem exists_positional (whole fraction : List Char)
    (hdigits : whole ++ fraction =
      zeros (-d.lead).toNat ++ (d.digits ++ zeros (d.exponent + 1).toNat))
    (hones : whole.length = d.lead.toNat + 1) :
    ∃ n : Numeral, whole ++ '.' :: fraction = n.characters ∧
      n.IsPositional d := by
  have hall := isDigit_padded (-d.lead).toNat d.coefficient
    (d.exponent + 1).toNat
  have hne : whole ≠ [] := List.ne_nil_of_length_pos (by omega)
  refine ⟨numeral whole (some fraction) none hne (hdigits ▸ hall), ?_,
    ⟨hdigits, hones, rfl⟩⟩
  show _ = whole ++ ('.' :: fraction ++ [])
  rw [List.append_nil]

theorem exists_characters_positional :
    ∃ n : Numeral, standard.positional d.digits d.lead = n.characters ∧
      n.IsPositional d := by
  have hpos := d.length_pos
  have hlead : d.lead = d.exponent + d.length - 1 := rfl
  rw [Decimal.length] at hpos hlead
  rw [positional]
  split
  · -- A zero, the point, and zeros before the digits.
    next hsmall =>
      refine exists_positional d (zeros 1)
        (zeros (-d.lead - 1).toNat ++ d.digits) ?_ ?_
      · rw [← List.append_assoc, zeros_append,
          show 1 + (-d.lead - 1).toNat = (-d.lead).toNat by omega,
          show (d.exponent + 1).toNat = 0 by omega]
        rw [show zeros 0 = [] from rfl, List.append_nil]
      · rw [length_zeros]
        omega
  · next hlarge =>
      simp only []
      split
      · -- All the digits, zeros up to the point, and one behind it.
        next hshort =>
          refine exists_positional d _ (zeros 1) ?_ ?_
          · rw [List.append_assoc, zeros_append,
              show (-d.lead).toNat = 0 by omega,
              show (d.exponent + 1).toNat =
                d.lead.toNat + 1 - d.digits.length + 1 by omega]
            rfl
          · rw [List.length_append, length_zeros]
            omega
      · -- The point among the digits.
        next hlong =>
          refine exists_positional d _ _ ?_ ?_
          · rw [List.take_append_drop, show (-d.lead).toNat = 0 by omega,
              show (d.exponent + 1).toNat = 0 by omega]
            rw [show zeros 0 = [] from rfl, List.append_nil, List.nil_append]
          · rw [List.length_take]
            omega

theorem exists_characters_scientific :
    ∃ n : Numeral, standard.scientific d.digits d.lead = n.characters ∧
      n.IsScientific d := by
  have hpos := d.length_pos
  have hall := isDigit_toDigits d.coefficient
  rw [← Decimal.digits] at hall
  rw [Decimal.length] at hpos
  rw [scientific.eq_def, exponent_eq]
  match hdigits : d.digits with
  | [] =>
      rw [hdigits] at hpos
      cases hpos
  | [first] =>
      rw [hdigits] at hall
      refine ⟨numeral [first] none (some (Exponent.written d.lead))
        (List.cons_ne_nil _ _) hall, rfl, ⟨hdigits.symm, rfl, ?_, rfl⟩⟩
      rw [Decimal.length, hdigits]
      exact ⟨fun _ => rfl, fun _ => rfl⟩
  | first :: c :: rest =>
      rw [hdigits] at hall
      refine ⟨numeral [first] (some (c :: rest)) (some (Exponent.written d.lead))
        (List.cons_ne_nil _ _) hall, rfl, ⟨hdigits.symm, rfl, ?_, rfl⟩⟩
      rw [Decimal.length, hdigits]
      exact ⟨fun h => (nomatch h), fun h => (nomatch h)⟩

end Forms

/-- The digits of a decimal, in whatever form they are laid out. -/
theorem exists_writes (d : Decimal) :
    ∃ n : Numeral, standard.magnitude d = n.characters ∧ n.Writes d := by
  rw [magnitude]
  by_cases h : -4 ≤ d.lead ∧ d.lead ≤ 15
  · obtain ⟨n, hcharacters, hn⟩ := exists_characters_positional d
    refine ⟨n, ?_, ?_⟩
    · rw [← hcharacters]
      exact if_pos h
    · rw [Numeral.Writes, if_pos h]
      exact hn
  · obtain ⟨n, hcharacters, hn⟩ := exists_characters_scientific d
    refine ⟨n, ?_, ?_⟩
    · rw [← hcharacters]
      exact if_neg h
    · rw [Numeral.Writes, if_neg h]
      exact hn

/-! ## Doubles -/

theorem characters_of_le {x : Float} (h : rank x ≤ infinityRank) :
    standard.characters x = signText (isNegative x) ++
      if rank x = infinityRank then "inf".toList
      else standard.magnitude (Decimal.shortest x) := by
  rw [characters, if_neg (Nat.not_lt.2 h)]
  cases isNegative x with
  | true => rfl
  | false => rfl

end Layout

theorem number_numeral (n : Numeral) (negative : Bool) :
    Token.number (String.ofList (signText negative ++ n.characters)) =
      .ok (n.decimal negative).toFloat := by
  have hscore : '_' ∉ signText negative ++ n.characters := by
    rw [List.mem_append, not_or]
    exact ⟨fun h => absurd (eq_minus_of_mem_signText h) (by decide),
      n.underscore_not_mem⟩
  rw [Token.number, if_pos (isNumber_characters n negative),
    String.toList_ofList, withoutUnderscores_of_not_mem hscore]
  simp only [read?_characters]

theorem number_infinity (negative : Bool) :
    Token.number (String.ofList (signText negative ++ "inf".toList)) =
      .ok (ofRank negative infinityRank) := by
  cases negative with
  | true => rfl
  | false => rfl

theorem number_nan : Token.number "nan" = .ok nan := rfl

/-- The text of a double is a number token for that double. -/
theorem number_numberText (x : Float) :
    Token.number (numberText x) = .ok x := by
  rw [numberText, Layout.write]
  rcases Nat.lt_or_ge infinityRank (rank x) with hnan | hle
  · rw [Layout.characters, if_pos hnan, eq_nan_of_rank hnan]
    exact number_nan
  · rw [Layout.characters_of_le hle]
    split
    · next hinfinite =>
        rw [number_infinity, ← hinfinite, ofRank_rank]
    · next hfinite =>
        obtain ⟨n, hcharacters, hwrites⟩ :=
          Layout.exists_writes (Decimal.shortest x)
        rw [hcharacters, number_numeral, Decimal.toFloat, hwrites.rank,
          Decimal.rank_shortest (Nat.lt_of_le_of_ne hle hfinite)]
        exact congrArg Except.ok (ofRank_rank x)

theorem isNumber_numberText (x : Float) :
    Number.isNumber (numberText x) = true := by
  have hnumber := number_numberText x
  rw [Token.number] at hnumber
  split at hnumber
  · next h => exact h
  · cases hnumber

/-- Two doubles are never written alike. -/
theorem numberText_injective {x y : Float} (h : numberText x = numberText y) :
    x = y := by
  have hx := number_numberText x
  rw [h, number_numberText y] at hx
  exact (Except.ok.inj hx).symm

end Rpn
