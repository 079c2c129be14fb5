import Rpn.Proofs.Effects
import Rpn.Proofs.Loading

/-!
# Number tokens as free text

A number token can be read in three ways: by the calculator, which drops its
underscores first; by the calculator again, after somebody else has dropped
them; and as free text, which has the underscores in it and allows them only
between two digits. The grammar of tokens puts them there, at every third digit
(`IsLiteral.isSeparated`), so all three come to the same.

The other way round free text is more liberal than the grammar, but only in
blanks and underscores: what is read without either is a number token
(`isLiteral_of_readPlain?`).
-/

namespace Rpn

open Text (hasDigitValue isBlank isDigit)

namespace Number

/-! ## Every underscore stands between digits -/

/-- Characters that can stand after a digit and are themselves digits at their
end, so far as underscores go. -/
def GoesOn (cs : List Char) : Prop :=
  ∀ rest, isSeparated true (cs ++ rest) = isSeparated true rest

theorem goesOn_nil : GoesOn [] :=
  fun _ => rfl

theorem isSeparated_digits {ds : List Char} (hne : ds ≠ [])
    (h : ∀ c ∈ ds, hasDigitValue c = true) (afterDigit : Bool)
    (rest : List Char) :
    isSeparated afterDigit (ds ++ rest) = isSeparated true rest := by
  induction ds generalizing afterDigit with
  | nil => exact absurd rfl hne
  | cons c ds ih =>
      obtain ⟨hc, hds⟩ := List.forall_mem_cons.1 h
      rw [List.cons_append, isSeparated,
        if_neg (ne_underscore_of_isDigit (isDigit_of_hasDigitValue hc)), hc]
      cases ds with
      | nil => rfl
      | cons d ds => exact ih (List.cons_ne_nil d ds) hds true

theorem goesOn_digits {ds : List Char}
    (h : ∀ c ∈ ds, hasDigitValue c = true) : GoesOn ds := by
  intro rest
  by_cases hnil : ds = []
  · rw [hnil]
    rfl
  · exact isSeparated_digits hnil h true rest

/-- An underscore with digits after it. -/
theorem goesOn_scored {ds : List Char} (hne : ds ≠ [])
    (h : ∀ c ∈ ds, hasDigitValue c = true) : GoesOn ('_' :: ds) := by
  intro rest
  have hhead : ((ds ++ rest).head?.map hasDigitValue).getD false = true := by
    obtain ⟨c, ds, rfl⟩ := List.exists_cons_of_ne_nil hne
    exact h c (by simp)
  rw [List.cons_append, isSeparated, if_pos rfl, hhead,
    isSeparated_digits hne h]
  rfl

theorem GoesOn.append {cs cs' : List Char} (h : GoesOn cs) (h' : GoesOn cs') :
    GoesOn (cs ++ cs') := by
  intro rest
  rw [List.append_assoc, h, h']

theorem goesOn_flatten {parts : List (List Char)}
    (h : ∀ part ∈ parts, GoesOn part) : GoesOn parts.flatten := by
  induction parts with
  | nil => exact goesOn_nil
  | cons part parts ih =>
      obtain ⟨hpart, hparts⟩ := List.forall_mem_cons.1 h
      exact hpart.append (ih hparts)

/-- Digits of a token that is read have values. -/
theorem AllDigits.values {ds : List Char} (h : AllDigits ds)
    (hread : ∀ c ∈ ds, isUnread c = false) :
    ∀ c ∈ ds, hasDigitValue c = true :=
  fun c hc => hasDigitValue_of_read (h c hc) (hread c hc)

theorem IsGroup.goesOn {cs : List Char} (h : IsGroup cs)
    (hread : ∀ c ∈ cs, isUnread c = false) : GoesOn cs := by
  obtain ⟨ds, rfl, hlength, hds⟩ := h
  have hne : ds ≠ [] := List.ne_nil_of_length_pos (by omega)
  exact goesOn_scored hne
    (hds.values fun c hc => hread c (List.mem_cons_of_mem _ hc))

/-- Digits, and something after them that can stand there. -/
def Begins (cs : List Char) : Prop :=
  ∀ afterDigit rest,
    isSeparated afterDigit (cs ++ rest) = isSeparated true rest

theorem begins_append {first cs : List Char} (hpos : 1 ≤ first.length)
    (hfirst : ∀ c ∈ first, hasDigitValue c = true) (h : GoesOn cs) :
    Begins (first ++ cs) := by
  intro afterDigit rest
  have hne : first ≠ [] := List.ne_nil_of_length_pos hpos
  rw [List.append_assoc, isSeparated_digits hne hfirst, h]

theorem IsIntegral.begins {cs : List Char} (h : IsIntegral cs)
    (hread : ∀ c ∈ cs, isUnread c = false) : Begins cs := by
  obtain ⟨first, parts, rfl, hpos, _, hfirst, hparts⟩ := h
  obtain ⟨hreadFirst, hread⟩ := List.forall_mem_append.1 hread
  refine begins_append hpos (hfirst.values hreadFirst)
    (goesOn_flatten fun part hpart => ?_)
  have hread : ∀ c ∈ part, isUnread c = false := fun c hc =>
    hread c (List.mem_flatten.2 ⟨part, hpart, hc⟩)
  rcases hparts part hpart with ⟨d, rfl, hd⟩ | hgroup
  · refine goesOn_digits (AllDigits.values (fun c hc => ?_) hread)
    rw [List.mem_singleton.1 hc]
    exact hd
  · exact hgroup.goesOn hread

theorem IsFractional.begins {cs : List Char} (h : IsFractional cs)
    (hread : ∀ c ∈ cs, isUnread c = false) : Begins cs := by
  rcases h with ⟨hne, hdigits⟩ |
    ⟨first, groups, last, rfl, hlength, hfirst, hgroups, hlast⟩
  · intro afterDigit rest
    exact isSeparated_digits hne (hdigits.values hread) afterDigit rest
  · rw [List.forall_mem_append, List.forall_mem_append] at hread
    obtain ⟨hreadFirst, hreadGroups, hreadLast⟩ := hread
    have hgroups : GoesOn groups.flatten := by
      refine goesOn_flatten fun group hgroup => ?_
      exact (hgroups group hgroup).goesOn fun c hc =>
        hreadGroups c (List.mem_flatten.2 ⟨group, hgroup, hc⟩)
    have hlast : GoesOn last := by
      rcases hlast with rfl | ⟨ds, rfl, hpos, _, hds⟩
      · exact goesOn_nil
      · exact goesOn_scored (List.ne_nil_of_length_pos hpos)
          (hds.values fun c hc => hreadLast c (List.mem_cons_of_mem _ hc))
    exact begins_append (by omega) (hfirst.values hreadFirst)
      (hgroups.append hlast)

/-- The point is no digit, so a fraction starts afresh after it. -/
theorem isSeparated_pointed {fraction tail : List Char} (htail : '_' ∉ tail)
    (hfraction : fraction = [] ∨ Begins fraction) (afterDigit : Bool) :
    isSeparated afterDigit ('.' :: (fraction ++ tail)) = true := by
  rw [isSeparated, if_neg (by decide)]
  rcases hfraction with rfl | hbegins
  · exact isSeparated_of_not_mem htail _
  · rw [hbegins]
    exact isSeparated_of_not_mem htail _

theorem IsDecimal.isSeparated {cs tail : List Char} (h : IsDecimal cs)
    (htail : '_' ∉ tail) (hread : ∀ c ∈ cs, isUnread c = false) :
    isSeparated false (cs ++ tail) = true := by
  rcases h with ⟨whole, rest, rfl, hwhole, hrest⟩ |
    ⟨whole, fraction, rfl, hwhole, hfraction⟩
  · obtain ⟨hreadWhole, hread⟩ := List.forall_mem_append.1 hread
    rw [List.append_assoc, hwhole.begins hreadWhole]
    rcases hrest with rfl | ⟨fraction, rfl, hfraction⟩
    · exact isSeparated_of_not_mem htail true
    · exact isSeparated_pointed htail (hfraction.imp_right fun h =>
        h.begins fun c hc => hread c (List.mem_cons_of_mem _ hc)) true
  · obtain ⟨hreadWhole, hread⟩ := List.forall_mem_append.1 hread
    have hbegins : Begins fraction :=
      hfraction.begins fun c hc => hread c (List.mem_cons_of_mem _ hc)
    rw [List.append_assoc]
    rcases hwhole with rfl | hwhole
    · exact isSeparated_pointed htail (Or.inr hbegins) false
    · rw [hwhole.begins hreadWhole]
      exact isSeparated_pointed htail (Or.inr hbegins) true

/-- A sign is no digit either. -/
theorem isSeparated_sign {sign : List Char} (h : IsSign sign)
    (cs : List Char) :
    Number.isSeparated false (sign ++ cs) = Number.isSeparated false cs := by
  rcases h with rfl | rfl | rfl
  · rfl
  · rfl
  · rfl

theorem IsLiteral.isSeparated {cs : List Char} (h : IsLiteral cs)
    (hread : ∀ c ∈ cs, isUnread c = false) :
    Number.isSeparated false cs = true := by
  obtain ⟨sign, body, rfl, hsign, hbody⟩ := h
  rw [isSeparated_sign hsign]
  rcases hbody with ⟨decimal, exponent, rfl, hdecimal, hexponent⟩ |
    ⟨word, hword, hspelt⟩
  · refine hdecimal.isSeparated (underscore_not_mem_of_exponent hexponent)
      fun c hc => hread c ?_
    exact List.mem_append_right _ (List.mem_append_left _ hc)
  · exact isSeparated_of_not_mem
      (underscore_not_mem_of_spelt hspelt hword) false

/-- As free text a token is read with its underscores as it is without. -/
theorem IsLiteral.read?_ofList {cs : List Char} (h : IsLiteral cs) :
    read? (String.ofList cs) = readPlain? (withoutUnderscores cs) := by
  rw [read?, String.toList_ofList, trim_of_not_blank h.not_blank]
  by_cases hread : ∀ c ∈ cs, isUnread c = false
  · exact if_pos (h.isSeparated hread)
  · cases hplain : readPlain? (withoutUnderscores cs) with
    | none => simp
    | some x => exact absurd (h.exists_readPlain?_iff.1 ⟨x, hplain⟩) hread

/-! ## Number tokens among the texts that are read -/

theorem IsDecimal.withoutUnderscores {cs : List Char} (h : IsDecimal cs) :
    IsDecimal (withoutUnderscores cs) := by
  obtain ⟨whole, fraction?, hcs, hne, hwhole, hfraction⟩ := h.exists_digits
  rw [hcs]
  exact matches_decimal_iff.1 (matches_decimal_of_digits hne hwhole hfraction)

/-- What is left of a token without its underscores is a token. -/
theorem IsLiteral.withoutUnderscores {cs : List Char} (h : IsLiteral cs) :
    IsLiteral (withoutUnderscores cs) := by
  obtain ⟨sign, body, rfl, hsign, hbody⟩ := h
  rw [withoutUnderscores_sign hsign]
  refine ⟨sign, _, rfl, hsign, ?_⟩
  rcases hbody with ⟨decimal, exponent, rfl, hdecimal, hexponent⟩ |
    ⟨word, hword, hspelt⟩
  · rw [withoutUnderscores_append, withoutUnderscores_of_not_mem
      (underscore_not_mem_of_exponent hexponent)]
    exact Or.inl ⟨_, exponent, rfl, hdecimal.withoutUnderscores, hexponent⟩
  · rw [withoutUnderscores_of_not_mem
      (underscore_not_mem_of_spelt hspelt hword)]
    exact Or.inr ⟨word, hword, hspelt⟩

theorem spells_of_lower {cs : List Char} (h : lower cs ∈ nonFiniteWords) :
    Spells nonFiniteWords cs := by
  refine ⟨lower cs, h, ?_⟩
  rw [lower, List.forall₂_map_left_iff, List.forall₂_same]
  exact fun c _ => Or.inl rfl

/-- What is read without blanks and underscores is a token. -/
theorem isLiteral_of_readPlain? {cs : List Char} {x : Float}
    (h : readPlain? cs = some x) : IsLiteral cs := by
  obtain ⟨sign, hsign, hcs⟩ := exists_sign cs
  rw [hcs]
  refine ⟨sign, _, rfl, hsign, ?_⟩
  rw [readPlain?] at h
  simp only [] at h
  split at h
  · next hnan =>
      refine Or.inr (spells_of_lower ?_)
      simp [hnan, nonFiniteWords]
  · split at h
    · next hinf =>
        refine Or.inr (spells_of_lower ?_)
        rcases hinf with hinf | hinf
        · simp [hinf, nonFiniteWords]
        · simp [hinf, nonFiniteWords]
    · obtain ⟨d, hd, _⟩ := Option.map_eq_some_iff.1 h
      obtain ⟨n, hn⟩ := exists_numeral_of_readDecimal? hd
      rw [hn, Numeral.characters, ← List.append_assoc]
      exact Or.inl ⟨_, _, rfl, n.isDecimal, n.isExponent⟩

end Number

open Number (isLiteral_of_isNumber isNumber read? readPlain?)

namespace Token

theorem plain_plain (token : String) : plain (plain token) = plain token := by
  have hscore : '_' ∉ Number.withoutUnderscores token.toList := fun hmem =>
    (Number.mem_withoutUnderscores.1 hmem).2 rfl
  rw [plain, plain, String.toList_ofList,
    Number.withoutUnderscores_of_not_mem hscore]

theorem isNumber_plain {token : String} (h : isNumber token = true) :
    isNumber (plain token) = true := by
  refine Number.isNumber_of_isLiteral ?_
  rw [plain, String.toList_ofList]
  exact (isLiteral_of_isNumber h).withoutUnderscores

/-- A number token is taken for one and the same double, with its underscores or
without and as free text; or it is taken for none in any of these ways. -/
inductive ReadAlike (token : String) : Prop where
  | read (x : Float) (hnumber : number token = .ok x)
      (hplain : number (plain token) = .ok x)
      (htext : (Value.text token).toFloat = .ok x)
  | unread (hnumber : number token = .error (.unreadable (plain token)))
      (hplain : number (plain token) = .error (.unreadable (plain token)))
      (htext : (Value.text token).toFloat = .error (.unreadable token))

theorem readAlike_of_isNumber {token : String} (h : isNumber token = true) :
    ReadAlike token := by
  have hnumber := number_of_isNumber h
  have hplain := number_of_isNumber (isNumber_plain h)
  have hunderscores : Number.withoutUnderscores (plain token).toList =
      Number.withoutUnderscores token.toList := by
    simpa [plain] using congrArg String.toList (plain_plain token)
  have hread := (isLiteral_of_isNumber h).read?_ofList
  rw [String.ofList_toList] at hread
  rw [plain_plain, hunderscores] at hplain
  cases hvalue : readPlain? (Number.withoutUnderscores token.toList) with
  | none =>
      rw [hvalue] at hnumber hplain hread
      exact .unread hnumber hplain (by rw [Value.toFloat, hread])
  | some x =>
      rw [hvalue] at hnumber hplain hread
      exact .read x hnumber hplain (by rw [Value.toFloat, hread])

/-- Free text with neither blanks nor underscores is read only if it is a number
token, and for the same double. -/
theorem number_of_toFloat {text : String} {x : Float}
    (hplain : ∀ c ∈ text.toList, c ≠ '_' ∧ isBlank c = false)
    (h : (Value.text text).toFloat = .ok x) :
    isNumber text = true ∧ number text = .ok x := by
  have hscore : '_' ∉ text.toList := fun hmem => (hplain '_' hmem).1 rfl
  have hread := Number.read?_ofList (fun c hc => (hplain c hc).2) hscore
  rw [String.ofList_toList] at hread
  rw [Value.toFloat, hread] at h
  cases hvalue : readPlain? text.toList with
  | none =>
      rw [hvalue] at h
      cases h
  | some y =>
      rw [hvalue] at h
      cases h
      have hnumber := Number.isNumber_of_isLiteral
        (Number.isLiteral_of_readPlain? hvalue)
      refine ⟨hnumber, ?_⟩
      rw [number_of_isNumber hnumber,
        Number.withoutUnderscores_of_not_mem hscore, hvalue]

end Token

namespace Calculator

variable {c : Calculator} {token : String}

theorem load_single_of_error {fault : Fault}
    (h : Token.classify c.registry token = .error fault) (mode : Option Bool) :
    c.load (.list [.text token]) mode = ⟨.error fault, c, []⟩ := by
  simp [load, Program.sort, Program.classify, h, Program.Sorted.stack,
    Program.Sorted.dropped]

theorem load_single_of_ok {op : Operation}
    (h : Token.classify c.registry token = .ok (some op))
    (mode : Option Bool) :
    c.load (.list [.text token]) mode =
      ⟨.ok (), { c with stack := [op] }, []⟩ := by
  simp [load, Program.sort, Program.classify, h, Program.Sorted.stack,
    Program.Sorted.dropped]

/-- A text that is pushed and the same text loaded as a program come to the same
operand, on top of the stack or instead of it; or neither comes to anything. -/
inductive PutAlike (c : Calculator) (token : String) (mode : Option Bool) :
    Prop where
  | put (x : Float)
      (hpush : (c.push (.text token)).after.stack = .operand x :: c.stack)
      (hloaded : (c.load (.list [.text token]) mode).outcome = .ok ())
      (hload :
        (c.load (.list [.text token]) mode).after.stack = [.operand x])
  | refused
      (hpush : c.push (.text token) = ⟨.error (.unreadable token), c, []⟩)
      (hload : c.load (.list [.text token]) mode =
        ⟨.error (.unreadable (Token.plain token)), c, []⟩)

theorem putAlike_of_isNumber (hfree : c.registry.find? token = none)
    (h : isNumber token = true) (mode : Option Bool) :
    PutAlike c token mode := by
  have hclassify : Token.classify c.registry token =
      (Token.number token).map fun x => some (.operand x) := by
    rw [Token.classify, hfree]
    exact if_pos h
  cases Token.readAlike_of_isNumber h with
  | read x hnumber _ htext =>
      rw [hnumber] at hclassify
      have hload := load_single_of_ok hclassify mode
      refine .put x ?_ ?_ ?_
      · rw [push_of_ok htext, evaluate_after]
        rfl
      · rw [hload]
      · rw [hload]
  | unread hnumber _ htext =>
      rw [hnumber] at hclassify
      exact .refused (push_of_error htext c)
        (load_single_of_error hclassify mode)

/-- The readers agree. A number token stays one without its underscores, and is
read alike with them, without them and as free text; free text without blanks
and underscores is read only if it is a number token, and for the same double;
and so pushing and loading a token that names no operation put the same operand
on the stack. -/
theorem readers_agree (c : Calculator) :
    (∀ token, isNumber token = true →
      isNumber (Token.plain token) = true ∧ Token.ReadAlike token) ∧
    (∀ text x, (∀ ch ∈ text.toList, ch ≠ '_' ∧ isBlank ch = false) →
      (Value.text text).toFloat = .ok x →
        isNumber text = true ∧ Token.number text = .ok x) ∧
    ∀ token mode, isNumber token = true → c.registry.find? token = none →
      PutAlike c token mode := by
  refine ⟨fun token h => ?_, fun text x hplain h => ?_,
    fun token mode h hfree => ?_⟩
  · exact ⟨Token.isNumber_plain h, Token.readAlike_of_isNumber h⟩
  · exact Token.number_of_toFloat hplain h
  · exact putAlike_of_isNumber hfree h mode

/-- A grouped number, and a word that is free text as it stands. -/
theorem readers_agree_on_samples :
    isNumber "1_000.000_25e3" = true ∧
      Token.ReadAlike "1_000.000_25e3" ∧
      isNumber "Infinity" = true ∧
      Token.number "Infinity" = .ok Binary64.infinity ∧
      PutAlike (.new .standard [] .silent none) "1_000.000_25e3" none := by
  have hgrouped : isNumber "1_000.000_25e3" = true := by decide +kernel
  obtain ⟨htoken, htext, hput⟩ :=
    readers_agree (.new .standard [] .silent none)
  have hall : "Infinity".toList.all (fun ch => ch ≠ '_' && !isBlank ch) =
      true := by decide
  have hplain : ∀ ch ∈ "Infinity".toList, ch ≠ '_' ∧ isBlank ch = false := by
    intro ch hch
    simpa using List.all_eq_true.1 hall ch hch
  obtain ⟨hword, hvalue⟩ :=
    htext "Infinity" Binary64.infinity hplain rfl
  exact ⟨hgrouped, (htoken _ hgrouped).2, hword, hvalue,
    hput _ none hgrouped rfl⟩

end Calculator

end Rpn
