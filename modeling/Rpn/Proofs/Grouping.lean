import Rpn.Proofs.Exact

/-!
# Where underscores stand in a number token

Underscores part digits into runs, and they do so in a whole part and in a
fraction only (`IsLiteral.underscores_in_parts`). A fraction with underscores is
grouped by threes, as a whole part should be. But in a whole part a digit may come
wherever a group may, so a run of digits has three of them at least where it
should have three (`IsIntegral.exists_runs`). A whole part is grouped as it should
be if and only if no run is longer (`IsIntegral.isGroupedWhole_iff`), and there
are tokens of which one is.
-/

namespace Rpn

open Text (isDigit)

namespace Number

/-! ## Grouped digits -/

/-- One to three digits, and groups after them. -/
def IsGroupedWhole (cs : List Char) : Prop :=
  ∃ (first : List Char) (groups : List (List Char)),
    cs = first ++ groups.flatten ∧ 1 ≤ first.length ∧ first.length ≤ 3 ∧
      AllDigits first ∧ ∀ group ∈ groups, IsGroup group

/-- Three digits, groups after them, and possibly a shorter group at the end. -/
def IsGroupedFraction (cs : List Char) : Prop :=
  ∃ (first : List Char) (groups : List (List Char)) (last : List Char),
    cs = first ++ (groups.flatten ++ last) ∧ first.length = 3 ∧
      AllDigits first ∧ (∀ group ∈ groups, IsGroup group) ∧
      (last = [] ∨ IsShortGroup last)

theorem AllDigits.underscore_not_mem {cs : List Char} (h : AllDigits cs) :
    '_' ∉ cs := fun hmem => ne_underscore_of_isDigit (h '_' hmem) rfl

theorem IsFractional.isGroupedFraction {cs : List Char} (h : IsFractional cs)
    (hscore : '_' ∈ cs) : IsGroupedFraction cs :=
  h.resolve_left fun hdigits => hdigits.2.underscore_not_mem hscore

/-! ## Runs of digits -/

/-- Digits, and after them what is made of digits and groups: a group ends the
run of digits before it, and more digits make a run longer. -/
theorem exists_runs {front : List Char} {parts : List (List Char)}
    (hfront : AllDigits front) (hparts : ∀ part ∈ parts, IsDigitOrGroup part) :
    ∃ more rest, (front ++ parts.flatten).splitOn '_' = (front ++ more) :: rest ∧
      AllDigits more ∧ ∀ run ∈ rest, 3 ≤ run.length ∧ AllDigits run := by
  -- A digit goes on with the run so far, so the run has to be general.
  induction parts generalizing front with
  | nil =>
      refine ⟨[], [], ?_, nofun, nofun⟩
      rw [List.flatten_nil, List.append_nil]
      exact List.splitOn_eq_singleton hfront.underscore_not_mem
  | cons part parts ih =>
      obtain ⟨hpart, hothers⟩ := List.forall_mem_cons.1 hparts
      rcases hpart with ⟨c, rfl, hc⟩ | ⟨ds, rfl, hlength, hds⟩
      · have hlonger : AllDigits (front ++ [c]) := by
          intro d hd
          rcases List.mem_append.1 hd with hd | hd
          · exact hfront d hd
          · rw [List.mem_singleton.1 hd]
            exact hc
        obtain ⟨more, rest, hruns, hmore, hrest⟩ := ih hlonger hothers
        refine ⟨c :: more, rest, ?_, List.forall_mem_cons.2 ⟨hc, hmore⟩, hrest⟩
        rw [List.flatten_cons, ← List.append_assoc, hruns, List.append_assoc,
          List.singleton_append]
      · obtain ⟨more, rest, hruns, hmore, hrest⟩ := ih hds hothers
        refine ⟨[], (ds ++ more) :: rest, ?_, nofun, ?_⟩
        · rw [List.flatten_cons, List.cons_append,
            List.splitOn_append_cons_self_of_not_mem hfront.underscore_not_mem,
            hruns, List.append_nil]
        · refine List.forall_mem_cons.2 ⟨⟨?_, ?_⟩, hrest⟩
          · rw [List.length_append]
            omega
          · exact List.forall_mem_append.2 ⟨hds, hmore⟩

/-- The runs of a whole part. -/
theorem IsIntegral.exists_runs {cs : List Char} (h : IsIntegral cs) :
    ∃ first rest, cs.splitOn '_' = first :: rest ∧
      1 ≤ first.length ∧ AllDigits first ∧
      ∀ run ∈ rest, 3 ≤ run.length ∧ AllDigits run := by
  obtain ⟨first, parts, rfl, hpos, _, hfirst, hparts⟩ := h
  obtain ⟨more, rest, hruns, hmore, hrest⟩ := Number.exists_runs hfirst hparts
  refine ⟨first ++ more, rest, hruns, ?_, ?_, hrest⟩
  · rw [List.length_append]
    omega
  · exact List.forall_mem_append.2 ⟨hfirst, hmore⟩

theorem splitOn_groups {front : List Char} {groups : List (List Char)}
    (hfront : AllDigits front) (hgroups : ∀ group ∈ groups, IsGroup group) :
    (front ++ groups.flatten).splitOn '_' = front :: groups.map List.tail := by
  induction groups generalizing front with
  | nil =>
      rw [List.flatten_nil, List.append_nil]
      exact List.splitOn_eq_singleton hfront.underscore_not_mem
  | cons group groups ih =>
      obtain ⟨⟨ds, hgroup, _, hds⟩, hothers⟩ := List.forall_mem_cons.1 hgroups
      rw [List.flatten_cons, hgroup, List.cons_append,
        List.splitOn_append_cons_self_of_not_mem hfront.underscore_not_mem,
        ih hds hothers]
      rfl

theorem intercalate_underscore (first : List Char) (rest : List (List Char)) :
    ['_'].intercalate (first :: rest) =
      first ++ (rest.map ('_' :: ·)).flatten := by
  induction rest generalizing first with
  | nil => simp
  | cons run rest ih =>
      rw [List.intercalate_cons_cons, ih]
      simp

theorem IsGroupedWhole.length_le {cs : List Char} (h : IsGroupedWhole cs) :
    ∀ run ∈ cs.splitOn '_', run.length ≤ 3 := by
  obtain ⟨first, groups, rfl, _, hle, hfirst, hgroups⟩ := h
  rw [splitOn_groups hfirst hgroups]
  refine List.forall_mem_cons.2 ⟨hle, fun run hrun => ?_⟩
  obtain ⟨group, hgroup, rfl⟩ := List.mem_map.1 hrun
  obtain ⟨ds, rfl, hlength, _⟩ := hgroups group hgroup
  exact Nat.le_of_eq hlength

/-- The whole part of a token is grouped as it should be unless a run of its
digits is too long. -/
theorem IsIntegral.isGroupedWhole_iff {cs : List Char} (h : IsIntegral cs) :
    IsGroupedWhole cs ↔ ∀ run ∈ cs.splitOn '_', run.length ≤ 3 := by
  refine ⟨IsGroupedWhole.length_le, fun hshort => ?_⟩
  obtain ⟨first, rest, hruns, hpos, hfirst, hrest⟩ := h.exists_runs
  rw [hruns, List.forall_mem_cons] at hshort
  refine ⟨first, rest.map ('_' :: ·), ?_, hpos, hshort.1, hfirst, ?_⟩
  · rw [← intercalate_underscore, ← hruns, List.intercalate_splitOn]
  · intro group hgroup
    obtain ⟨run, hrun, rfl⟩ := List.mem_map.1 hgroup
    obtain ⟨hlong, hdigits⟩ := hrest run hrun
    exact ⟨run, rfl, Nat.le_antisymm (hshort.2 run hrun) hlong, hdigits⟩

/-! ## The parts of a token -/

/-- A token without its sign and its exponent. -/
def mantissaOf (token : String) : List Char :=
  (cutAt (fun c => c == 'e' || c == 'E') (afterSign token.toList)).1

/-- The digits before the point, with the underscores among them. -/
def wholeOf (token : String) : List Char :=
  (cutAt (· == '.') (mantissaOf token)).1

/-- The digits after the point, with the underscores among them. -/
def fractionOf (token : String) : List Char :=
  (cutAt (· == '.') (mantissaOf token)).2

theorem mem_of_mem_cutAt {isMark : Char → Bool} {cs : List Char} {c : Char}
    (h : c ∈ (cutAt isMark cs).1 ∨ c ∈ (cutAt isMark cs).2) : c ∈ cs := by
  rcases h with h | h
  · exact (List.takeWhile_sublist _).subset h
  · exact (List.dropWhile_sublist _).subset (List.mem_of_mem_drop h)

theorem mem_of_mem_parts {token : String} {c : Char}
    (h : c ∈ wholeOf token ∨ c ∈ fractionOf token) : c ∈ token.toList :=
  (List.dropWhile_sublist _).subset
    (mem_of_mem_cutAt (Or.inl (mem_of_mem_cutAt h)))

theorem ne_of_isDigit {c c' : Char} (h : isDigit c = true)
    (h' : isDigit c' = false) : c ≠ c' := by
  rintro rfl
  exact Bool.noConfusion (h.symm.trans h')

theorem IsDecimal.exists_head {cs : List Char} (h : IsDecimal cs) :
    ∃ c rest, cs = c :: rest := by
  obtain ⟨whole, fraction?, rfl, _, _, c, hc, _⟩ := h.exists_parts
  refine List.exists_cons_of_ne_nil fun hnil => ?_
  obtain ⟨rfl, hfraction⟩ := List.append_eq_nil_iff.1 hnil
  cases fraction? with
  | none => cases hc
  | some fraction => cases hfraction

theorem mantissaOf_eq {token : String} {sign decimal exponent : List Char}
    (htoken : token.toList = sign ++ (decimal ++ exponent)) (hsign : IsSign sign)
    (hdecimal : IsDecimal decimal)
    (hexponent : exponent = [] ∨ IsExponent exponent) :
    mantissaOf token = decimal := by
  have hunsigned : Unsigned (decimal ++ exponent) := by
    obtain ⟨c, rest, rfl⟩ := hdecimal.exists_head
    intro d hd
    obtain rfl : c = d := Option.some.inj hd
    rcases hdecimal.mem c List.mem_cons_self with hdigit | rfl | rfl
    · exact ⟨ne_of_isDigit hdigit (by decide), ne_of_isDigit hdigit (by decide)⟩
    · decide
    · decide
  have hmark : ∀ c ∈ decimal, (c == 'e' || c == 'E') = false := by
    intro c hc
    rcases hdecimal.mem c hc with hdigit | rfl | rfl
    · simp [ne_of_isDigit hdigit (show isDigit 'e' = false by decide),
        ne_of_isDigit hdigit (show isDigit 'E' = false by decide)]
    · decide
    · decide
  rw [mantissaOf, htoken, afterSign_append hsign hunsigned]
  rcases hexponent with rfl | ⟨mark, signs, ds, rfl, hmark', _⟩
  · rw [List.append_nil, cutAt_of_none hmark]
  · rw [cutAt_append hmark (by rcases hmark' with rfl | rfl <;> rfl)]

theorem not_point_of_whole {whole : List Char}
    (h : whole = [] ∨ IsIntegral whole) : ∀ c ∈ whole, (c == '.') = false := by
  intro c hc
  by_cases hscore : c = '_'
  · rw [hscore]
    decide
  · have hdigit := digits_of_optional (h.imp_right IsIntegral.grouped) c hc hscore
    simp [ne_of_isDigit hdigit (show isDigit '.' = false by decide)]

/-- The whole part and the fraction of a decimal are what lies before and after
the point. -/
theorem IsDecimal.cutAt_point {cs : List Char} (h : IsDecimal cs) :
    ∃ whole fraction, cutAt (· == '.') cs = (whole, fraction) ∧
      (whole = [] ∨ IsIntegral whole) ∧
      (fraction = [] ∨ IsFractional fraction) ∧
      ('_' ∈ cs → '_' ∈ whole ∨ '_' ∈ fraction) := by
  have hpointed : ∀ whole fraction : List Char,
      '_' ∈ whole ++ '.' :: fraction → '_' ∈ whole ∨ '_' ∈ fraction := by
    intro whole fraction hmem
    rw [List.mem_append, List.mem_cons] at hmem
    exact hmem.imp_right fun h => h.resolve_left (by decide)
  rcases h with ⟨whole, rest, rfl, hwhole, hrest⟩ |
    ⟨whole, fraction, rfl, hwhole, hfraction⟩
  · have hpoint := not_point_of_whole (Or.inr hwhole)
    rcases hrest with rfl | ⟨fraction, rfl, hfraction⟩
    · refine ⟨whole, [], ?_, Or.inr hwhole, Or.inl rfl, ?_⟩
      · rw [List.append_nil, cutAt_of_none hpoint]
      · rw [List.append_nil]
        exact Or.inl
    · exact ⟨whole, fraction, cutAt_append hpoint rfl _, Or.inr hwhole,
        hfraction, hpointed whole fraction⟩
  · exact ⟨whole, fraction, cutAt_append (not_point_of_whole hwhole) rfl _,
      hwhole, Or.inr hfraction, hpointed whole fraction⟩

/-- A token without underscores, or one of which whole part and fraction are
what they should be and have all the underscores. -/
theorem IsLiteral.underscores_in_parts {token : String} (h : IsLiteral token.toList) :
    '_' ∉ token.toList ∨
      (wholeOf token = [] ∨ IsIntegral (wholeOf token)) ∧
        (fractionOf token = [] ∨ IsFractional (fractionOf token)) ∧
        ('_' ∈ token.toList → '_' ∈ wholeOf token ∨ '_' ∈ fractionOf token) := by
  obtain ⟨sign, body, htoken, hsign, hbody⟩ := h
  have hplain : '_' ∉ sign := fun hmem =>
    absurd (hsign.mem '_' hmem) (by decide)
  rcases hbody with ⟨decimal, exponent, rfl, hdecimal, hexponent⟩ |
    ⟨word, hword, hspelt⟩
  · obtain ⟨whole, fraction, hcut, hwhole, hfraction, hmem⟩ :=
      hdecimal.cutAt_point
    have hmantissa := mantissaOf_eq htoken hsign hdecimal hexponent
    rw [wholeOf, fractionOf, hmantissa, hcut]
    refine Or.inr ⟨hwhole, hfraction, fun hscore => hmem ?_⟩
    rw [htoken, List.mem_append, List.mem_append] at hscore
    exact (hscore.resolve_left hplain).resolve_right
      (underscore_not_mem_of_exponent hexponent)
  · rw [htoken, List.mem_append, not_or]
    exact Or.inl ⟨hplain, underscore_not_mem_of_spelt hspelt hword⟩

end Number

namespace Token

open Number

/-- The underscores of a number token part the digits of its whole part, of its
fraction, or of both. A fraction is grouped by threes from the point on. In a
whole part the first run has a digit and every other has three at least, and it
is grouped by threes up to the point if and only if no run has more. -/
theorem underscores_part_digits {token : String} (h : isNumber token = true) :
    ('_' ∈ token.toList → '_' ∈ wholeOf token ∨ '_' ∈ fractionOf token) ∧
    ('_' ∈ fractionOf token → IsGroupedFraction (fractionOf token)) ∧
    ('_' ∈ wholeOf token →
      (∃ first rest, (wholeOf token).splitOn '_' = first :: rest ∧
        1 ≤ first.length ∧ AllDigits first ∧
        ∀ run ∈ rest, 3 ≤ run.length ∧ AllDigits run) ∧
      (IsGroupedWhole (wholeOf token) ↔
        ∀ run ∈ (wholeOf token).splitOn '_', run.length ≤ 3)) := by
  rcases (isLiteral_of_isNumber h).underscores_in_parts with hnone |
    ⟨hwhole, hfraction, hmem⟩
  · exact ⟨fun hscore => absurd hscore hnone,
      fun hscore => absurd (mem_of_mem_parts (Or.inr hscore)) hnone,
      fun hscore => absurd (mem_of_mem_parts (Or.inl hscore)) hnone⟩
  · refine ⟨hmem, fun hscore => ?_, fun hscore => ?_⟩
    · exact (hfraction.resolve_left (List.ne_nil_of_mem hscore)).isGroupedFraction
        hscore
    · have hintegral := hwhole.resolve_left (List.ne_nil_of_mem hscore)
      exact ⟨hintegral.exists_runs, hintegral.isGroupedWhole_iff⟩

/-- Groups on both sides of the point, the last of them shorter. -/
theorem underscores_part_digits_by_threes :
    isNumber "-1_234_567.200_200_5e6" = true ∧
      IsGroupedWhole (wholeOf "-1_234_567.200_200_5e6") ∧
      IsGroupedFraction (fractionOf "-1_234_567.200_200_5e6") := by
  have hnumber : isNumber "-1_234_567.200_200_5e6" = true := by decide +kernel
  obtain ⟨_, hfraction, hwhole⟩ := underscores_part_digits hnumber
  obtain ⟨_, hgrouped⟩ := hwhole (by decide +kernel)
  exact ⟨hnumber, hgrouped.2 (by decide +kernel), hfraction (by decide +kernel)⟩

/-- A group of more than three digits is no group, and yet part of a token. -/
theorem long_group_is_number :
    isNumber "1_2345" = true ∧ '_' ∈ wholeOf "1_2345" ∧
      ¬ IsGroupedWhole (wholeOf "1_2345") := by
  refine ⟨by decide +kernel, by decide +kernel, fun hgrouped => ?_⟩
  exact absurd hgrouped.length_le (by decide +kernel)

end Token

end Rpn
