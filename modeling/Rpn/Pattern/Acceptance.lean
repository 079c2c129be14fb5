import Rpn.Pattern.Basic

/-!
# Acceptance is matching

Each constructor of patterns has a lemma that says what it matches, each
simplifying function one that says that it changes nothing, and `matches_after`
says of the derivative what it is for: it matches what may follow the character.
Reading a whole text is then an induction along it, and `accepts_iff` says that
nothing is lost or let in, for every pattern.
-/

namespace Rpn.Pattern

theorem matches_seq {p q : Pattern} {s : List Char} :
    Matches (seq p q) s ↔ ∃ a b, s = a ++ b ∧ Matches p a ∧ Matches q b := by
  constructor
  · intro h
    cases h with
    | seq hs ht => exact ⟨_, _, rfl, hs, ht⟩
  · rintro ⟨a, b, rfl, ha, hb⟩
    exact .seq ha hb

theorem matches_alt {p q : Pattern} {s : List Char} :
    Matches (alt p q) s ↔ Matches p s ∨ Matches q s := by
  constructor
  · intro h
    cases h with
    | left h => exact .inl h
    | right h => exact .inr h
  · rintro (h | h)
    · exact .left h
    · exact .right h

theorem not_matches_nothing {s : List Char} : ¬ Matches nothing s := nofun

theorem matches_empty {s : List Char} : Matches empty s ↔ s = [] :=
  ⟨fun h => by cases h; rfl, fun h => h ▸ .empty⟩

theorem matches_one {isMember : Char → Bool} {s : List Char} :
    Matches (one isMember) s ↔ ∃ c, s = [c] ∧ isMember c = true := by
  constructor
  · intro h
    cases h with
    | one h => exact ⟨_, rfl, h⟩
  · rintro ⟨c, rfl, h⟩
    exact .one h

theorem Matches.skip {p : Pattern} : Matches (optional p) [] :=
  .left .empty

theorem Matches.take {p : Pattern} {s : List Char} (h : Matches p s) :
    Matches (optional p) s :=
  .right h

theorem matches_optional {p : Pattern} {s : List Char} :
    Matches (optional p) s ↔ s = [] ∨ Matches p s := by
  rw [optional, matches_alt, matches_empty]

theorem acceptsEmpty_iff (p : Pattern) : p.acceptsEmpty = true ↔ Matches p [] := by
  induction p with
  | nothing => simp [acceptsEmpty, not_matches_nothing]
  | empty => simp [acceptsEmpty, matches_empty]
  | one _ => simp [acceptsEmpty, matches_one]
  | seq p q ihp ihq =>
    simp only [acceptsEmpty, Bool.and_eq_true, ihp, ihq, matches_seq]
    constructor
    · rintro ⟨hp, hq⟩
      exact ⟨[], [], rfl, hp, hq⟩
    · rintro ⟨a, b, hab, hp, hq⟩
      obtain ⟨rfl, rfl⟩ := List.append_eq_nil_iff.1 hab.symm
      exact ⟨hp, hq⟩
  | alt p q ihp ihq => simp [acceptsEmpty, ihp, ihq, matches_alt]
  | many p _ => simp [acceptsEmpty, Matches.stop]

theorem matches_follow {p q : Pattern} {s : List Char} :
    Matches (follow p q) s ↔ Matches (seq p q) s := by
  cases p with
  | nothing =>
    simp only [follow, matches_seq]
    constructor
    · exact fun h => (not_matches_nothing h).elim
    · rintro ⟨_, _, _, h, _⟩
      exact (not_matches_nothing h).elim
  | empty =>
    simp only [follow, matches_seq, matches_empty]
    constructor
    · exact fun h => ⟨[], s, rfl, rfl, h⟩
    · rintro ⟨_, _, rfl, rfl, h⟩
      exact h
  | _ => exact Iff.rfl

theorem matches_either {p q : Pattern} {s : List Char} :
    Matches (either p q) s ↔ Matches (alt p q) s := by
  cases p <;> cases q <;> simp [either, matches_alt, not_matches_nothing]

/-- A text in a repetition that is not empty starts with a part that is not
empty. -/
theorem matches_many_cons {p : Pattern} {c : Char} {s : List Char} :
    Matches (many p) (c :: s) ↔ ∃ a b, s = a ++ b ∧ Matches p (c :: a) ∧ Matches (many p) b := by
  constructor
  · intro h
    generalize hq : many p = q at h
    generalize ht : c :: s = t at h
    induction h generalizing s with
    | @more p u v hs hr _ ih =>
      cases hq
      cases u with
      | nil => exact ih rfl (by simpa using ht)
      | cons d u =>
        obtain ⟨rfl, rfl⟩ : c = d ∧ s = u ++ v := by simpa using ht
        exact ⟨u, v, rfl, hs, hr⟩
    | stop => cases ht
    | _ => cases hq
  · rintro ⟨a, b, rfl, ha, hb⟩
    exact .more ha hb

/-- A repetition matches what can be cut into parts that match. -/
theorem matches_many {p : Pattern} {s : List Char} :
    Matches (many p) s ↔
      ∃ parts : List (List Char), s = parts.flatten ∧
        ∀ part ∈ parts, Matches p part := by
  constructor
  · intro h
    generalize hq : many p = q at h
    induction h with
    | stop => exact ⟨[], rfl, by simp⟩
    | @more p' s t hs ht _ ih =>
      cases hq
      obtain ⟨parts, rfl, hparts⟩ := ih rfl
      exact ⟨s :: parts, rfl, List.forall_mem_cons.2 ⟨hs, hparts⟩⟩
    | _ => cases hq
  · rintro ⟨parts, rfl, hparts⟩
    induction parts with
    | nil => exact .stop
    | cons part parts ih =>
      obtain ⟨hpart, hparts⟩ := List.forall_mem_cons.1 hparts
      exact .more hpart (ih hparts)

/-! Letters in front, and letters of one class in a row. -/

theorem matches_one_seq {isMember : Char → Bool} {p : Pattern} {s : List Char} :
    Matches (seq (one isMember) p) s ↔
      ∃ c t, s = c :: t ∧ isMember c = true ∧ Matches p t := by
  simp only [matches_seq, matches_one]
  constructor
  · rintro ⟨_, t, rfl, ⟨c, rfl, hc⟩, ht⟩
    exact ⟨c, t, rfl, hc, ht⟩
  · rintro ⟨c, t, rfl, hc, ht⟩
    exact ⟨[c], t, rfl, ⟨c, rfl, hc⟩, ht⟩

theorem matches_char_seq {c : Char} {p : Pattern} {s : List Char} :
    Matches (seq (char c) p) s ↔ ∃ t, s = c :: t ∧ Matches p t := by
  rw [char, matches_one_seq]
  constructor
  · rintro ⟨d, t, rfl, hd, ht⟩
    exact ⟨t, by rw [beq_iff_eq.1 hd], ht⟩
  · rintro ⟨t, rfl, ht⟩
    exact ⟨c, t, rfl, beq_self_eq_true c, ht⟩

theorem matches_times_one {isMember : Char → Bool} {n : Nat} {s : List Char} :
    Matches (times (one isMember) n) s ↔
      s.length = n ∧ ∀ c ∈ s, isMember c = true := by
  induction n generalizing s with
  | zero =>
    rw [times, matches_empty, List.length_eq_zero_iff]
    constructor
    · rintro rfl
      exact ⟨rfl, by simp⟩
    · exact fun h => h.1
  | succ n ih =>
    rw [times, matches_one_seq]
    constructor
    · rintro ⟨c, t, rfl, hc, ht⟩
      obtain ⟨hlength, ht⟩ := ih.1 ht
      exact ⟨by rw [List.length_cons, hlength], List.forall_mem_cons.2 ⟨hc, ht⟩⟩
    · rintro ⟨hlength, hs⟩
      obtain ⟨c, t, rfl⟩ := List.exists_cons_of_length_eq_add_one hlength
      obtain ⟨hc, ht⟩ := List.forall_mem_cons.1 hs
      exact ⟨c, t, rfl, hc, ih.2 ⟨Nat.succ.inj hlength, ht⟩⟩

theorem matches_many_one {isMember : Char → Bool} {s : List Char} :
    Matches (many (one isMember)) s ↔ ∀ c ∈ s, isMember c = true := by
  induction s with
  | nil => simp [Matches.stop]
  | cons c s ih =>
    rw [matches_many_cons, List.forall_mem_cons]
    constructor
    · rintro ⟨a, b, rfl, ha, hb⟩
      obtain ⟨d, hd, hmember⟩ := matches_one.1 ha
      obtain ⟨rfl, rfl⟩ : c = d ∧ a = [] := by simpa using hd
      exact ⟨hmember, ih.1 hb⟩
    · rintro ⟨hc, hs⟩
      exact ⟨[], s, rfl, .one hc, ih.2 hs⟩

theorem matches_atLeastOnce_one {isMember : Char → Bool} {s : List Char} :
    Matches (atLeastOnce (one isMember)) s ↔
      s ≠ [] ∧ ∀ c ∈ s, isMember c = true := by
  rw [atLeastOnce, matches_one_seq]
  constructor
  · rintro ⟨c, t, rfl, hc, ht⟩
    exact ⟨by simp, List.forall_mem_cons.2 ⟨hc, matches_many_one.1 ht⟩⟩
  · rintro ⟨hne, hs⟩
    obtain ⟨c, t, rfl⟩ := List.exists_cons_of_ne_nil hne
    obtain ⟨hc, ht⟩ := List.forall_mem_cons.1 hs
    exact ⟨c, t, rfl, hc, matches_many_one.2 ht⟩

theorem matches_after {p : Pattern} {c : Char} {s : List Char} :
    Matches (after c p) s ↔ Matches p (c :: s) := by
  induction p generalizing s with
  | nothing => simp [after, not_matches_nothing]
  | empty => simp [after, not_matches_nothing, matches_empty]
  | one isMember =>
    by_cases h : isMember c = true
    · simp only [after, h, if_true, matches_empty, matches_one, List.cons.injEq]
      constructor
      · rintro rfl
        exact ⟨c, ⟨rfl, rfl⟩, h⟩
      · rintro ⟨_, ⟨_, hs⟩, _⟩
        exact hs
    · simp [after, h, not_matches_nothing, matches_one]
  | seq p q ihp ihq =>
    have hseq : Matches (seq (after c p) q) s ↔
        ∃ a b, s = a ++ b ∧ Matches p (c :: a) ∧ Matches q b := by
      simp only [matches_seq, ihp]
    by_cases he : p.acceptsEmpty = true
    · simp only [after, he, if_true, matches_either, matches_alt, matches_follow, hseq, ihq,
        matches_seq]
      constructor
      · rintro (⟨a, b, rfl, ha, hb⟩ | h)
        · exact ⟨c :: a, b, rfl, ha, hb⟩
        · exact ⟨[], c :: s, rfl, (acceptsEmpty_iff p).1 he, h⟩
      · rintro ⟨a, b, hab, ha, hb⟩
        cases a with
        | nil => exact .inr (by simpa using hab ▸ hb)
        | cons d a =>
          obtain ⟨rfl, rfl⟩ : c = d ∧ s = a ++ b := by simpa using hab
          exact .inl ⟨a, b, rfl, ha, hb⟩
    · simp only [after, he, if_false, Bool.false_eq_true, matches_follow, hseq, matches_seq]
      constructor
      · rintro ⟨a, b, rfl, ha, hb⟩
        exact ⟨c :: a, b, rfl, ha, hb⟩
      · rintro ⟨a, b, hab, ha, hb⟩
        cases a with
        | nil => exact (he ((acceptsEmpty_iff p).2 ha)).elim
        | cons d a =>
          obtain ⟨rfl, rfl⟩ : c = d ∧ s = a ++ b := by simpa using hab
          exact ⟨a, b, rfl, ha, hb⟩
  | alt p q ihp ihq => simp [after, matches_either, matches_alt, ihp, ihq]
  | many p ih =>
    simp only [after, matches_follow, matches_seq, ih, matches_many_cons]

/-- A pattern accepts exactly the texts that it describes. -/
theorem accepts_iff (p : Pattern) (s : List Char) : p.accepts s = true ↔ Matches p s := by
  induction s generalizing p with
  | nil => exact acceptsEmpty_iff p
  | cons c s ih =>
    exact (ih (p.after c)).trans matches_after

end Rpn.Pattern
