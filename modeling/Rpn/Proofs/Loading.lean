import Rpn.Calculator.Basic
import Rpn.Proofs.Conversion

/-!
# What loading can fail at

A program is loaded token by token. A token that is neither a name nor a number
is set aside, and strictness decides at the end whether that is a fault. The
fault lists what was set aside; if a number there is too long to be shown, that
is a fault of its own in place of the list. A number that is recognised but not
read is another matter: it ends the loading at once, with a fault that is none of
the calculator's own, and leniency is of no help. `loading_stops_only_at_unread`
says that this happens for the tokens of `Token.Stops` and for no others, and
what comes of a load in either case.
-/

namespace Rpn

open Number (isLiteral_of_isNumber isNumber isUnread)

namespace Token

/-- The text of a token that the reader is given. -/
def plain (token : String) : String :=
  String.ofList (Number.withoutUnderscores token.toList)

/-- A token that ends the loading of a program: a number that has a character
which no reader knows, and that names no operation. -/
def Stops (registry : Registry) (token : String) : Prop :=
  registry.find? token = none ∧ isNumber token = true ∧
    ∃ c ∈ token.toList, isUnread c = true

theorem number_of_isNumber {token : String} (h : isNumber token = true) :
    number token =
      match Number.readPlain? (Number.withoutUnderscores token.toList) with
      | some x => .ok x
      | none => .error (.unreadable (plain token)) := by
  rw [number, if_pos h]
  simp only [(isLiteral_of_isNumber h).read?_eq]
  cases Number.readPlain? (Number.withoutUnderscores token.toList) with
  | none => rfl
  | some x => rfl

theorem exists_number_iff {token : String} (h : isNumber token = true) :
    (∃ x, number token = .ok x) ↔ ∀ c ∈ token.toList, isUnread c = false := by
  rw [← (isLiteral_of_isNumber h).exists_readPlain?_iff, number_of_isNumber h]
  cases Number.readPlain? (Number.withoutUnderscores token.toList) with
  | none => exact ⟨nofun, nofun⟩
  | some x => exact ⟨fun _ => ⟨x, rfl⟩, fun _ => ⟨x, rfl⟩⟩

theorem number_of_unread {token : String} (h : isNumber token = true)
    (hunread : ∃ c ∈ token.toList, isUnread c = true) :
    number token = .error (.unreadable (plain token)) := by
  rw [number_of_isNumber h]
  cases hread :
      Number.readPlain? (Number.withoutUnderscores token.toList) with
  | none => rfl
  | some x =>
      have hall :=
        (isLiteral_of_isNumber h).exists_readPlain?_iff.1 ⟨x, hread⟩
      obtain ⟨c, hc, hunread⟩ := hunread
      rw [hall c hc] at hunread
      cases hunread

variable {registry : Registry} {token : String}

theorem classify_of_stops (h : Stops registry token) :
    classify registry token = .error (.unreadable (plain token)) := by
  obtain ⟨hfree, hnumber, hunread⟩ := h
  rw [classify, hfree]
  simp only []
  rw [if_pos hnumber, number_of_unread hnumber hunread]
  rfl

theorem classify_of_not_stops (h : ¬ Stops registry token) :
    ∃ found, classify registry token = .ok found := by
  rw [classify]
  cases hfree : registry.find? token with
  | some op => exact ⟨some op, rfl⟩
  | none =>
      simp only []
      split
      · next hnumber =>
          have hread : ∀ c ∈ token.toList, isUnread c = false := by
            intro c hc
            rw [← Bool.not_eq_true]
            exact fun hunread => h ⟨hfree, hnumber, c, hc, hunread⟩
          obtain ⟨x, hx⟩ := (exists_number_iff hnumber).2 hread
          rw [hx]
          exact ⟨_, rfl⟩
      · exact ⟨none, rfl⟩

end Token

namespace Program

variable {registry : Registry} {values : List Value}

theorem classify_value {value : Value}
    (h : ∀ token, value = .text token → ¬ Token.Stops registry token) :
    ∃ found, classify registry value = .ok found := by
  cases value with
  | text token => exact Token.classify_of_not_stops (h token rfl)
  | _ => exact ⟨none, rfl⟩

theorem sort_fault?_cons {value : Value}
    (h : ∀ token, value = .text token → ¬ Token.Stops registry token)
    (place : Nat) :
    (sort registry place (value :: values)).fault? =
      (sort registry (place + 1) values).fault? := by
  obtain ⟨found, hfound⟩ := classify_value h
  rw [sort, hfound]
  cases found with
  | none => rfl
  | some op => rfl

theorem sort_fault?_eq_none
    (h : ∀ token, .text token ∈ values → ¬ Token.Stops registry token)
    (place : Nat) : (sort registry place values).fault? = none := by
  induction values generalizing place with
  | nil => rfl
  | cons value rest ih =>
      rw [sort_fault?_cons fun token htext => h token (by simp [htext])]
      exact ih (fun token hmem => h token (List.mem_cons_of_mem _ hmem)) _

/-- A program with a token that stops it fails at such a token. -/
theorem sort_fault?_of_stops
    (h : ∃ token, .text token ∈ values ∧ Token.Stops registry token)
    (place : Nat) :
    ∃ token, .text token ∈ values ∧ Token.Stops registry token ∧
      (sort registry place values).fault? =
        some (.unreadable (Token.plain token)) := by
  induction values generalizing place with
  | nil =>
      obtain ⟨_, hmem, _⟩ := h
      cases hmem
  | cons value rest ih =>
      by_cases hfirst : ∃ token, value = .text token ∧
          Token.Stops registry token
      · obtain ⟨token, rfl, hstops⟩ := hfirst
        refine ⟨token, by simp, hstops, ?_⟩
        rw [sort, classify, Token.classify_of_stops hstops]
      · have hlater : ∃ token, .text token ∈ rest ∧
            Token.Stops registry token := by
          obtain ⟨token, hmem, hstops⟩ := h
          rcases List.mem_cons.1 hmem with rfl | hmem
          · exact absurd ⟨token, rfl, hstops⟩ hfirst
          · exact ⟨token, hmem, hstops⟩
        obtain ⟨token, hmem, hstops, hfault⟩ := ih hlater (place + 1)
        refine ⟨token, List.mem_cons_of_mem _ hmem, hstops, ?_⟩
        rw [sort_fault?_cons fun token htext hstops =>
          hfirst ⟨token, htext, hstops⟩]
        exact hfault

/-- What is set aside of a program is in it. -/
theorem mem_of_mem_rejected {entry : Nat × Value} {place : Nat}
    (h : entry ∈ (sort registry place values).rejected) : entry.2 ∈ values := by
  induction values generalizing place with
  | nil => cases h
  | cons value rest ih =>
      rw [sort] at h
      split at h
      · cases h
      · exact List.mem_cons_of_mem value (ih h)
      · rcases List.mem_cons.1 h with rfl | h
        · exact List.mem_cons_self
        · exact List.mem_cons_of_mem value (ih h)

/-- A program that nothing stopped is refused only for the tokens that were set
aside, and only if it is read strictly. -/
theorem stack_of_fault?_eq_none {sorted : Sorted} (h : sorted.fault? = none)
    (strict : Bool) :
    (∃ stack, sorted.stack strict = .ok stack) ∨
      (strict = true ∧ sorted.rejected ≠ [] ∧
        sorted.stack strict = .error (refusal sorted.rejected)) := by
  rw [Sorted.stack, h]
  simp only []
  split
  · next hrefused =>
      rw [Bool.and_eq_true, Bool.not_eq_true', List.isEmpty_eq_false_iff]
        at hrefused
      exact Or.inr ⟨hrefused.1, hrefused.2, rfl⟩
  · exact Or.inl ⟨_, rfl⟩

end Program

namespace Calculator

theorem load_outcome (c : Calculator) (items : List Value)
    (mode : Option Bool) :
    (c.load (.list items) mode).outcome =
      ((Program.sort c.registry 0 items).stack (mode.getD c.strict)).map
        fun _ => () := by
  rw [load]
  cases (Program.sort c.registry 0 items).stack (mode.getD c.strict) with
  | error fault => rfl
  | ok stack => rfl

/-- Tokens are converted and programs loaded without other faults than the
refusal of what a strict load set aside, unless a number has a character that no
reader knows. Such a number is never converted, and stops every load. The refusal
lists what was set aside, unless there is something among it that cannot be
shown. -/
theorem loading_stops_only_at_unread (c : Calculator) :
    (∀ token, isNumber token = true →
      ((∃ x, Token.number token = .ok x) ↔
        ∀ ch ∈ token.toList, isUnread ch = false)) ∧
    (∀ token, (∃ found, Token.classify c.registry token = .ok found) ↔
      ¬ Token.Stops c.registry token) ∧
    ∀ items mode,
      ((∀ token, .text token ∈ items → ¬ Token.Stops c.registry token) →
        (c.load (.list items) mode).outcome = .ok () ∨
          (mode.getD c.strict = true ∧ ∃ rejected, rejected ≠ [] ∧
            (∀ entry ∈ rejected, entry.2.isShowable = true) ∧
            (c.load (.list items) mode).outcome =
              .error (.unrecognised rejected)) ∨
          (mode.getD c.strict = true ∧
            (∃ value ∈ items, value.isShowable = false) ∧
            (c.load (.list items) mode).outcome = .error .unshowable)) ∧
      ((∃ token, .text token ∈ items ∧ Token.Stops c.registry token) →
        ∃ token, .text token ∈ items ∧ Token.Stops c.registry token ∧
          (c.load (.list items) mode).outcome =
            .error (.unreadable (Token.plain token))) := by
  refine ⟨fun token h => Token.exists_number_iff h, fun token => ?_,
    fun items mode => ⟨fun h => ?_, fun h => ?_⟩⟩
  · refine ⟨fun ⟨found, hfound⟩ hstops => ?_, Token.classify_of_not_stops⟩
    rw [Token.classify_of_stops hstops] at hfound
    cases hfound
  · rw [load_outcome]
    rcases Program.stack_of_fault?_eq_none (Program.sort_fault?_eq_none h 0)
      (mode.getD c.strict) with ⟨stack, hstack⟩ | ⟨hstrict, hne, hrefused⟩
    · rw [hstack]
      exact Or.inl rfl
    · rw [hrefused]
      rcases Program.isShowable_cases
        (Program.sort c.registry 0 items).rejected with hshown | hunshown
      · rw [Program.refusal_of_isShowable hshown]
        exact Or.inr (Or.inl ⟨hstrict, _, hne, hshown, rfl⟩)
      · rw [Program.refusal_of_not_isShowable hunshown]
        obtain ⟨entry, hmem, hvalue⟩ := hunshown
        exact Or.inr (Or.inr ⟨hstrict,
          ⟨entry.2, Program.mem_of_mem_rejected hmem, hvalue⟩, rfl⟩)
  · obtain ⟨token, hmem, hstops, hfault⟩ := Program.sort_fault?_of_stops h 0
    refine ⟨token, hmem, hstops, ?_⟩
    rw [load_outcome, Program.Sorted.stack, hfault]
    rfl

/-- The word for infinity with a dotted capital I is a number that a lenient
load fails at. -/
theorem dotted_infinity_stops_loading :
    isNumber "\u0130nf" = true ∧
      Token.number "\u0130nf" = .error (.unreadable "\u0130nf") ∧
      Token.classify (.ofList Operation.standard) "\u0130nf" =
        .error (.unreadable "\u0130nf") ∧
      ((Calculator.new .standard [] .silent none).load
        (.list [.text "\u0130nf"]) (some false)).outcome =
        .error (.unreadable "\u0130nf") := by
  refine ⟨?_, ?_, ?_, ?_⟩
  · decide +kernel
  · rfl
  · rfl
  · rfl

end Calculator

end Rpn
