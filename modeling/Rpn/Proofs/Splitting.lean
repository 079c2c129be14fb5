import Rpn.Token

/-!
# A line is split at its blanks

Blanks in front of a line count for nothing, and a token that is free of blanks
is cut off whole where a blank follows it or the line ends. These two facts
determine what `Token.words` makes of a line: whatever way tokens are set out
with blanks between them, they are found again (`words_setOut`), and there is
no line that is not set out in some way (`exists_setOut`).
-/

namespace Rpn.Token

open Text (isBlank)

variable {c : Char} {cs : List Char}

theorem words_nil : words [] = [] := by
  rw [words.eq_def]

theorem words_blank (hblank : isBlank c = true) :
    words (c :: cs) = words cs := by
  rw [words.eq_def]
  exact if_pos hblank

theorem words_word (hblank : ¬ isBlank c = true) :
    words (c :: cs) = (c :: cs.takeWhile (!isBlank ·)) ::
      words (cs.dropWhile (!isBlank ·)) := by
  rw [words.eq_def]
  exact if_neg hblank

theorem words_blanks {blanks : List Char} (h : ∀ c ∈ blanks, isBlank c = true)
    (cs : List Char) : words (blanks ++ cs) = words cs := by
  induction blanks with
  | nil => rfl
  | cons c blanks ih =>
      obtain ⟨hc, hblanks⟩ := List.forall_mem_cons.1 h
      rw [List.cons_append, words_blank hc, ih hblanks]

theorem words_of_blanks {blanks : List Char}
    (h : ∀ c ∈ blanks, isBlank c = true) : words blanks = [] := by
  have hwords := words_blanks h []
  rw [List.append_nil] at hwords
  rw [hwords, words_nil]

/-- A token ends before the first blank. -/
theorem words_append {token rest : List Char} (hne : token ≠ [])
    (htoken : ∀ c ∈ token, isBlank c = false)
    (hrest : ∀ c ∈ rest.head?, isBlank c = true) :
    words (token ++ rest) = token :: words rest := by
  obtain ⟨c, cs, rfl⟩ := List.exists_cons_of_ne_nil hne
  obtain ⟨hc, hcs⟩ := List.forall_mem_cons.1 htoken
  have hkeep : ∀ d ∈ cs, (!isBlank d) = true := by
    intro d hd
    rw [hcs d hd]
    rfl
  have hstop : rest.takeWhile (!isBlank ·) = [] ∧
      rest.dropWhile (!isBlank ·) = rest := by
    cases rest with
    | nil => exact ⟨rfl, rfl⟩
    | cons d rest =>
        have hd : ¬ (!isBlank d) = true := by
          rw [hrest d rfl]
          decide
        exact ⟨List.takeWhile_cons_of_neg hd, List.dropWhile_cons_of_neg hd⟩
  have hword : ¬ isBlank c = true := by simp [hc]
  rw [List.cons_append, words_word hword, List.takeWhile_append_of_pos hkeep,
    List.dropWhile_append_of_pos hkeep, hstop.1, hstop.2, List.append_nil]

/-! ## Tokens on a line -/

theorem not_blank_of_mem_word (hblank : ¬ isBlank c = true) :
    ∀ d ∈ c :: cs.takeWhile (!isBlank ·), isBlank d = false := by
  refine List.forall_mem_cons.2 ⟨Bool.eq_false_iff.2 hblank, fun d hd => ?_⟩
  simpa using List.all_eq_true.1 List.all_takeWhile d hd

/-- What follows a word begins with a blank. -/
theorem head_dropWhile_isBlank (cs : List Char) :
    ∀ c ∈ (cs.dropWhile (!isBlank ·)).head?, isBlank c = true := by
  have hhead := List.head?_dropWhile_not (!isBlank ·) cs
  intro c hc
  rw [Option.mem_def.1 hc] at hhead
  simpa using hhead

/-- A line of blanks in front and tokens with blanks after each of them. -/
def setOut (front : List Char) (row : List (String × List Char)) : List Char :=
  front ++ (row.map fun cell => cell.1.toList ++ cell.2).flatten

/-- What is set out on a line can be told apart again: tokens have characters and
no blanks among them, and there are blanks after all of them but perhaps the
last. -/
structure IsSetOut (front : List Char) (row : List (String × List Char)) : Prop where
  front : ∀ c ∈ front, isBlank c = true
  tokens : ∀ cell ∈ row, cell.1 ≠ "" ∧ ∀ c ∈ cell.1.toList, isBlank c = false
  gaps : ∀ cell ∈ row, ∀ c ∈ cell.2, isBlank c = true
  apart : ∀ cell ∈ row.dropLast, cell.2 ≠ []

section SetOut

variable {front gap : List Char} {token : String} {row : List (String × List Char)}

theorem setOut_nil (front : List Char) : setOut front [] = front :=
  List.append_nil front

theorem setOut_cons (front gap : List Char) (token : String)
    (row : List (String × List Char)) :
    setOut front ((token, gap) :: row) =
      front ++ (token.toList ++ setOut gap row) := by
  rw [setOut, setOut, List.map_cons, List.flatten_cons, List.append_assoc]

theorem isSetOut_nil : IsSetOut front [] ↔ ∀ c ∈ front, isBlank c = true := by
  constructor
  · intro h
    exact h.front
  · intro h
    exact ⟨h, nofun, nofun, nofun⟩

theorem isSetOut_cons :
    IsSetOut front ((token, gap) :: row) ↔
      (∀ c ∈ front, isBlank c = true) ∧
        (token ≠ "" ∧ ∀ c ∈ token.toList, isBlank c = false) ∧
        (gap = [] → row = []) ∧ IsSetOut gap row := by
  have hdrop : (gap = [] → row = []) ∧ (∀ cell ∈ row.dropLast, cell.2 ≠ []) ↔
      ∀ cell ∈ ((token, gap) :: row).dropLast, cell.2 ≠ [] := by
    cases row with
    | nil => simp
    | cons cell row => simp
  constructor
  · intro h
    obtain ⟨htoken, htokens⟩ := List.forall_mem_cons.1 h.tokens
    obtain ⟨hgap, hgaps⟩ := List.forall_mem_cons.1 h.gaps
    obtain ⟨hfirst, hapart⟩ := hdrop.2 h.apart
    exact ⟨h.front, htoken, hfirst, hgap, htokens, hgaps, hapart⟩
  · rintro ⟨hfront, htoken, hfirst, h⟩
    exact ⟨hfront, List.forall_mem_cons.2 ⟨htoken, h.tokens⟩,
      List.forall_mem_cons.2 ⟨h.front, h.gaps⟩, hdrop.1 ⟨hfirst, h.apart⟩⟩

/-- What is set out is found again. -/
theorem words_setOut (h : IsSetOut front row) :
    words (setOut front row) = row.map (·.1.toList) := by
  -- The blanks after a token are those in front of the rest.
  induction row generalizing front with
  | nil =>
      rw [setOut_nil]
      exact words_of_blanks h.front
  | cons cell row ih =>
      obtain ⟨token, gap⟩ := cell
      obtain ⟨hfront, ⟨hne, htoken⟩, hfirst, hrow⟩ := isSetOut_cons.1 h
      have hhead : ∀ c ∈ (setOut gap row).head?, isBlank c = true := by
        cases gap with
        | nil =>
            rw [hfirst rfl]
            exact nofun
        | cons c gap =>
            intro d hd
            obtain rfl : c = d := Option.some.inj hd
            exact hrow.front c List.mem_cons_self
      have hne' : token.toList ≠ [] := mt String.toList_eq_nil_iff.1 hne
      rw [setOut_cons, words_blanks hfront, words_append hne' htoken hhead,
        ih hrow, List.map_cons]

end SetOut

/-- No token can be set out without blanks in front where a blank comes first. -/
theorem eq_nil_of_front {row : List (String × List Char)}
    (h : IsSetOut [] row)
    (hhead : ∀ c ∈ (setOut [] row).head?, isBlank c = true) : row = [] := by
  cases row with
  | nil => rfl
  | cons cell row =>
      obtain ⟨token, gap⟩ := cell
      obtain ⟨_, ⟨hne, htoken⟩, _⟩ := isSetOut_cons.1 h
      obtain ⟨c, cs, hcs⟩ :=
        List.exists_cons_of_ne_nil (mt String.toList_eq_nil_iff.1 hne)
      rw [setOut_cons, hcs] at hhead
      have hblank : isBlank c = true := hhead c rfl
      rw [htoken c (by simp [hcs])] at hblank
      cases hblank

/-- Every line is set out in some way. -/
theorem exists_setOut (cs : List Char) :
    ∃ front row, IsSetOut front row ∧ cs = setOut front row := by
  induction cs using words.induct with
  | case1 => exact ⟨[], [], isSetOut_nil.2 nofun, rfl⟩
  | case2 c cs hblank ih =>
      obtain ⟨front, row, h, rfl⟩ := ih
      refine ⟨c :: front, row, ?_, rfl⟩
      exact ⟨List.forall_mem_cons.2 ⟨hblank, h.front⟩, h.tokens, h.gaps, h.apart⟩
  | case3 c cs hblank ih =>
      obtain ⟨front, row, h, hrest⟩ := ih
      refine ⟨[], (String.ofList (c :: cs.takeWhile (!isBlank ·)), front) :: row,
        isSetOut_cons.2 ⟨nofun, ⟨?_, ?_⟩, ?_, h⟩, ?_⟩
      · rw [Ne, ← String.toList_eq_nil_iff, String.toList_ofList]
        exact List.cons_ne_nil _ _
      · rw [String.toList_ofList]
        exact not_blank_of_mem_word hblank
      · rintro rfl
        refine eq_nil_of_front h ?_
        rw [← hrest]
        exact head_dropWhile_isBlank cs
      · rw [setOut_cons, String.toList_ofList, ← hrest, List.nil_append,
          List.cons_append, List.takeWhile_append_dropWhile]

/-- The tokens of a line are those that are set out on it, in whatever way. -/
theorem ofLine_eq_iff {line : String} {tokens : List String} :
    ofLine line = tokens ↔ ∃ front row, IsSetOut front row ∧
      line.toList = setOut front row ∧ row.map Prod.fst = tokens := by
  have hofLine : ∀ front row, IsSetOut front row →
      line.toList = setOut front row → ofLine line = row.map Prod.fst := by
    intro front row h hline
    rw [ofLine, hline, words_setOut h, List.map_map]
    refine List.map_congr_left fun cell _ => ?_
    exact String.ofList_toList
  constructor
  · rintro rfl
    obtain ⟨front, row, h, hline⟩ := exists_setOut line.toList
    exact ⟨front, row, h, hline, (hofLine front row h hline).symm⟩
  · rintro ⟨front, row, h, hline, rfl⟩
    exact hofLine front row h hline

/-- A token with blanks around it is the only token of its line. -/
theorem ofLine_padded {before after : List Char} {token : String}
    (hbefore : ∀ c ∈ before, isBlank c = true)
    (hafter : ∀ c ∈ after, isBlank c = true) (hne : token.toList ≠ [])
    (htoken : ∀ c ∈ token.toList, isBlank c = false) :
    ofLine (String.ofList (before ++ (token.toList ++ after))) = [token] := by
  have hset : IsSetOut before [(token, after)] :=
    isSetOut_cons.2 ⟨hbefore, ⟨mt String.toList_eq_nil_iff.2 hne, htoken⟩,
      fun _ => rfl, isSetOut_nil.2 hafter⟩
  refine ofLine_eq_iff.2 ⟨before, [(token, after)], hset, ?_, rfl⟩
  rw [String.toList_ofList, setOut_cons, setOut_nil]

/-- A blank parts a line in two, which have their tokens each by itself. -/
theorem words_append_blank (hblank : isBlank c = true) (cs cs' : List Char) :
    words (cs ++ c :: cs') = words cs ++ words cs' := by
  induction cs using words.induct with
  | case1 => rw [List.nil_append, words_blank hblank, words_nil, List.nil_append]
  | case2 d cs hd ih =>
      rw [List.cons_append, words_blank hd, words_blank hd, ih]
  | case3 d cs hd ih =>
      have hword : ∀ e ∈ d :: cs.takeWhile (!isBlank ·), isBlank e = false :=
        not_blank_of_mem_word hd
      have hhead : ∀ e ∈ (cs.dropWhile (!isBlank ·) ++ c :: cs').head?,
          isBlank e = true := by
        have hrest := head_dropWhile_isBlank cs
        cases hdrop : cs.dropWhile (!isBlank ·) with
        | nil =>
            intro e he
            obtain rfl : c = e := Option.some.inj he
            exact hblank
        | cons f rest =>
            rw [hdrop] at hrest
            exact hrest
      have hcut : d :: cs ++ c :: cs' = (d :: cs.takeWhile (!isBlank ·)) ++
          (cs.dropWhile (!isBlank ·) ++ c :: cs') := by
        rw [← List.append_assoc, List.cons_append, List.cons_append,
          List.takeWhile_append_dropWhile, List.cons_append]
      rw [hcut, words_append (List.cons_ne_nil _ _) hword hhead, ih, words_word hd,
        List.cons_append]

/-- The tokens of a line have characters and no blanks among them, and the line
is these tokens with blanks between them and perhaps around them. Any tokens set
out on a line are the tokens of that line. Hence a blank parts a line in two,
which have their tokens each by itself. -/
theorem tokens_and_blanks_make_line :
    (∀ line tokens, ofLine line = tokens ↔ ∃ front row, IsSetOut front row ∧
      line.toList = setOut front row ∧ row.map Prod.fst = tokens) ∧
    ∀ (x y : String) (w : Char), isBlank w = true →
      ofLine (x ++ String.singleton w ++ y) = ofLine x ++ ofLine y := by
  refine ⟨fun line tokens => ofLine_eq_iff, fun x y w hw => ?_⟩
  rw [ofLine, String.toList_append, String.toList_append,
    String.toList_singleton, List.append_assoc, List.singleton_append,
    words_append_blank hw, List.map_append]
  rfl

/-- Runs of blanks of several kinds, and a separator that is no blank. -/
theorem tokens_and_blanks_make_line_mixed :
    ofLine " \t8  2\u2028−\n" = ["8", "2", "−"] ∧
      ofLine ("8\u001c2 3" ++ String.singleton '\u0085' ++ "−") =
        ofLine "8\u001c2 3" ++ ofLine "−" ∧
      ofLine "8\u001c2 3" = ["8\u001c2", "3"] := by
  obtain ⟨hlines, hparted⟩ := tokens_and_blanks_make_line
  refine ⟨(hlines _ _).2 ⟨[' ', '\t'],
    [("8", [' ', ' ']), ("2", ['\u2028']), ("−", ['\n'])], ?_, rfl, rfl⟩,
    hparted _ _ _ (by decide),
    (hlines _ _).2 ⟨[], [("8\u001c2", [' ']), ("3", [])], ?_, rfl, rfl⟩⟩
  · simp [isSetOut_cons, isSetOut_nil, isBlank]
  · simp [isSetOut_cons, isSetOut_nil, isBlank]

end Rpn.Token
