import Rpn.CommandLine.Options

/-!
# The verbose option in front

The verbose option takes no argument, has no rival and sets a field that no other
option sets. So a reading that has taken it (`Reading.loudly`) goes on word by
word as it would have gone on without, to the same options but for verbosity or
to the same refusal, whatever the words are. Putting the option in front of a
command line is therefore all that it takes to have the same run with its log
(`ofArguments_verbose`).

Reading an option does two things: it takes the flags of a cluster, and it leaves
the words that are not arguments of the last of them. `readAll_of_some` tells
them apart, so that only the first has to do with the reading so far.
-/

namespace Rpn.CommandLine

/-! ## One option -/

namespace Cluster

/-- The cluster of an option, by what stands behind it in its word. -/
def ofOption? (flag : Flag) (isShort : Bool) : Option (List Char) → Option Cluster
  | none => some ⟨[], flag, none⟩
  | some text => ofBehind? flag isShort text

/-- The arguments of the last option of a cluster, before the words given. -/
def arguments (cluster : Cluster) (words : List (String × Word)) : List String :=
  match cluster.argument? with
  | some argument => [argument]
  | none => takeArguments cluster.last words

/-- The words that a cluster leaves of those given. -/
def left (cluster : Cluster) (words : List (String × Word)) : List (String × Word) :=
  match cluster.argument? with
  | some _ => words
  | none => words.drop (takeArguments cluster.last words).length

theorem length_left_le (cluster : Cluster) (words : List (String × Word)) :
    (cluster.left words).length ≤ words.length := by
  rw [left]
  split
  · exact Nat.le_refl _
  · rw [List.length_drop]
    exact Nat.sub_le _ _

end Cluster

namespace Reading

/-- The effect of a cluster. -/
def takeCluster (r : Reading) (cluster : Cluster) (words : List (String × Word)) :
    Except Refusal Reading :=
  (r.takeAll cluster.before).bind (·.take cluster.last (cluster.arguments words))

theorem readAll_of_none {flag : Flag} {isShort : Bool} {behind : Option (List Char)}
    (h : Cluster.ofOption? flag isShort behind = none) (r : Reading) (text : String)
    (rest : List (String × Word)) :
    r.readAll ((text, .option flag isShort behind) :: rest) =
      .error .wrongUsage := by
  cases behind with
  | none => cases h
  | some behind =>
      rw [Cluster.ofOption?] at h
      rw [readAll, h]

theorem readAll_of_some {flag : Flag} {isShort : Bool} {behind : Option (List Char)}
    {cluster : Cluster} (h : Cluster.ofOption? flag isShort behind = some cluster)
    (r : Reading) (text : String) (rest : List (String × Word)) :
    r.readAll ((text, .option flag isShort behind) :: rest) =
      (r.takeCluster cluster rest).bind (·.readAll (cluster.left rest)) := by
  cases behind with
  | none =>
      cases h
      rw [readAll, takeCluster]
      simp only [Cluster.arguments]
      cases (r.takeAll []).bind _ with
      | ok taken => rfl
      | error refusal => rfl
  | some behind =>
      rw [Cluster.ofOption?] at h
      obtain ⟨before, last, argument?⟩ := cluster
      rw [readAll, h, takeCluster]
      cases argument? with
      | _ =>
          simp only [Cluster.arguments]
          cases (r.takeAll before).bind _ with
          | ok taken => rfl
          | error refusal => rfl

/-- An option without an argument, alone in its word, takes nothing behind it. -/
theorem readAll_alone {flag : Flag} (h : flag.takesArgument = false) (r : Reading)
    (text : String) (isShort : Bool) (rest : List (String × Word)) :
    r.readAll ((text, .option flag isShort none) :: rest) =
      (r.take flag []).bind (·.readAll rest) := by
  have harguments : takeArguments flag rest = [] := by
    cases flag with
    | expression | prompt => cases h
    | _ => rfl
  have hleft : Cluster.left ⟨[], flag, none⟩ rest = rest := by
    rw [Cluster.left, harguments]
    rfl
  have htaken : r.takeCluster ⟨[], flag, none⟩ rest = r.take flag [] := by
    rw [takeCluster, Cluster.arguments, harguments]
    rfl
  rw [readAll_of_some (Cluster.ofOption?.eq_1 flag isShort), hleft, htaken]

/-! ## All words -/

/-- A reading with the verbose option before everything that it has read. -/
def loudly (r : Reading) : Reading :=
  { r with
    options := { r.options with verbose := true }
    given := r.given ++ [.verbose] }

theorem take_loudly (r : Reading) (flag : Flag) (arguments : List String) :
    r.loudly.take flag arguments = (r.take flag arguments).map loudly := by
  have hrival : flag.rival?.any r.loudly.given.contains =
      flag.rival?.any r.given.contains := by
    cases flag <;> simp [Flag.rival?, loudly]
  rw [take, take, hrival]
  split
  · rfl
  · cases flag <;> rfl

theorem takeAll_loudly (r : Reading) (flags : List Flag) :
    r.loudly.takeAll flags = (r.takeAll flags).map loudly := by
  induction flags generalizing r with
  | nil => rfl
  | cons flag rest ih =>
      rw [takeAll, takeAll, take_loudly]
      cases r.take flag [] with
      | ok taken => exact ih taken
      | error refusal => rfl

theorem takeCluster_loudly (r : Reading) (cluster : Cluster)
    (words : List (String × Word)) :
    r.loudly.takeCluster cluster words = (r.takeCluster cluster words).map loudly := by
  rw [takeCluster, takeCluster, takeAll_loudly]
  cases r.takeAll cluster.before with
  | ok taken => exact take_loudly taken _ _
  | error refusal => rfl

theorem readAll_loudly (r : Reading) (words : List (String × Word)) :
    r.loudly.readAll words = (r.readAll words).map loudly := by
  -- An option may take several of the words behind it, so the induction is on
  -- how many there are.
  induction hlength : words.length using Nat.strongRecOn generalizing r words with
  | ind length ih =>
      subst hlength
      cases words with
      | nil =>
          rw [readAll, readAll]
          rfl
      | cons word rest =>
          obtain ⟨text, word⟩ := word
          have hrest : rest.length < ((text, word) :: rest).length :=
            Nat.lt_succ_self _
          cases word with
          | divider =>
              rw [readAll, readAll]
              rfl
          | option flag isShort behind =>
              cases hcluster : Cluster.ofOption? flag isShort behind with
              | none =>
                  rw [readAll_of_none hcluster, readAll_of_none hcluster]
                  rfl
              | some cluster =>
                  rw [readAll_of_some hcluster, readAll_of_some hcluster,
                    takeCluster_loudly]
                  cases r.takeCluster cluster rest with
                  | ok taken =>
                      have hleft := Nat.lt_of_le_of_lt
                        (cluster.length_left_le rest) hrest
                      exact ih _ hleft taken _ rfl
                  | error refusal => rfl
          | plain | unknown | ambiguous =>
              rw [readAll, readAll]
              · exact ih _ hrest { r with leftOver := true } rest rfl
              all_goals simp

end Reading

theorem ofText_verbose : Word.ofText "-v" = .option .verbose true none :=
  rfl

/-- The verbose option in front of a command line makes its run verbose and
changes nothing else: neither another option nor whether the command line is
refused. -/
theorem ofArguments_verbose (arguments : List String) :
    Options.ofArguments ("-v" :: arguments) =
      (Options.ofArguments arguments).map ({ · with verbose := true }) := by
  rw [Options.ofArguments, Options.ofArguments, List.map_cons, ofText_verbose]
  have hambiguous : ∀ words : List Word,
      hasAmbiguous (.option .verbose true none :: words) = hasAmbiguous words :=
    fun _ => rfl
  have hread : ∀ words : List (String × Word),
      Reading.readAll ⟨.standard, [], false⟩
          (("-v", .option .verbose true none) :: words) =
        (Reading.readAll ⟨.standard, [], false⟩ words).map .loudly := by
    intro words
    rw [← Reading.readAll_loudly, Reading.readAll_alone rfl]
    rfl
  simp only [List.map_cons, hambiguous, hread]
  split
  · rfl
  · cases Reading.readAll ⟨.standard, [], false⟩ _ with
    | error refusal => rfl
    | ok r =>
        show (if r.leftOver then _ else _) = Except.map _ (if r.leftOver then _ else _)
        split
        · rfl
        · rfl

end Rpn.CommandLine
