/-!
# Patterns

A pattern is a regular expression over characters, and `Matches` says which
texts it describes. Whether a text is one of them is decided by derivatives:
what may follow a character is again a pattern, so a text is read once from left
to right, and it matches if the pattern that is left at its end admits the empty
text. A pattern may be as ambiguous as it likes, since no choice is ever made.
-/

namespace Rpn

/-- A regular expression whose letters are classes of characters. -/
inductive Pattern where
  | nothing
  | empty
  | one (isMember : Char → Bool)
  | seq (first second : Pattern)
  | alt (left right : Pattern)
  | many (body : Pattern)

namespace Pattern

/-- The texts that a pattern describes. -/
inductive Matches : Pattern → List Char → Prop where
  | empty : Matches empty []
  | one {isMember : Char → Bool} {c : Char} (h : isMember c = true) : Matches (one isMember) [c]
  | seq {p q : Pattern} {s t : List Char} (hs : Matches p s) (ht : Matches q t) :
      Matches (seq p q) (s ++ t)
  | left {p q : Pattern} {s : List Char} (h : Matches p s) : Matches (alt p q) s
  | right {p q : Pattern} {s : List Char} (h : Matches q s) : Matches (alt p q) s
  | stop {p : Pattern} : Matches (many p) []
  | more {p : Pattern} {s t : List Char} (hs : Matches p s) (ht : Matches (many p) t) :
      Matches (many p) (s ++ t)

/-- The pattern or nothing. -/
def optional (p : Pattern) : Pattern :=
  alt empty p

/-- The pattern so many times in a row. -/
def times (p : Pattern) : Nat → Pattern
  | 0 => empty
  | n + 1 => seq p (times p n)

/-- The pattern at least once. -/
def atLeastOnce (p : Pattern) : Pattern :=
  seq p (many p)

/-- One given character. -/
def char (c : Char) : Pattern :=
  one (· == c)

/-- One of the given characters. -/
def oneOf (cs : List Char) : Pattern :=
  one cs.contains

/-- Patterns in a row. -/
def inOrder : List Pattern → Pattern
  | [] => empty
  | [p] => p
  | p :: ps => seq p (inOrder ps)

/-- Whether the empty text matches. -/
def acceptsEmpty : Pattern → Bool
  | nothing => false
  | empty => true
  | one _ => false
  | seq p q => p.acceptsEmpty && q.acceptsEmpty
  | alt p q => p.acceptsEmpty || q.acceptsEmpty
  | many _ => true

/-- One pattern after another, left out where it says nothing. -/
def follow : Pattern → Pattern → Pattern
  | nothing, _ => nothing
  | empty, q => q
  | p, q => seq p q

/-- Either of two patterns, left out where one describes nothing. -/
def either : Pattern → Pattern → Pattern
  | nothing, q => q
  | p, nothing => p
  | p, q => alt p q

/-- What may follow a character. -/
def after (c : Char) : Pattern → Pattern
  | nothing => nothing
  | empty => nothing
  | one isMember => if isMember c then empty else nothing
  | seq p q =>
    if p.acceptsEmpty then either (follow (after c p) q) (after c q)
    else follow (after c p) q
  | alt p q => either (after c p) (after c q)
  | many p => follow (after c p) (many p)

/-- Whether a text matches. -/
def accepts (p : Pattern) (s : List Char) : Bool :=
  (s.foldl (fun rest c => rest.after c) p).acceptsEmpty

end Pattern

end Rpn
