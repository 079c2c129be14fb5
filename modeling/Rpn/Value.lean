import Rpn.Decimal.Layout
import Rpn.Text.Quoted

/-!
# Values from outside

What a caller pushes, names or loads may be of any kind, not only a number or a
text. A value is one of these before the calculator has decided what to make of
it. It is shown in messages as its kind demands, a text in quotes so that it
cannot be taken for a number. A whole number may be too long to be shown.
-/

namespace Rpn

/-- A value handed in by a caller. -/
inductive Value where
  | real (x : Float)
  | whole (n : Int)
  | truth (b : Bool)
  | text (s : String)
  | absent
  | list (items : List Value)
deriving Inhabited

namespace Value

/-- The word for a kind of value in messages. -/
def kind : Value → String
  | real _ => "float"
  | whole _ => "int"
  | truth _ => "bool"
  | text _ => "str"
  | absent => "NoneType"
  | list _ => "list"

/-- How many digits a whole number may have to be written down. -/
def digitLimit : Nat := 4300

mutual

/-- Whether a value can be shown: there is no whole number in it that is too
long. -/
def isShowable : Value → Bool
  | whole n => n.natAbs < Nat.pow 10 digitLimit
  | list items => allShowable items
  | _ => true

/-- Whether all of some values can be shown. -/
def allShowable : List Value → Bool
  | [] => true
  | v :: vs => v.isShowable && allShowable vs

end

mutual

/-- A value as messages show it, if it can be shown. -/
def shown : Value → String
  | real x => numberText x
  | whole n => toString n
  | truth true => "True"
  | truth false => "False"
  | text s => Text.quoted s
  | absent => "None"
  | list items => "[" ++ ", ".intercalate (allShown items) ++ "]"

/-- Values as messages show them, one by one. -/
def allShown : List Value → List String
  | [] => []
  | v :: vs => v.shown :: allShown vs

end

/-- The text, if the value is one. -/
def text? : Value → Option String
  | text s => some s
  | _ => none

end Value

end Rpn
