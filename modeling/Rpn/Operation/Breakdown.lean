import Rpn.Fault
import Rpn.Operation.Arithmetic

/-!
# Arithmetic that breaks down

The functions beneath the standard operators have no result for some doubles: a
quotient by zero, a root or a power that is no real number, the sine of an
infinity, a power beyond the largest double. Each of these breaks down in one of
three ways. An operator expects some of the ways and puts the result of IEEE 754
in the place of the missing one; a breakdown that it does not expect passes
through and is a failure of the operator.
-/

namespace Rpn.Arithmetic

open Binary64

/-- The ways in which a function breaks down. -/
inductive Breakdown where
  | zeroDivisor
  | noRealValue
  | tooLarge

/-- The failure of an operator that did not expect a breakdown. -/
def Breakdown.failure : Breakdown → Failure
  | zeroDivisor => .mishap ⟨"ZeroDivisionError", "float division by zero"⟩
  | noRealValue => .mishap ⟨"ValueError", "math domain error"⟩
  | tooLarge => .mishap ⟨"OverflowError", "math range error"⟩

namespace Bare

def quotient (dividend divisor : Float) : Except Breakdown Float :=
  if divisor == 0 then .error .zeroDivisor else .ok (dividend / divisor)

def root (x : Float) : Except Breakdown Float :=
  if x < 0 then .error .noRealValue else .ok x.sqrt

def sine (x : Float) : Except Breakdown Float :=
  if x.isInf then .error .noRealValue else .ok x.sin

def cosine (x : Float) : Except Breakdown Float :=
  if x.isInf then .error .noRealValue else .ok x.cos

def power (base exponent : Float) : Except Breakdown Float :=
  if base == 0 && exponent.isFinite && exponent < 0 then .error .noRealValue
  else if base < 0 && base.isFinite && exponent.isFinite && !isWhole exponent then
    .error .noRealValue
  else
    let result := plainPower base exponent
    if base.isFinite && exponent.isFinite && base != 0 && result.isInf then .error .tooLarge
    else .ok result

end Bare

/-- A result, or after a breakdown that is expected what is put in its place. -/
def expecting (expected : Breakdown → Option Float) :
    Except Breakdown Float → Except Breakdown Float
  | .ok value => .ok value
  | .error breakdown =>
    match expected breakdown with
    | some value => .ok value
    | none => .error breakdown

/-- A function of one operand that is not a number where it has no real value. -/
def orNan (function : Float → Except Breakdown Float) (only : Float) : Except Breakdown Float :=
  expecting (fun
    | .noRealValue => some nan
    | _ => none) (function only)

/-- The quotient, by zero too. -/
def divide (dividend divisor : Float) : Except Breakdown Float :=
  expecting (fun
    | .zeroDivisor => some <|
      if dividend == 0 || dividend.isNaN then nan
      else copySign infinity dividend * copySign 1 divisor
    | _ => none) (Bare.quotient dividend divisor)

/-- The power, also where it is too large or not real. -/
def raise (base exponent : Float) : Except Breakdown Float :=
  expecting (fun
    | .tooLarge => some <| if base < 0 && isOdd exponent then -infinity else infinity
    | .noRealValue => some <|
      if base == 0 then if isOdd exponent then copySign infinity base else infinity
      else nan
    | .zeroDivisor => none) (Bare.power base exponent)

end Rpn.Arithmetic
