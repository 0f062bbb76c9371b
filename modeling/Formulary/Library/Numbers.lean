import Formulary.Library.Arguments

/-!
# Functions of numbers

The elementary functions, the roundings to whole numbers, and the least and greatest of several
numbers.  Where a function has no value it answers with no number or an infinity, as the arithmetic
of doubles has it.
-/

set_option autoImplicit false

namespace Formulary.Library

/-- The double that is no number. -/
def notANumber : Float := 0.0 / 0.0

/-- A function of one number; of no number it is no number. -/
def elementary (function : String) (f : Float → Float) : Function :=
  unary function fun v => do
    let x ← number function "x" v
    return .number (if Number.isNaN x then notANumber else f x)

/-- A function that rounds to a whole number; infinities and no number stay as they are, and the
result is never a negative zero. -/
def rounding (function : String) (f : Float → Float) : Function :=
  unary function fun v => do
    let x ← number function "x" v
    return .number (if Number.isFinite x then f x + 0.0 else x)

/-- The nearest whole number, a half going up. -/
def roundHalfUp (x : Float) : Float :=
  (x + 0.5).floor

/-- The numbers among which to choose: the arguments, or the elements of the only one. -/
def candidates (function : String) (args : List Value) : Except Refusal (List Float) := do
  let values ← match args with
    | [v] =>
      match v.sequence? with
      | some s => Value.orFault s.toList
      | none => .ok args
    | _ => .ok args
  if values.isEmpty then refuse function "expected at least one number"
  else values.mapM (number function "value")

/-- Chooses among numbers: the first one that no other is better than, and no number if one of them
is none. -/
def choose (function : String) (better : Numeric → Numeric → Bool) : Function := fun args => do
  let values ← candidates function args
  if values.any Number.isNaN then return .number notANumber
  match values with
  | [] => return .number notANumber
  | x :: xs =>
    return .number
      (xs.foldl (fun best y => if better (.double y) (.double best) then y else best) x)

end Formulary.Library
