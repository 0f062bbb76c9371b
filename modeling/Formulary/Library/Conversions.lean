import Formulary.Library.Arguments
import Formulary.Number.Reading

/-!
# Conversions

Values as strings and as numbers, and the names of their types.
-/

set_option autoImplicit false

namespace Formulary.Library

/-- Numbers as strings: whole ones below `10^21` as integers, where both zeros are the same. -/
def stringStyle : Number.Style where
  nan := "NaN"
  infinity := "Infinity"
  negativeInfinity := "-Infinity"
  negativeZero := "0"
  wholeBelow := Number.tenTo 21

/-- A value as a string. -/
def toString : Function :=
  unary "str" fun v =>
    match v.view with
    | .string s => .ok (.string s)
    | .boolean b => .ok (.string (if b then "true" else "false"))
    | .number n => do
      let x ← Value.orFault n.toFloat
      return .string (stringStyle.text x)
    | .timestamp t => (Value.orFault t.text).map .string
    | _ => refuse "str" ("cannot convert " ++ v.typeName ++ " to string")

/-- A value as a number. -/
def toNumber : Function :=
  unary "num" fun v =>
    match v.view with
    | .boolean b => .ok (.number (if b then 1.0 else 0.0))
    | .number n => do
      let x ← Value.orFault n.toFloat
      return .number x
    | .string s =>
      match Number.read? s with
      | some x => .ok (.number x)
      | none => refuse "num" ("cannot convert string \"" ++ s ++ "\" to number")
    | _ => refuse "num" ("cannot convert " ++ v.typeName ++ " to number")

/-- The name of a value's type. -/
def typeOf : Function :=
  unary "type" fun v => .ok (.string v.typeName)

end Formulary.Library
