import Formulary.Value.Operator

/-!
# Arguments of library functions

A library function takes a list of values and answers with a value or a refusal.  The checks here
give each kind of wrong argument its wording; the name of the function stands in front of it.
-/

set_option autoImplicit false

namespace Formulary.Library

/-- A function of the library. -/
abbrev Function := List Value → Except Refusal Value

/-- Refuses on behalf of a function. -/
def refuse {α : Type} (function text : String) : Except Refusal α :=
  .error (.cause (.functionFailed function text))

/-- A count as it stands in a message. -/
def countText (n : Nat) : String :=
  Number.intText n

/-- The wording of a wrong number of arguments. -/
def wrongCount {α : Type} (function expected : String) (args : List Value) : Except Refusal α :=
  refuse function ("expected " ++ expected ++ " argument(s), got " ++ countText args.length)

/-- Runs a function of no argument. -/
def nullary (function : String) (f : Except Refusal Value) : Function
  | [] => f
  | args => wrongCount function "0" args

/-- Runs a function of one argument. -/
def unary (function : String) (f : Value → Except Refusal Value) : Function
  | [a] => f a
  | args => wrongCount function "1" args

/-- Runs a function of two arguments. -/
def binary (function : String) (f : Value → Value → Except Refusal Value) : Function
  | [a, b] => f a b
  | args => wrongCount function "2" args

/-- Runs a function of three arguments. -/
def ternary (function : String) (f : Value → Value → Value → Except Refusal Value) : Function
  | [a, b, c] => f a b c
  | args => wrongCount function "3" args

/-- The double of an argument that must be a number. -/
def number (function argument : String) (v : Value) : Except Refusal Float :=
  match v.numeric? with
  | some n => Value.orFault n.toFloat
  | none => refuse function (argument ++ " must be a number, got " ++ v.typeName)

/-- The text of an argument that must be a string. -/
def string (function argument : String) (v : Value) : Except Refusal String :=
  match v with
  | .string s => .ok s
  | _ => refuse function (argument ++ " must be a string, got " ++ v.typeName)

/-- The elements of an argument that must be an array. -/
def array (function argument : String) (v : Value) : Except Refusal Sequence :=
  match v.sequence? with
  | some s => .ok s
  | none => refuse function (argument ++ " must be an array, got " ++ v.typeName)

/-- The integer of an argument that must be a whole number. -/
def wholeNumber (function argument : String) (v : Value) : Except Refusal Int := do
  let found ← match v.numeric? with
    | some n => Value.orFault n.whole?
    | none => .ok none
  match found with
  | some i => return i
  | none => refuse function (argument ++ " must be a whole number")

/-- An argument that is a string or an array. -/
inductive Collection where
  | string (s : String)
  | array (s : Sequence)

/-- The parts of an argument that must be a string or an array. -/
def collection (function : String) (v : Value) : Except Refusal Collection :=
  match v.view with
  | .string s => .ok (.string s)
  | .array s => .ok (.array s)
  | _ => refuse function ("expected string or array, got " ++ v.typeName)

end Formulary.Library
