import Formulary.Error.Fault
import Formulary.Number.Binary
import Formulary.Value.IntRange
import Formulary.Value.Timestamp

/-!
# Values

What formulas compute with and what hosts hand over.  Formulas themselves know booleans, numbers,
strings, timestamps and arrays, an array being a list or a lazy range of integers.  Hosts also hand
over integers, tuples, moments, nothing, and objects that the language cannot use; `Value.normalize`
turns what it can into values of the language.

Main definitions: `Value` and `Value.view`, the view of a value by what the language can do with it;
`Numeric`, a number or integer with exact order and equality; `Sequence`, the elements of an array.
-/

set_option autoImplicit false

namespace Formulary

/-- A value of the language or of a host. -/
inductive Value where
  | boolean (b : Bool)
  | number (x : Float)
  | string (s : String)
  | timestamp (t : Timestamp)
  | range (r : IntRange)
  | list (items : List Value)
  | integer (n : Int)
  | tuple (items : List Value)
  | moment (m : Moment)
  | null
  | object (typeName : String)
deriving Inhabited

/-- A double, or an integer of any size that a host handed over. -/
inductive Numeric where
  | double (x : Float)
  | integer (n : Int)

namespace Numeric

/-- Where a numeric value lies; a NaN lies nowhere. -/
def place : Numeric → Option Number.Place
  | .double x => Number.place x
  | .integer n => some (Number.placeOfInt n)

/-- The numeric value as a double. -/
def toFloat : Numeric → Except Fault Float
  | .double x => .ok x
  | .integer n =>
    match Number.ofInt? n with
    | some x => .ok x
    | none => .error .integerTooLarge

/-- Whether two numeric values are the same number, exactly. -/
def equal (a b : Numeric) : Bool :=
  match a.place, b.place with
  | some p, some q => p == q
  | _, _ => false

/-- Whether one numeric value is at most another, exactly. -/
def le (a b : Numeric) : Bool :=
  match a.place, b.place with
  | some p, some q => p.le q
  | _, _ => false

/-- Whether one numeric value is below another, exactly. -/
def lt (a b : Numeric) : Bool :=
  match a.place, b.place with
  | some p, some q => p.lt q
  | _, _ => false

/-- Whether a numeric value is zero. -/
def isZero (a : Numeric) : Bool :=
  a.equal (.integer 0)

/-- The integer that a numeric value is, if it is one. -/
def whole? : Numeric → Except Fault (Option Int)
  | .double x => .ok (Number.whole? x)
  | .integer n => do
    let _ ← (Numeric.integer n).toFloat
    return some n

/-- The integer nearest to a finite numeric value, a half going to the even neighbour. -/
def nearest? : Numeric → Except Fault (Option Int)
  | .double x => .ok (Number.nearest? x)
  | .integer n => do
    let _ ← (Numeric.integer n).toFloat
    return some n

end Numeric

/-- The longest sequence that can be counted. -/
def Sequence.longest : Nat := Number.twoTo 63 - 1

/-- The elements of an array. -/
inductive Sequence where
  | items (xs : List Value)
  | range (r : IntRange)

/-- An element of a range as a number. -/
def Value.ofRangeElement (n : Int) : Except Fault Value :=
  match Number.ofInt? n with
  | some x => .ok (.number x)
  | none => .error .integerTooLarge

namespace Sequence

/-- How many elements an array has. -/
def size : Sequence → Nat
  | .items xs => xs.length
  | .range r => r.length

/-- How many elements an array has, if they can be counted. -/
def length (s : Sequence) : Except Fault Nat :=
  if longest < s.size then .error .lengthTooLarge else .ok s.size

/-- The elements of an array, those of a range as numbers. -/
def toList : Sequence → Except Fault (List Value)
  | .items xs => .ok xs
  | .range r => r.toList.mapM Value.ofRangeElement

end Sequence

namespace Value

/-- A value by what the language can do with it. -/
inductive View where
  | boolean (b : Bool)
  | number (n : Numeric)
  | string (s : String)
  | timestamp (t : Timestamp)
  | array (s : Sequence)
  | other

/-- The view of a value. -/
def view : Value → View
  | .boolean b => .boolean b
  | .number x => .number (.double x)
  | .integer n => .number (.integer n)
  | .string s => .string s
  | .timestamp t => .timestamp t
  | .range r => .array (.range r)
  | .list xs | .tuple xs => .array (.items xs)
  | .moment _ | .null | .object _ => .other

/-- The numeric value of a number. -/
def numeric? (v : Value) : Option Numeric :=
  match v.view with
  | .number n => some n
  | _ => none

/-- The elements of an array. -/
def sequence? (v : Value) : Option Sequence :=
  match v.view with
  | .array s => some s
  | _ => none

/-- The name of a value's type in messages. -/
def typeName : Value → String
  | .boolean _ => "boolean"
  | .number _ | .integer _ => "number"
  | .string _ => "string"
  | .timestamp _ => "timestamp"
  | .range _ | .list _ | .tuple _ => "array"
  | .moment _ => "datetime"
  | .null => "null"
  | .object typeName => typeName

/-- The name that hosts know a value's type by. -/
def hostTypeName : Value → String
  | .boolean _ => "bool"
  | .number _ => "float"
  | .integer _ => "int"
  | .string _ => "str"
  | .timestamp _ => "Timestamp"
  | .range _ => "range"
  | .list _ => "list"
  | .tuple _ => "tuple"
  | .moment _ => "datetime"
  | .null => "NoneType"
  | .object typeName => typeName

/-- Whether a value is a number. -/
def isNumber (v : Value) : Bool :=
  v.numeric?.isSome

/-- Whether a value is an array. -/
def isArray (v : Value) : Bool :=
  v.sequence?.isSome

/-- Whether a value is a number with nothing behind its point. -/
def isIntegral (v : Value) : Except Fault Bool :=
  match v.numeric? with
  | some n => n.whole?.map Option.isSome
  | none => .ok false

end Value

end Formulary
