import Formulary.Expr.Operator
import Formulary.Limits.Basic
import Formulary.Number.Remainder
import Formulary.Value.Equality

/-!
# What operators do

The meaning of the operators on values, index access and the building of ranges.  Evaluation and
simplification share these definitions, so that a formula means the same with its constants folded.
No operation knows where in a source it stands: a `Refusal` gets its site from the caller.
-/

set_option autoImplicit false

namespace Formulary.Value

/-- Refuses a value of a wrong type. -/
def mismatch {α : Type} (expected : String) (actual : Value) (context : Option String) :
    Except Refusal α :=
  .error (.cause (.typeMismatch expected actual.typeName context))

/-- Runs a computation that may leave the language. -/
def orFault {α : Type} (result : Except Fault α) : Except Refusal α :=
  result.mapError .fault

/-- Accepts an amount that is within a limit. -/
def withinLimit (limits : Limits) (kind : LimitKind) (amount : Int) : Except Refusal Unit :=
  (limits.check kind amount).mapError .cause

/-- The truth of a condition: a boolean itself, and whether a number differs from zero; no number is
false. -/
def truth (v : Value) : Except Refusal Bool :=
  match v.view with
  | .boolean b => .ok b
  | .number n =>
    if n.isZero then .ok false
    else do
      let x ← orFault n.toFloat
      return !Number.isNaN x
  | _ => mismatch "boolean or number" v none

/-- How an operator names itself in a message. -/
def operatorContext (symbol : String) : Option String :=
  some ("Operator '" ++ symbol ++ "'")

/-- Both operands as numbers. -/
def bothNumbers (operator : BinaryOp) (left right : Value) : Except Refusal (Numeric × Numeric) :=
  match left.numeric?, right.numeric? with
  | some a, some b => .ok (a, b)
  | none, _ => mismatch "number" left (operatorContext operator.symbol)
  | some _, none => mismatch "number" right (operatorContext operator.symbol)

/-- Applies a function of doubles to two numbers. -/
def arithmetic (f : Float → Float → Float) (a b : Numeric) : Except Refusal Value := do
  let x ← orFault a.toFloat
  let y ← orFault b.toFloat
  return .number (f x y)

/-- Shifts a timestamp by a number of milliseconds, rounded to a whole one. -/
def shift (t : Timestamp) (direction : Int) (n : Numeric) : Except Refusal Value := do
  match ← orFault n.nearest? with
  | some millis => return .timestamp ⟨t.millis + direction * millis⟩
  | none => .error (.cause (.evaluation .nonFiniteShift))

/-- Adds numbers, joins strings and arrays, and shifts timestamps. -/
def add (limits : Limits) (left right : Value) : Except Refusal Value :=
  match left.view, right.view with
  | .number a, .number b => arithmetic (· + ·) a b
  | .string s, .string t => .ok (.string (s ++ t))
  | .array a, .array b => do
    let m ← orFault a.length
    let n ← orFault b.length
    withinLimit limits .arrayLength ((m + n : Nat) : Int)
    let xs ← orFault a.toList
    let ys ← orFault b.toList
    return .list (xs ++ ys)
  | .timestamp t, .number n => shift t 1 n
  | .number n, .timestamp t => shift t 1 n
  | .string _, _ => mismatch "string" right (operatorContext "+")
  | .array _, _ => mismatch "array" right (operatorContext "+")
  | .number _, _ | .timestamp _, _ => mismatch "number" right (operatorContext "+")
  | _, _ => mismatch "number" left (operatorContext "+")

/-- Subtracts numbers, shifts timestamps back, and measures the time between two of them. -/
def subtract (left right : Value) : Except Refusal Value :=
  match left.view, right.view with
  | .timestamp t, .timestamp u => do
    let x ← orFault (Numeric.integer (t.millis - u.millis)).toFloat
    return .number x
  | .timestamp t, .number n => shift t (-1) n
  | .timestamp _, _ => mismatch "number or timestamp" right (operatorContext "-")
  | _, _ => do
    let (a, b) ← bothNumbers .subtract left right
    arithmetic (· - ·) a b

/-- Divides numbers by one that is not zero. -/
def divideBy (operator : BinaryOp) (f : Float → Float → Float) (left right : Value) :
    Except Refusal Value := do
  let (a, b) ← bothNumbers operator left right
  if b.isZero then .error (.cause (.divisionByZero operator.symbol))
  else arithmetic f a b

/-- The ways to order two values. -/
inductive Comparison where
  | less
  | lessEqual
  | greater
  | greaterEqual

/-- Compares two numeric values; no comparison holds of what is no number. -/
def Comparison.numbers (a b : Numeric) : Comparison → Bool
  | .less => a.lt b
  | .lessEqual => a.le b
  | .greater => b.lt a
  | .greaterEqual => b.le a

/-- Compares two members of a linear order. -/
def Comparison.linear {α : Type} (lt : α → α → Bool) (a b : α) : Comparison → Bool
  | .less => lt a b
  | .lessEqual => !lt b a
  | .greater => lt b a
  | .greaterEqual => !lt a b

/-- Compares numbers, strings by code point, or timestamps. -/
def compare (operator : BinaryOp) (comparison : Comparison) (left right : Value) :
    Except Refusal Value :=
  match left.view, right.view with
  | .number a, .number b => .ok (.boolean (comparison.numbers a b))
  | .string s, .string t =>
    .ok (.boolean (comparison.linear (fun a b : String => decide (a < b)) s t))
  | .timestamp t, .timestamp u =>
    .ok (.boolean (comparison.linear (fun a b : Int => decide (a < b)) t.millis u.millis))
  | .number _, _ | .string _, _ | .timestamp _, _ =>
    mismatch left.typeName right (operatorContext operator.symbol)
  | _, _ => mismatch "number" left (operatorContext operator.symbol)

/-- Combines the truths of two values; both are determined. -/
def connect (f : Bool → Bool → Bool) (left right : Value) : Except Refusal Value := do
  let a ← left.truth
  let b ← right.truth
  return .boolean (f a b)

/-- Applies an operator to two values. -/
def applyBinary (limits : Limits) (operator : BinaryOp) (left right : Value) :
    Except Refusal Value :=
  match operator with
  | .add => add limits left right
  | .subtract => subtract left right
  | .multiply => do
    let (a, b) ← bothNumbers .multiply left right
    arithmetic (· * ·) a b
  | .divide => divideBy .divide (· / ·) left right
  | .modulo => divideBy .modulo Number.remainder left right
  | .power => do
    let (a, b) ← bothNumbers .power left right
    arithmetic Float.pow a b
  | .equal => (orFault (left.equal right)).map .boolean
  | .notEqual => (orFault (left.equal right)).map fun b => .boolean (!b)
  | .less => compare .less .less left right
  | .greater => compare .greater .greater left right
  | .lessEqual => compare .lessEqual .lessEqual left right
  | .greaterEqual => compare .greaterEqual .greaterEqual left right
  | .and => connect (· && ·) left right
  | .or => connect (· || ·) left right
  | .other symbol => .error (.cause (.evaluation (.unknownOperator symbol)))

/-- Applies an operator to one value. -/
def applyUnary (operator : UnaryOp) (v : Value) : Except Refusal Value :=
  match operator with
  | .negate =>
    match v.numeric? with
    | some n => do
      let x ← orFault n.toFloat
      return .number (-x)
    | none => mismatch "number" v (operatorContext "-")
  | .not => do
    let b ← v.truth
    return .boolean (!b)
  | .other symbol => .error (.cause (.evaluation (.unknownOperator symbol)))

/-- The integer that a value is, where one is demanded. -/
def demandWhole (v : Value) (context : String) : Except Refusal Int :=
  match v.numeric? with
  | none => mismatch "number" v (some context)
  | some n => do
    match ← orFault n.whole? with
    | some i => return i
    | none => .error (.cause (.typeMismatch "integer" "non-integer number" (some context)))

/-- The position of an index in a sequence; negative indices count from the end. -/
def locate (requested : Int) (length : Nat) : Except Refusal Nat :=
  let resolved := if requested < 0 then requested + length else requested
  if resolved < 0 ∨ length ≤ resolved then
    .error (.cause (.indexOutOfRange requested length))
  else .ok resolved.toNat

/-- How index access names itself in a message. -/
def indexContext : String := "Index access"

/-- Reads an element of an array, or a character of a string. -/
def element (object index : Value) : Except Refusal Value :=
  match object.view with
  | .string s => do
    let requested ← index.demandWhole indexContext
    let position ← locate requested s.length
    return .string (String.ofList ((s.toList.drop position).take 1))
  | .array (.items xs) => do
    let requested ← index.demandWhole indexContext
    let position ← locate requested xs.length
    return xs.getD position .null
  | .array (.range r) => do
    let requested ← index.demandWhole indexContext
    let length ← orFault (Sequence.range r).length
    let position ← locate requested length
    orFault (ofRangeElement (r.get position))
  | _ => mismatch "array or string" object (some indexContext)

/-- How a range names itself in a message. -/
def rangeContext : String := "Range"

/-- The range from one whole number up to another, the latter included or not. -/
def buildRange (limits : Limits) (first last : Value) (inclusive : Bool) :
    Except Refusal Value := do
  let a ← first.demandWhole rangeContext
  let b ← last.demandWhole rangeContext
  if b < a then .error (.cause (.evaluation (.invertedRange a b)))
  else
    let stop := if inclusive then b + 1 else b
    withinLimit limits .rangeLength (stop - a)
    return .range (.upTo a stop)

end Formulary.Value
