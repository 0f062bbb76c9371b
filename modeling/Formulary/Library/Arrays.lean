import Formulary.Library.Arguments
import Formulary.Text.Pattern

/-!
# Functions of arrays

Length, parts and membership, of strings as well as of arrays; sorting, distinct elements, joining
and adding up.
-/

set_option autoImplicit false

namespace Formulary

/-- Whether an integer is an element of a range. -/
def IntRange.contains (r : IntRange) (n : Int) : Bool :=
  let distance := n - r.first
  decide (distance % r.step = 0 ∧ 0 ≤ distance / r.step ∧ distance / r.step < r.length)

namespace Library

/-- How many characters or elements there are. -/
def length : Function :=
  unary "len" fun v => do
    match ← collection "len" v with
    | .string s => return .number (Float.ofNat s.length)
    | .array s =>
      let n ← Value.orFault s.length
      let x ← Value.orFault (Numeric.integer n).toFloat
      return .number x

/-- The part of a string or an array between two offsets. -/
def slicePart (v start : Value) (stop : Option Value) : Except Refusal Value := do
  let parts ← collection "slice" v
  let first ← wholeNumber "slice" "start" start
  let last ← match stop with
    | none => .ok none
    | some w => (wholeNumber "slice" "end" w).map some
  match parts with
  | .string s => return .string (String.ofList (Text.cut s.toList first last))
  | .array (.items xs) => return .list (Text.cut xs first last)
  | .array (.range r) =>
    let low := Text.clampOffset r.length first
    let high := (last.map (Text.clampOffset r.length)).getD r.length
    let numbers ← Value.orFault ((r.part low high).mapM Value.ofRangeElement)
    return .list numbers

/-- The part of a string or an array from one offset up to another, or to the end. -/
def slice : Function
  | [v, start] => slicePart v start none
  | [v, start, stop] => slicePart v start (some stop)
  | args => wrongCount "slice" "2-3" args

/-- Whether one of the values equals the given one; the search ends at the first that does. -/
def anyEqual (search : Value) : List Value → Except Fault Bool
  | [] => .ok false
  | v :: vs => do
    if ← v.equal search then return true
    anyEqual search vs

/-- Whether a string has a part, or an array an element. -/
def contains : Function :=
  binary "contains" fun v search => do
    match ← collection "contains" v with
    | .string s =>
      let pattern ← string "contains" "search" search
      return .boolean (Text.occursIn pattern.toList s.toList)
    | .array (.items xs) => return .boolean (← Value.orFault (anyEqual search xs))
    | .array (.range r) =>
      let whole := match search.numeric? with
        | some (.double x) => Number.whole? x
        | some (.integer n) => some n
        | none => none
      return .boolean (whole.any r.contains)

/-- Sorts numbers that are all of one type by an order, equal ones in the order they stand in. -/
def sortBy {α : Type} (key? : Value → Option α) (lt : α → α → Bool) (values : List Value) :
    Option (List Value) := do
  let keyed ← values.mapM fun v => (key? v).map fun key => (key, v)
  return (keyed.mergeSort fun a b => !lt b.1 a.1).map (·.2)

/-- The text of a string. -/
def text? : Value → Option String
  | .string s => some s
  | _ => none

/-- The milliseconds of a timestamp. -/
def millis? : Value → Option Int
  | .timestamp t => some t.millis
  | _ => none

/-- Sorts an array of numbers, of strings or of timestamps.  A NaN is neither below nor above any
number, so an array that holds one has no sorted order; all its elements are kept, but where they
end up depends on the sorting. -/
def sort : Function :=
  unary "sort" fun v => do
    let elements ← array "sort" "a" v
    let values ← Value.orFault elements.toList
    let sorted := (sortBy Value.numeric? Numeric.lt values).orElse fun _ =>
      (sortBy text? (fun s t => decide (s < t)) values).orElse fun _ =>
        sortBy millis? (fun s t => decide (s < t)) values
    match sorted with
    | some result => return .list result
    | none =>
      let names := ((values.map Value.typeName).eraseDups).mergeSort fun a b => decide (a ≤ b)
      refuse "sort" ("cannot sort array of " ++ ", ".intercalate names)

/-- Adds an element to the distinct ones found so far, unless one of them equals it. -/
def addDistinct (found : List Value) (v : Value) : Except Fault (List Value) := do
  if ← found.anyM v.equal then return found
  return found ++ [v]

/-- The elements of an array without those that equal an earlier one. -/
def unique : Function :=
  unary "unique" fun v => do
    let elements ← array "unique" "a" v
    let values ← Value.orFault elements.toList
    let distinct ← Value.orFault (values.foldlM addDistinct [])
    return .list distinct

/-- The strings of a list, whose elements are counted from `index`. -/
def allStrings (index : Nat) : List Value → Except Refusal (List String)
  | [] => .ok []
  | .string s :: vs => do
    let rest ← allStrings (index + 1) vs
    return s :: rest
  | v :: _ =>
    refuse "join"
      ("expected string element, got " ++ v.typeName ++ " at index " ++ countText index)

/-- Joins strings, with a separator between them. -/
def join : Function :=
  binary "join" fun v separator => do
    let elements ← array "join" "a" v
    let between ← string "join" "separator" separator
    let values := match elements with
      | .items xs => xs
      | .range r => (r.part 0 (min 1 r.length)).map .integer
    let strings ← allStrings 0 values
    return .string (between.intercalate strings)

/-- Adds up an array of numbers, in order and from zero. -/
def sum : Function :=
  unary "sum" fun v => do
    let elements ← array "sum" "a" v
    let values ← Value.orFault elements.toList
    let total ← values.foldlM (fun (total : Float) w => do
      let x ← number "sum" "element" w
      return total + x) 0.0
    return .number total

end Library

end Formulary
