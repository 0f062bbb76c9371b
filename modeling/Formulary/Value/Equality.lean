import Formulary.Value.Basic

/-!
# Equality of values

Values are equal only if they are of one type: booleans, numbers, strings, timestamps or arrays.
Numbers are compared exactly, and arrays element by element, so that a range equals the list of its
elements.  Comparing fails only for a range that is too long to be counted.
-/

set_option autoImplicit false

namespace Formulary.Value

/-- Whether a value is a given integer. -/
def equalsInteger (n : Int) (v : Value) : Bool :=
  match v.numeric? with
  | some a => a.equal (.integer n)
  | none => false

/-- Whether two ranges are equal, if both can be counted. -/
def equalRanges (r s : IntRange) : Except Fault Bool := do
  let _ ← (Sequence.range r).length
  let _ ← (Sequence.range s).length
  return r.sameElements s

/-- Whether a range equals a list, if it can be counted. -/
def equalRangeList (r : IntRange) (items : List Value) : Except Fault Bool := do
  let length ← (Sequence.range r).length
  return length == items.length && (r.toList.zip items).all fun (n, v) => equalsInteger n v

mutual

/-- Whether two values are equal. -/
def equal : Value → Value → Except Fault Bool
  | .boolean a, .boolean b => .ok (a == b)
  | .number x, w => .ok (w.numeric?.elim false (Numeric.double x).equal)
  | .integer n, w => .ok (w.numeric?.elim false (Numeric.integer n).equal)
  | .string s, .string t => .ok (s == t)
  | .timestamp s, .timestamp t => .ok (s.millis == t.millis)
  | .range r, .range s => equalRanges r s
  | .range r, .list ys => equalRangeList r ys
  | .range r, .tuple ys => equalRangeList r ys
  | .list xs, .range s => equalRangeList s xs
  | .tuple xs, .range s => equalRangeList s xs
  | .list xs, .list ys => if xs.length = ys.length then equalAll xs ys else .ok false
  | .list xs, .tuple ys => if xs.length = ys.length then equalAll xs ys else .ok false
  | .tuple xs, .list ys => if xs.length = ys.length then equalAll xs ys else .ok false
  | .tuple xs, .tuple ys => if xs.length = ys.length then equalAll xs ys else .ok false
  | _, _ => .ok false

/-- Whether two lists of values are equal as far as the shorter one goes. -/
def equalAll : List Value → List Value → Except Fault Bool
  | x :: xs, y :: ys => do
    if ← equal x y then equalAll xs ys else return false
  | _, _ => .ok true

end

end Formulary.Value
