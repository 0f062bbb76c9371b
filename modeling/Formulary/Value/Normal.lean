import Formulary.Error.Cause
import Formulary.Value.Basic

/-!
# Normal values

The values that evaluation works with: booleans, numbers, strings, timestamps, ranges and lists of
these.  `Value.normalize` turns what a host hands over into such a value, or names the first part
that has no counterpart.
-/

set_option autoImplicit false

namespace Formulary.Value

mutual

/-- The value of the language that a host's value stands for. -/
def normalize : Value → Except EvaluationFault Value
  | .boolean b => .ok (.boolean b)
  | .number x => .ok (.number x)
  | .integer n =>
    match Number.ofInt? n with
    | some x => .ok (.number x)
    | none => .error .numberOutOfRange
  | .string s => .ok (.string s)
  | .timestamp t => .ok (.timestamp t)
  | .range r => .ok (.range r)
  | .moment m => .ok (.timestamp (.ofMoment m))
  | .list items => (normalizeAll items).map .list
  | .tuple items => (normalizeAll items).map .list
  | .null => .error (.unsupportedValue (hostTypeName .null))
  | .object typeName => .error (.unsupportedValue typeName)

/-- The values of the language that several values of a host stand for. -/
def normalizeAll : List Value → Except EvaluationFault (List Value)
  | [] => .ok []
  | v :: vs => do
    let w ← normalize v
    let ws ← normalizeAll vs
    return w :: ws

end

end Formulary.Value
