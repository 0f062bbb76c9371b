import Formulary.Library.Arrays
import Formulary.Library.Conversions
import Formulary.Library.Numbers
import Formulary.Library.Strings
import Formulary.Library.Time

/-!
# The catalogue of library functions

The functions that a host can make available to its formulas, under the names that formulas call
them by.  All of them but `now` depend on their arguments alone.
-/

set_option autoImplicit false

namespace Formulary.Library

/-- The functions by name, given what the host's clock shows. -/
def catalogue (clock : Timestamp) : List (String × Function) :=
  [("abs", elementary "abs" Float.abs),
    ("ceil", rounding "ceil" Float.ceil),
    ("floor", rounding "floor" Float.floor),
    ("round", rounding "round" roundHalfUp),
    ("sqrt", elementary "sqrt" Float.sqrt),
    ("min", choose "min" fun a b => a.lt b),
    ("max", choose "max" fun a b => b.lt a),
    ("sin", elementary "sin" Float.sin),
    ("cos", elementary "cos" Float.cos),
    ("tan", elementary "tan" Float.tan),
    ("log", elementary "log" Float.log),
    ("log10", elementary "log10" Float.log10),
    ("exp", elementary "exp" Float.exp),
    ("len", length),
    ("lower", mapping "lower" Text.lower),
    ("upper", mapping "upper" Text.upper),
    ("trim", mapping "trim" Text.trim),
    ("slice", slice),
    ("contains", contains),
    ("split", split),
    ("replace", replace),
    ("starts_with", startsWith),
    ("ends_with", endsWith),
    ("sort", sort),
    ("unique", unique),
    ("join", join),
    ("sum", sum),
    ("str", toString),
    ("num", toNumber),
    ("type", typeOf),
    ("now", now clock),
    ("timestamp", timestamp),
    ("to_millis", toMillis),
    ("milliseconds", duration "milliseconds" 1.0),
    ("seconds", duration "seconds" 1000.0),
    ("minutes", duration "minutes" 60000.0),
    ("hours", duration "hours" 3600000.0),
    ("days", duration "days" 86400000.0)]

/-- The function of a name. -/
def find? (clock : Timestamp) (name : String) : Option Function :=
  (catalogue clock).lookup name

/-- The names of all functions, sorted by code point. -/
def names : List String :=
  ((catalogue ⟨0⟩).map (·.1)).mergeSort fun a b => decide (a ≤ b)

end Formulary.Library
