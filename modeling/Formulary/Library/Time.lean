import Formulary.Library.Arguments

/-!
# Functions of time

Timestamps from milliseconds and back, and durations in milliseconds.
-/

set_option autoImplicit false

namespace Formulary.Library

/-- The time that the host's clock shows. -/
def now (clock : Timestamp) : Function :=
  nullary "now" (.ok (.timestamp clock))

/-- The timestamp of a number of milliseconds, rounded to a whole one. -/
def timestamp : Function :=
  unary "timestamp" fun v => do
    let x ← number "timestamp" "ms" v
    match Number.nearest? x with
    | some millis => return .timestamp ⟨millis⟩
    | none => refuse "timestamp" "ms must be finite"

/-- The milliseconds of a timestamp. -/
def toMillis : Function :=
  unary "to_millis" fun v =>
    match v with
    | .timestamp t => do
      let x ← Value.orFault (Numeric.integer t.millis).toFloat
      return .number x
    | _ => refuse "to_millis" ("ts must be a timestamp, got " ++ v.typeName)

/-- The milliseconds of a number of units of the given length. -/
def duration (function : String) (unit : Float) : Function :=
  unary function fun v => do
    let x ← number function "n" v
    return .number (x * unit)

end Formulary.Library
