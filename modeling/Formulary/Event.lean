import Formulary.Expr.Basic

/-!
# Events

What a host may want to log: each event has a level, a name and a few named fields.
-/

set_option autoImplicit false

namespace Formulary

/-- Something worth logging. -/
inductive Event where
  /-- A node was replaced by a constant or by one of its parts. -/
  | constantFolded (kind : Kind) (operator : Option String)
  /-- The value of a variable was put in its place in later statements. -/
  | constantPropagated (name : String)
  /-- An assignment that nothing reads was dropped. -/
  | deadAssignmentEliminated (name : String)
  /-- An assignment gave way to the host's value. -/
  | externalOverrideApplied (name : String)
  /-- A function of the host failed. -/
  | hostFunctionFailed (function text : String)
  /-- Limits were read from a file. -/
  | limitsLoaded (path format : String)
deriving DecidableEq, Repr

namespace Event

/-- How important an event is. -/
def level : Event → String
  | .limitsLoaded .. => "INFO"
  | _ => "DEBUG"

/-- The name of an event. -/
def name : Event → String
  | .constantFolded .. => "constant_folded"
  | .constantPropagated _ => "constant_propagated"
  | .deadAssignmentEliminated _ => "dead_assignment_eliminated"
  | .externalOverrideApplied _ => "external_override_applied"
  | .hostFunctionFailed .. => "host_function_failed"
  | .limitsLoaded .. => "expression_limits_loaded"

/-- The fields of an event. -/
def fields : Event → List (String × String)
  | .constantFolded kind none => [("node_type", kind.name)]
  | .constantFolded kind (some operator) => [("node_type", kind.name), ("operator", operator)]
  | .constantPropagated name => [("variable", name)]
  | .deadAssignmentEliminated name => [("variable", name)]
  | .externalOverrideApplied name => [("variable", name)]
  | .hostFunctionFailed function text => [("function", function), ("error", text)]
  | .limitsLoaded path format => [("path", path), ("format", format)]

end Event

end Formulary
