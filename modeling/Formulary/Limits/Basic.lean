import Formulary.Error.Basic

/-!
# Limits

Bounds that protect a host against runaway formulas.  A limit is exceeded when an amount is strictly
greater than its bound.
-/

set_option autoImplicit false

namespace Formulary

/-- What is limited. -/
inductive LimitKind where
  | expressionLength
  | parseDepth
  | treeDepth
  | nodeCount
  | stringLength
  | arrayLength
  | argumentCount
  | rangeLength
deriving DecidableEq, Repr

namespace LimitKind

/-- Every kind of limit. -/
def all : List LimitKind :=
  [.expressionLength, .parseDepth, .treeDepth, .nodeCount, .stringLength, .arrayLength,
    .argumentCount, .rangeLength]

/-- The name of a limit in settings and messages. -/
def name : LimitKind → String
  | .expressionLength => "max_expression_length"
  | .parseDepth => "max_ast_depth"
  | .treeDepth => "max_tree_depth"
  | .nodeCount => "max_ast_nodes"
  | .stringLength => "max_string_length"
  | .arrayLength => "max_array_length"
  | .argumentCount => "max_function_args"
  | .rangeLength => "max_range_length"

/-- The limit of a name. -/
def ofName? (name : String) : Option LimitKind :=
  all.find? (·.name == name)

end LimitKind

/-- A bound for every kind of limit. -/
structure Limits where
  bound : LimitKind → Int

namespace Limits

/-- The bounds that hold where a host sets none. -/
def standard : Limits where
  bound
    | .expressionLength => 16384
    | .parseDepth => 128
    | .treeDepth => 200
    | .nodeCount => 10000
    | .stringLength => 4096
    | .arrayLength => 10000
    | .argumentCount => 64
    | .rangeLength => 1000000

/-- The standard limits are the default ones. -/
instance : Inhabited Limits := ⟨standard⟩

/-- One record of limits is at most another if each bound is. -/
instance : LE Limits := ⟨fun l l' => ∀ kind, l.bound kind ≤ l'.bound kind⟩

/-- Replaces one bound. -/
def set (limits : Limits) (kind : LimitKind) (value : Int) : Limits where
  bound k := if k = kind then value else limits.bound k

/-- The cause of exceeding a limit. -/
def exceeded (limits : Limits) (kind : LimitKind) (amount : Int) : Cause :=
  .limitExceeded kind.name (limits.bound kind) amount

/-- Accepts an amount that is within a limit. -/
def check (limits : Limits) (kind : LimitKind) (amount : Int) : Except Cause Unit :=
  if limits.bound kind < amount then .error (limits.exceeded kind amount) else .ok ()

end Limits

end Formulary
