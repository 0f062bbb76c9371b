import Formulary.Expr.Walk

/-!
# Names of a formula

For hosts that show a formula as a form: which names it assigns, and which of them are its inputs,
that is, assigned at the top from values that read no variable.
-/

set_option autoImplicit false

namespace Formulary.Expr

/-- The name that an assignment binds. -/
def target? : Expr → Option String
  | .assign _ name _ => some name
  | _ => none

/-- A walk that keeps a list of the names found so far. -/
abbrev Gathering := StateT (List String) (Except Fault)

/-- Adds a name behind those found so far, if it is not among them. -/
def noted (names : List String) (name : String) : List String :=
  if names.contains name then names else names ++ [name]

/-- Walks over all parts in order. -/
def gatherParts : Rule Gathering Unit := fun _ parts =>
  parts.forM id

/-- Notes the name that an assignment binds, and walks over its value then. -/
def gatherTarget : Rule Gathering Unit
  | .assign _ name _, parts => do
    modify fun names => noted names name
    parts.forM id
  | e, parts => gatherParts e parts

/-- The rules for gathering the assigned names. -/
def targetRules : Rules Gathering Unit :=
  .withDefault (fun kind => match kind with
    | .assign => some gatherTarget
    | _ => none) gatherParts

/-- The assigned names of a tree, nested ones included, each once and in the order in which the walk
meets them; or why the tree cannot be walked over. -/
def assigned (e : Expr) : Except Fault (List String) := do
  let ((), names) ← (e.walk targetRules).run []
  return names

mutual

/-- Whether a tree reads a name that is not among the bound ones, nor bound by a comprehension
around the reading.  The walk ends at the first such name. -/
def readsOutside (bound : List String) : Expr → Except Fault Bool
  | .identifier _ name => .ok (!bound.contains name)
  | .comprehension _ binder iterable none body => do
    if ← readsOutside bound iterable then return true
    readsOutside (binder :: bound) body
  | .comprehension _ binder iterable (some guard) body => do
    if ← readsOutside bound iterable then return true
    if ← readsOutside (binder :: bound) guard then return true
    readsOutside (binder :: bound) body
  | .program _ statements => anyReadsOutside bound statements
  | .array _ elements => anyReadsOutside bound elements
  | .call _ _ arguments => anyReadsOutside bound arguments
  | .binary _ _ left right => do
    if ← readsOutside bound left then return true
    readsOutside bound right
  | .unary _ _ argument => readsOutside bound argument
  | .assign _ _ value => readsOutside bound value
  | .conditional _ condition consequent alternate => do
    if ← readsOutside bound condition then return true
    if ← readsOutside bound consequent then return true
    readsOutside bound alternate
  | .index _ object offset => do
    if ← readsOutside bound object then return true
    readsOutside bound offset
  | .range _ first last _ => do
    if ← readsOutside bound first then return true
    readsOutside bound last
  | .number .. | .string .. | .boolean .. => .ok false
  | .foreign item => .error item.fault

/-- Whether one of several trees reads a name from outside. -/
def anyReadsOutside (bound : List String) : List Expr → Except Fault Bool
  | [] => .ok false
  | e :: es => do
    if ← readsOutside bound e then return true
    anyReadsOutside bound es

end

/-- The top-level statements of a formula. -/
def topLevel : Expr → List Expr
  | .program _ statements => statements
  | e => [e]

/-- Adds a statement's input to the names found so far. -/
def addInput (names : List String) : Expr → Except Fault (List String)
  | .assign _ name value => do
    if names.contains name then return names
    if ← readsOutside [] value then return names
    return names ++ [name]
  | _ => .ok names

/-- The inputs of a formula in the order of their definition. -/
def inputs (e : Expr) : Except Fault (List String) :=
  e.topLevel.foldlM addInput []

end Formulary.Expr
