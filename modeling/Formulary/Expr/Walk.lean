import Formulary.Expr.Basic

/-!
# Walking with rules

A walk visits a tree by rules, one for each kind of node that is met.  A rule is given the node and
the walks over its parts, and decides which of them to run and in which order.
-/

set_option autoImplicit false

namespace Formulary.Expr

/-- What to do at a node, given the walks over its parts. -/
abbrev Rule (m : Type → Type) (α : Type) := Expr → List (m α) → m α

/-- Rules for some kinds of nodes, and what to do at the others. -/
structure Rules (m : Type → Type) (α : Type) where
  rule? : Kind → Option (Rule m α)
  otherwise : Kind → Rule m α

namespace Rules

variable {m : Type → Type} {α : Type} [Monad m] [MonadExcept Fault m]

/-- Rules that fail at every kind of node that they do not name. -/
def strict (rule? : Kind → Option (Rule m α)) : Rules m α where
  rule? := rule?
  otherwise kind := fun _ _ => throw (.noRule kind.name)

/-- Rules with a common rule for every kind of node that they do not name. -/
def withDefault (rule? : Kind → Option (Rule m α)) (default : Rule m α) : Rules m α where
  rule? := rule?
  otherwise _ := default

/-- What to do at a node. -/
def apply (rules : Rules m α) (e : Expr) (parts : List (m α)) : m α := do
  match e.kind with
  | .error fault => throw fault
  | .ok kind => ((rules.rule? kind).getD (rules.otherwise kind)) e parts

end Rules

variable {m : Type → Type} {α : Type} [Monad m] [MonadExcept Fault m]

mutual

/-- Walks over a tree by rules. -/
def walk (rules : Rules m α) : Expr → m α
  | e@(.program _ statements) => rules.apply e (walks rules statements)
  | e@(.array _ elements) => rules.apply e (walks rules elements)
  | e@(.binary _ _ left right) => rules.apply e [walk rules left, walk rules right]
  | e@(.unary _ _ argument) => rules.apply e [walk rules argument]
  | e@(.call _ _ arguments) => rules.apply e (walks rules arguments)
  | e@(.assign _ _ value) => rules.apply e [walk rules value]
  | e@(.conditional _ condition consequent alternate) =>
    rules.apply e [walk rules condition, walk rules consequent, walk rules alternate]
  | e@(.comprehension _ _ iterable none body) =>
    rules.apply e [walk rules iterable, walk rules body]
  | e@(.comprehension _ _ iterable (some guard) body) =>
    rules.apply e [walk rules iterable, walk rules guard, walk rules body]
  | e@(.index _ object offset) => rules.apply e [walk rules object, walk rules offset]
  | e@(.range _ first last _) => rules.apply e [walk rules first, walk rules last]
  | e => rules.apply e []

/-- The walks over several trees. -/
def walks (rules : Rules m α) : List Expr → List (m α)
  | [] => []
  | e :: es => walk rules e :: walks rules es

end

end Formulary.Expr
