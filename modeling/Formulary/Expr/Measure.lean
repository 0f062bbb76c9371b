import Formulary.Expr.Basic

/-!
# Walking over a tree

All measures of a tree are views of one walk.  The walk keeps a list of the nodes still to visit,
each with its level, takes the first one and puts its children in front of the rest; so it visits a
tree in pre-order and needs no recursion of its own depth.

Main definitions: `Expr.descend` is the walk, `Expr.levels` its result for one tree, and `size`,
`depth`, `references` and `hasEffects` are read off from it.
-/

set_option autoImplicit false

namespace Formulary.Expr

mutual

/-- How many nodes a tree has, counted by recursion; the walk ends because each step uses one up. -/
def weight : Expr → Nat
  | .program _ statements => 1 + weightAll statements
  | .array _ elements => 1 + weightAll elements
  | .binary _ _ left right => 1 + left.weight + right.weight
  | .unary _ _ argument => 1 + argument.weight
  | .call _ _ arguments => 1 + weightAll arguments
  | .assign _ _ value => 1 + value.weight
  | .conditional _ condition consequent alternate =>
    1 + condition.weight + consequent.weight + alternate.weight
  | .comprehension _ _ iterable none body => 1 + iterable.weight + body.weight
  | .comprehension _ _ iterable (some guard) body =>
    1 + iterable.weight + guard.weight + body.weight
  | .index _ object offset => 1 + object.weight + offset.weight
  | .range _ first last _ => 1 + first.weight + last.weight
  | .number .. | .string .. | .boolean .. | .identifier .. | .foreign _ => 1

/-- How many nodes the trees of a list have together. -/
def weightAll : List Expr → Nat
  | [] => 0
  | e :: es => e.weight + weightAll es

end

/-- The weight of two lists of trees, one behind the other, is the sum of their weights. -/
theorem weightAll_append (xs ys : List Expr) :
    weightAll (xs ++ ys) = weightAll xs + weightAll ys := by
  induction xs with
  | nil => simp [weightAll]
  | cons e es ih => simp [weightAll, ih, Nat.add_assoc]

/-- A node counts one more than its parts. -/
theorem weight_eq (e : Expr) : e.weight = 1 + weightAll e.children := by
  cases e with
  | comprehension span binder iterable guard body =>
      cases guard <;> simp [weight, weightAll, children] <;> omega
  | _ => simp [weight, weightAll, children] <;> omega

/-- Visits the pending nodes and everything below them, a node before its parts. -/
def descend (pending : List (Nat × Expr)) : List (Nat × Expr) :=
  match pending with
  | [] => []
  | (level, e) :: rest =>
    (level, e) :: descend (e.children.map (fun child => (level + 1, child)) ++ rest)
termination_by weightAll (pending.map (·.2))
decreasing_by
  simp only [List.map_append, List.map_map, List.map_cons, weightAll_append, weightAll]
  have hchildren : List.map (Prod.snd ∘ fun child => (level + 1, child)) e.children =
      e.children := by
    simp [Function.comp_def]
  rw [hchildren, weight_eq e]
  omega

/-- Every node of a tree with its level, the root being at level one. -/
def levels (e : Expr) : List (Nat × Expr) :=
  descend [(1, e)]

/-- Every node of a tree in pre-order. -/
def nodes (e : Expr) : List Expr :=
  e.levels.map (·.2)

/-- How many nodes a tree has. -/
def size (e : Expr) : Nat :=
  e.levels.length

/-- How many levels a tree has. -/
def depth (e : Expr) : Nat :=
  e.levels.foldl (fun deepest node => max deepest node.1) 0

/-- The name that an identifier reads. -/
def reference? : Expr → Option String
  | .identifier _ name => some name
  | _ => none

/-- The names that a tree reads, in pre-order; the targets of assignments and the variables of loops
are not read. -/
def references (e : Expr) : List String :=
  e.nodes.filterMap reference?

/-- Whether evaluating a node itself calls a function or binds a name. -/
def isEffect : Expr → Bool
  | .call .. | .assign .. => true
  | _ => false

/-- Whether evaluating a tree may call a function or bind a name. -/
def hasEffects (e : Expr) : Bool :=
  e.nodes.any isEffect

/-- Why a walk cannot go past a node. -/
def fault? : Expr → Option Fault
  | .foreign item => some item.fault
  | _ => none

/-- Why a tree cannot be walked over to the end: its first foreign item in pre-order. -/
def defect? (e : Expr) : Option Fault :=
  e.nodes.findSome? fault?

/-- The distinct names that a tree reads, sorted by code point. -/
def identifiers (e : Expr) : List String :=
  (e.references.eraseDups).mergeSort (fun a b => decide (a ≤ b))

end Formulary.Expr
