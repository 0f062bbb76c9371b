import Formulary.Expr.Measure
import Formulary.Expr.Names
import Formulary.Simplification.Folding
import Formulary.Simplification.Substitution

/-!
# Simplifying a formula

Three steps: constants are folded; then, if the host names the variables that it may supply,
literals assigned once are put in the place of their names in later statements; then assignments
that nothing reads afterwards are dropped.  The last statement is always kept.
-/

set_option autoImplicit false

namespace Formulary.Expr

/-- How often a name is assigned in several trees, at any depth. -/
def assignmentCount (statements : List Expr) (name : String) : Nat :=
  (statements.flatMap fun e => e.nodes.filterMap target?).count name

/-- The name that a comprehension binds. -/
def binder? : Expr → Option String
  | .comprehension _ binder _ _ _ => some binder
  | _ => none

/-- The names that comprehensions bind in several trees, at any depth. -/
def binders (statements : List Expr) : List String :=
  statements.flatMap fun e => e.nodes.filterMap binder?

/-- The name and literal of a statement that may be propagated. -/
def propagatable? (allowed : String → Bool) : Expr → Option (String × Expr)
  | .assign _ name value => if value.isLiteral && allowed name then some (name, value) else none
  | _ => none

/-- Puts a literal in the place of its name in several statements, and folds each of them. -/
def propagateInto (name : String) (literal : Expr) : List Expr → Simplify (List Expr)
  | [] => pure []
  | e :: es => do
    let folded ← fold (substitute name literal e)
    let rest ← propagateInto name literal es
    pure (folded :: rest)

/-- Propagates literals from each statement into the later ones; there are `count` statements.  The
literal of a statement is put into the statements behind it only, and which names are allowed is
fixed beforehand.  So a statement that has been passed stays as it is: if it was no candidate it
becomes none later, and if it was one its literal has been propagated, as no other statement assigns
its name.  That is why one pass from left to right finds all candidates, and in the order in which a
search that begins anew after each of them would find them. -/
def propagateFrom (allowed : String → Bool) : Nat → List Expr → Simplify (List Expr)
  | 0, statements => pure statements
  | _ + 1, [] => pure []
  | count + 1, e :: es => do
    let later ← match propagatable? allowed e with
      | some (name, literal) => do
        Simplify.emit (.constantPropagated name)
        propagateInto name literal es
      | none => pure es
    let rest ← propagateFrom allowed count later
    pure (e :: rest)

/-- Propagates the literals of names that are assigned once, that no comprehension binds, and that
the host does not supply. -/
def propagate (external : List String) (statements : List Expr) : Simplify (List Expr) :=
  let bound := binders statements
  let allowed (name : String) : Bool :=
    assignmentCount statements name == 1 && !external.contains name && !bound.contains name
  propagateFrom allowed statements.length statements

/-- The name of an assignment that can be dropped if none of the given names is its own. -/
def dead? (live : List String) : Expr → Option String
  | .assign _ name value => if !live.contains name && !value.hasEffects then some name else none
  | _ => none

/-- Drops dead assignments, from the last statement but one backwards.  The names that the kept
statements read come along. -/
def dropDead : List Expr → Simplify (List Expr × List String)
  | [] => pure ([], [])
  | [last] => pure ([last], last.references)
  | e :: es => do
    let (kept, live) ← dropDead es
    match dead? live e with
    | some name => do
      Simplify.emit (.deadAssignmentEliminated name)
      pure (kept, live)
    | none => pure (e :: kept, e.references ++ live)

/-- A program of one statement is that statement. -/
def ofStatements (span : Span) : List Expr → Expr
  | [single] => single
  | statements => .program span statements

/-- Simplifies a tree.  Literals are propagated only if the names that the host may supply are
given. -/
def optimize (e : Expr) (external : Option (List String)) : Simplify Expr := do
  let folded ← fold e
  match folded with
  | .program span statements => do
    let propagated ← match external with
      | some names => propagate names statements
      | none => pure statements
    let (kept, _) ← dropDead propagated
    pure (ofStatements span kept)
  | other => pure other

/-- Runs a simplification and returns what it gives and the events it logs, in order. -/
def simplified (run : Simplify Expr) : Except Failure Expr × List Event :=
  match run [] with
  | .ok e events => (.ok e, events.reverse)
  | .error failure events => (.error failure, events.reverse)

end Formulary.Expr
