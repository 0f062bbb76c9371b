import Formulary.Expr.Basic

/-!
# Substitution

Putting an expression in the place of a name wherever the name is read.  Inside a comprehension that
binds the name itself it means something else, and stays.
-/

set_option autoImplicit false

namespace Formulary.Expr

mutual

/-- Puts an expression in the place of a name. -/
def substitute (name : String) (replacement : Expr) : Expr → Expr
  | .identifier span other => if other = name then replacement else .identifier span other
  | .program span statements => .program span (substituteAll name replacement statements)
  | .array span elements => .array span (substituteAll name replacement elements)
  | .binary span operator left right =>
    .binary span operator (substitute name replacement left) (substitute name replacement right)
  | .unary span operator argument => .unary span operator (substitute name replacement argument)
  | .call span f arguments => .call span f (substituteAll name replacement arguments)
  | .assign span target value => .assign span target (substitute name replacement value)
  | .conditional span condition consequent alternate =>
    .conditional span (substitute name replacement condition)
      (substitute name replacement consequent) (substitute name replacement alternate)
  | .comprehension span binder iterable none body =>
    if binder = name then
      .comprehension span binder (substitute name replacement iterable) none body
    else
      .comprehension span binder (substitute name replacement iterable) none
        (substitute name replacement body)
  | .comprehension span binder iterable (some guard) body =>
    if binder = name then
      .comprehension span binder (substitute name replacement iterable) (some guard) body
    else
      .comprehension span binder (substitute name replacement iterable)
        (some (substitute name replacement guard)) (substitute name replacement body)
  | .index span object offset =>
    .index span (substitute name replacement object) (substitute name replacement offset)
  | .range span first last inclusive =>
    .range span (substitute name replacement first) (substitute name replacement last) inclusive
  | .number span value => .number span value
  | .string span value => .string span value
  | .boolean span value => .boolean span value
  | .foreign item => .foreign item

/-- Puts an expression in the place of a name in several trees. -/
def substituteAll (name : String) (replacement : Expr) : List Expr → List Expr
  | [] => []
  | e :: es => substitute name replacement e :: substituteAll name replacement es

end

mutual

/-- The first foreign item that substituting for a name comes across. -/
def substitutionDefect? (name : String) : Expr → Option Fault
  | .program _ statements => substitutionDefects? name statements
  | .array _ elements => substitutionDefects? name elements
  | .binary _ _ left right =>
    (substitutionDefect? name left).orElse fun _ => substitutionDefect? name right
  | .unary _ _ argument => substitutionDefect? name argument
  | .call _ _ arguments => substitutionDefects? name arguments
  | .assign _ _ value => substitutionDefect? name value
  | .conditional _ condition consequent alternate =>
    (substitutionDefect? name condition).orElse fun _ =>
      (substitutionDefect? name consequent).orElse fun _ => substitutionDefect? name alternate
  | .comprehension _ binder iterable none body =>
    (substitutionDefect? name iterable).orElse fun _ =>
      if binder = name then none else substitutionDefect? name body
  | .comprehension _ binder iterable (some guard) body =>
    (substitutionDefect? name iterable).orElse fun _ =>
      if binder = name then none
      else (substitutionDefect? name guard).orElse fun _ => substitutionDefect? name body
  | .index _ object offset =>
    (substitutionDefect? name object).orElse fun _ => substitutionDefect? name offset
  | .range _ first last _ =>
    (substitutionDefect? name first).orElse fun _ => substitutionDefect? name last
  | .number .. | .string .. | .boolean .. | .identifier .. => none
  | .foreign item => some item.fault

/-- The first foreign item that substituting in several trees comes across. -/
def substitutionDefects? (name : String) : List Expr → Option Fault
  | [] => none
  | e :: es => (substitutionDefect? name e).orElse fun _ => substitutionDefects? name es

end

/-- Puts an expression in the place of a name, or says why the tree cannot be walked over. -/
def substituted (e : Expr) (name : String) (replacement : Expr) : Except Fault Expr :=
  match substitutionDefect? name e with
  | some fault => .error fault
  | none => .ok (substitute name replacement e)

end Formulary.Expr
