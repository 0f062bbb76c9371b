import Formulary.Event
import Formulary.Value.Operator

/-!
# Constant folding

Literal parts of a formula are computed beforehand, from the leaves up, with the operators that
evaluation uses.  An operation on literals of wrong types is left for evaluation to refuse; any
other refusal, such as a division by zero, is one of folding itself.  Of a conditional with a
literal condition only the branch taken is kept, and the other one is not looked at.
-/

set_option autoImplicit false

namespace Formulary

/-- A computation that logs events, latest first, and keeps them on failure. -/
abbrev Simplify := EStateM Failure (List Event)

namespace Simplify

/-- Logs an event. -/
def emit (event : Event) : Simplify Unit :=
  modify (event :: ·)

end Simplify

namespace Expr

/-- The value of a literal. -/
def literal? : Expr → Option Value
  | .number _ value => some (.number value)
  | .string _ value => some (.string value)
  | .boolean _ value => some (.boolean value)
  | _ => none

/-- The literal of a value; what is no number has none. -/
def ofLiteral? (span : Span) : Value → Option Expr
  | .boolean b => some (.boolean span b)
  | .number x => if Number.isNaN x then none else some (.number span x)
  | .string s => some (.string span s)
  | _ => none

/-- What an operation on literals folds to: nothing if it is to be left as it is. -/
def foldResult (span : Span) (result : Except Refusal Value) : Simplify (Option Expr) :=
  match result with
  | .ok v => pure (ofLiteral? span v)
  | .error (.cause (.typeMismatch ..)) => pure none
  | .error r => throw (r.atSite ⟨some span.start, none, some span.stop⟩)

/-- Takes the place of an operation by what it folds to, or leaves it as it is. -/
def replaceBy (folded : Option Expr) (event : Event) (kept : Expr) : Simplify Expr :=
  match folded with
  | some e => do
    Simplify.emit event
    pure e
  | none => pure kept

/-- Folds a binary operation whose operands are folded. -/
def foldBinary (span : Span) (operator : BinaryOp) (left right : Expr) : Simplify Expr := do
  let folded ← match left.literal?, right.literal? with
    | some a, some b => foldResult span (Value.applyBinary .standard operator a b)
    | _, _ => pure none
  replaceBy folded (.constantFolded .binary (some operator.symbol))
    (.binary span operator left right)

/-- Folds a unary operation whose operand is folded. -/
def foldUnary (span : Span) (operator : UnaryOp) (argument : Expr) : Simplify Expr := do
  let folded ← match argument with
    | .number _ x => foldResult span (Value.applyUnary operator (.number x))
    | .boolean _ b => foldResult span (Value.applyUnary operator (.boolean b))
    | _ => pure none
  replaceBy folded (.constantFolded .unary (some operator.symbol)) (.unary span operator argument)

/-- The element of a literal string, or of an array of literals, at a literal index; nothing if
there is none. -/
def literalElement? (span : Span) : Expr → Expr → Option Expr
  | .string _ s, .number _ x =>
    match Value.element (.string s) (.number x) with
    | .ok (.string c) => some (.string span c)
    | _ => none
  | .array _ elements, .number _ x =>
    if elements.all isLiteral then
      match Value.demandWhole (.number x) Value.indexContext with
      | .ok requested =>
        match Value.locate requested elements.length with
        | .ok position => elements[position]?
        | .error _ => none
      | .error _ => none
    else none
  | _, _ => none

/-- Folds an index access whose parts are folded. -/
def foldIndex (span : Span) (object offset : Expr) : Simplify Expr :=
  replaceBy (literalElement? span object offset) (.constantFolded .index none)
    (.index span object offset)

/-- The truth of a literal condition. -/
def literalTruth? : Expr → Option Bool
  | .boolean _ b => some b
  | .number _ x =>
    match Value.truth (.number x) with
    | .ok b => some b
    | .error _ => none
  | _ => none

mutual

/-- Folds the constants of a tree. -/
def fold : Expr → Simplify Expr
  | .program span statements => do
    let folded ← foldAll statements
    pure (.program span folded)
  | .array span elements => do
    let folded ← foldAll elements
    pure (.array span folded)
  | .binary span operator left right => do
    let a ← fold left
    let b ← fold right
    foldBinary span operator a b
  | .unary span operator argument => do
    let a ← fold argument
    foldUnary span operator a
  | .call span name arguments => do
    let folded ← foldAll arguments
    pure (.call span name folded)
  | .assign span name value => do
    let folded ← fold value
    pure (.assign span name folded)
  | .conditional span condition consequent alternate => do
    let c ← fold condition
    match literalTruth? c with
    | some true => do
      Simplify.emit (.constantFolded .conditional none)
      fold consequent
    | some false => do
      Simplify.emit (.constantFolded .conditional none)
      fold alternate
    | none => do
      let a ← fold consequent
      let b ← fold alternate
      pure (.conditional span c a b)
  | .comprehension span binder iterable none body => do
    let i ← fold iterable
    let b ← fold body
    pure (.comprehension span binder i none b)
  | .comprehension span binder iterable (some guard) body => do
    let i ← fold iterable
    let g ← fold guard
    let b ← fold body
    pure (.comprehension span binder i (some g) b)
  | .index span object offset => do
    let a ← fold object
    let b ← fold offset
    foldIndex span a b
  | .range span first last inclusive => do
    let a ← fold first
    let b ← fold last
    pure (.range span a b inclusive)
  | .number span value => pure (.number span value)
  | .string span value => pure (.string span value)
  | .boolean span value => pure (.boolean span value)
  | .identifier span name => pure (.identifier span name)
  | .foreign item => throw (.fault item.fault)

/-- Folds the constants of several trees in order. -/
def foldAll : List Expr → Simplify (List Expr)
  | [] => pure []
  | e :: es => do
    let folded ← fold e
    let rest ← foldAll es
    pure (folded :: rest)

end

end Expr

end Formulary
