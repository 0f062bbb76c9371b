import Formulary.Expr.Basic
import Formulary.Number.Reading
import Formulary.Value.Basic

/-!
# Building trees

For hosts that build formulas themselves.  Wherever a tree is expected a plain value may stand,
which is taken as a literal.  Operators are checked before operands.
-/

set_option autoImplicit false

namespace Formulary

/-- Why a tree cannot be built. -/
inductive BuildError where
  | unknownBinaryOperator (symbol : String)
  | unknownUnaryOperator (symbol : String)
  | notBuildable (typeName : String)
  | notConvertible (typeName : String)
  | fault (f : Fault)
deriving DecidableEq, Repr

/-- The wording of a failure to build a tree. -/
def BuildError.message : BuildError → String
  | .unknownBinaryOperator symbol => "Unknown binary operator: " ++ symbol
  | .unknownUnaryOperator symbol => "Unknown unary operator: " ++ symbol
  | .notBuildable typeName => "Cannot build an AST node from " ++ typeName
  | .notConvertible typeName => "Cannot build a number from " ++ typeName
  | .fault f => f.message

/-- A part of a tree to be built: a tree or a plain value. -/
inductive Operand where
  | tree (e : Expr)
  | plain (v : Value)

namespace Build

/-- The tree of a part. -/
def toExpr : Operand → Except BuildError Expr
  | .tree e => .ok e
  | .plain (.boolean b) => .ok (.boolean .none b)
  | .plain (.string s) => .ok (.string .none s)
  | .plain v =>
    match v.numeric? with
    | some n => (n.toFloat.mapError .fault).map (.number .none)
    | none => .error (.notBuildable v.hostTypeName)

/-- A program of statements. -/
def program (statements : List Operand) : Except BuildError Expr := do
  return .program .none (← statements.mapM toExpr)

/-- A number literal: a number, the number that a text denotes, or one for true and zero for
false. -/
def number (v : Value) : Except BuildError Expr :=
  match v.view with
  | .boolean b => .ok (.number .none (if b then 1.0 else 0.0))
  | .number n => (n.toFloat.mapError .fault).map (.number .none)
  | .string s =>
    match Number.read? s with
    | some x => .ok (.number .none x)
    | none => .error (.fault (.unreadableNumber s))
  | _ => .error (.notConvertible v.hostTypeName)

/-- Whether a host takes a value for true: what is empty, zero or nothing is false. -/
def hostTruth : Value → Bool
  | .boolean b => b
  | .number x => !(Numeric.double x).isZero
  | .integer n => n != 0
  | .string s => !s.isEmpty
  | .range r => r.length != 0
  | .list xs | .tuple xs => !xs.isEmpty
  | .timestamp _ | .moment _ => true
  | .null => false
  | .object _ => false

/-- A boolean literal. -/
def boolean (v : Value) : Expr :=
  .boolean .none (hostTruth v)

/-- An array of elements. -/
def array (elements : List Operand) : Except BuildError Expr := do
  return .array .none (← elements.mapM toExpr)

/-- A binary operation, by the symbol of its operator. -/
def binary (left : Operand) (symbol : String) (right : Operand) : Except BuildError Expr :=
  match BinaryOp.ofSymbol? symbol with
  | none => .error (.unknownBinaryOperator symbol)
  | some operator => do
    let a ← toExpr left
    let b ← toExpr right
    return .binary .none operator a b

/-- A sum. -/
def add (left right : Operand) : Except BuildError Expr :=
  binary left "+" right

/-- A difference. -/
def subtract (left right : Operand) : Except BuildError Expr :=
  binary left "-" right

/-- A product. -/
def multiply (left right : Operand) : Except BuildError Expr :=
  binary left "*" right

/-- A quotient. -/
def divide (left right : Operand) : Except BuildError Expr :=
  binary left "/" right

/-- A remainder. -/
def modulo (left right : Operand) : Except BuildError Expr :=
  binary left "%" right

/-- A power. -/
def exponentiate (left right : Operand) : Except BuildError Expr :=
  binary left "^" right

/-- A test for equality. -/
def equals (left right : Operand) : Except BuildError Expr :=
  binary left "==" right

/-- A test for inequality. -/
def notEquals (left right : Operand) : Except BuildError Expr :=
  binary left "!=" right

/-- A test whether the left part is less. -/
def lessThan (left right : Operand) : Except BuildError Expr :=
  binary left "<" right

/-- A test whether the left part is greater. -/
def greaterThan (left right : Operand) : Except BuildError Expr :=
  binary left ">" right

/-- A test whether the left part is less or equal. -/
def lessEqual (left right : Operand) : Except BuildError Expr :=
  binary left "<=" right

/-- A test whether the left part is greater or equal. -/
def greaterEqual (left right : Operand) : Except BuildError Expr :=
  binary left ">=" right

/-- A conjunction. -/
def logicalAnd (left right : Operand) : Except BuildError Expr :=
  binary left "&&" right

/-- A disjunction. -/
def logicalOr (left right : Operand) : Except BuildError Expr :=
  binary left "||" right

/-- A unary operation, by the symbol of its operator. -/
def unary (symbol : String) (argument : Operand) : Except BuildError Expr :=
  match UnaryOp.ofSymbol? symbol with
  | none => .error (.unknownUnaryOperator symbol)
  | some operator => do
    let a ← toExpr argument
    return .unary .none operator a

/-- The negative of a part. -/
def negate (argument : Operand) : Except BuildError Expr :=
  unary "-" argument

/-- The negation of a part. -/
def logicalNot (argument : Operand) : Except BuildError Expr :=
  unary "!" argument

/-- A call of a function. -/
def call (name : String) (arguments : List Operand) : Except BuildError Expr := do
  return .call .none name (← arguments.mapM toExpr)

/-- An assignment. -/
def assign (name : String) (value : Operand) : Except BuildError Expr := do
  return .assign .none name (← toExpr value)

/-- A conditional. -/
def conditional (condition consequent alternate : Operand) : Except BuildError Expr := do
  let c ← toExpr condition
  let a ← toExpr consequent
  let b ← toExpr alternate
  return .conditional .none c a b

/-- A comprehension, with or without a guard. -/
def comprehension (binder : String) (iterable : Operand) (guard : Option Operand) (body : Operand) :
    Except BuildError Expr := do
  let i ← toExpr iterable
  let g ← guard.mapM toExpr
  let b ← toExpr body
  return .comprehension .none binder i g b

/-- An index access. -/
def index (object offset : Operand) : Except BuildError Expr := do
  let o ← toExpr object
  let i ← toExpr offset
  return .index .none o i

/-- A range. -/
def range (first last : Operand) (inclusive : Bool) : Except BuildError Expr := do
  let a ← toExpr first
  let b ← toExpr last
  return .range .none a b inclusive

end Build

end Formulary
