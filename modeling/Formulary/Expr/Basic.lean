import Formulary.Error.Fault
import Formulary.Expr.Operator

/-!
# Expressions

The tree of a formula.  Every node carries the span of source text that stands for it in messages; a
node that no text stands for has the span `Span.none`.  A tree that a host builds itself may hold
foreign items, which belong to no construct of the language; every walk that meets one fails.
-/

set_option autoImplicit false

namespace Formulary

/-- A part of a source text by its offsets, counted in characters. -/
structure Span where
  start : Int := -1
  stop : Int := -1
deriving DecidableEq, Repr

/-- The span of a node that no source text stands for. -/
def Span.none : Span := {}

/-- The span that stands for no place is the default one. -/
instance : Inhabited Span := ⟨.none⟩

/-- Something in a tree that is no construct of the language: a node of a foreign kind, or no node
at all. -/
inductive Foreign where
  | node (kind : String) (span : Span)
  | nothing
  | text (s : String)
deriving DecidableEq, Repr

/-- A formula. -/
inductive Expr where
  | program (span : Span) (statements : List Expr)
  | number (span : Span) (value : Float)
  | string (span : Span) (value : String)
  | boolean (span : Span) (value : Bool)
  | array (span : Span) (elements : List Expr)
  | identifier (span : Span) (name : String)
  | binary (span : Span) (operator : BinaryOp) (left right : Expr)
  | unary (span : Span) (operator : UnaryOp) (argument : Expr)
  | call (span : Span) (name : String) (arguments : List Expr)
  | assign (span : Span) (name : String) (value : Expr)
  | conditional (span : Span) (condition consequent alternate : Expr)
  | comprehension (span : Span) (binder : String) (iterable : Expr) (guard : Option Expr)
      (body : Expr)
  | index (span : Span) (object offset : Expr)
  | range (span : Span) (first last : Expr) (inclusive : Bool)
  | foreign (item : Foreign)
deriving Inhabited

/-- The kinds of nodes. -/
inductive Kind where
  | program
  | number
  | string
  | boolean
  | array
  | identifier
  | binary
  | unary
  | call
  | assign
  | conditional
  | comprehension
  | index
  | range
deriving DecidableEq, Repr

namespace Kind

/-- Every kind of node. -/
def all : List Kind :=
  [.program, .number, .string, .boolean, .array, .identifier, .binary, .unary, .call, .assign,
    .conditional, .comprehension, .index, .range]

/-- The name of a kind in messages and events. -/
def name : Kind → String
  | .program => "Program"
  | .number => "NumberLiteral"
  | .string => "StringLiteral"
  | .boolean => "BooleanLiteral"
  | .array => "ArrayLiteral"
  | .identifier => "Identifier"
  | .binary => "BinaryOp"
  | .unary => "UnaryOp"
  | .call => "FunctionCall"
  | .assign => "Assignment"
  | .conditional => "IfExpression"
  | .comprehension => "ForExpression"
  | .index => "IndexAccess"
  | .range => "RangeExpression"

end Kind

/-- Why a foreign item cannot be walked over. -/
def Foreign.fault : Foreign → Fault
  | .node kind _ => .unknownKind kind
  | .nothing => .notANode none
  | .text s => .notANode (some s)

namespace Expr

/-- The span of a node; what is no node has none. -/
def span : Expr → Span
  | .program span _ | .number span _ | .string span _ | .boolean span _ | .array span _
  | .identifier span _ | .binary span .. | .unary span .. | .call span .. | .assign span ..
  | .conditional span .. | .comprehension span .. | .index span .. | .range span .. => span
  | .foreign (.node _ span) => span
  | .foreign _ => .none

/-- The kind of a node, or why a foreign item has none. -/
def kind : Expr → Except Fault Kind
  | .program .. => .ok .program
  | .number .. => .ok .number
  | .string .. => .ok .string
  | .boolean .. => .ok .boolean
  | .array .. => .ok .array
  | .identifier .. => .ok .identifier
  | .binary .. => .ok .binary
  | .unary .. => .ok .unary
  | .call .. => .ok .call
  | .assign .. => .ok .assign
  | .conditional .. => .ok .conditional
  | .comprehension .. => .ok .comprehension
  | .index .. => .ok .index
  | .range .. => .ok .range
  | .foreign item => .error item.fault

/-- The parts of a node in the order of their evaluation. -/
def children : Expr → List Expr
  | .program _ statements => statements
  | .array _ elements => elements
  | .binary _ _ left right => [left, right]
  | .unary _ _ argument => [argument]
  | .call _ _ arguments => arguments
  | .assign _ _ value => [value]
  | .conditional _ condition consequent alternate => [condition, consequent, alternate]
  | .comprehension _ _ iterable guard body => iterable :: guard.toList ++ [body]
  | .index _ object offset => [object, offset]
  | .range _ first last _ => [first, last]
  | .number .. | .string .. | .boolean .. | .identifier .. | .foreign _ => []

/-- Whether a node is a number, string or boolean literal. -/
def isLiteral : Expr → Bool
  | .number .. | .string .. | .boolean .. => true
  | _ => false

end Expr

end Formulary
