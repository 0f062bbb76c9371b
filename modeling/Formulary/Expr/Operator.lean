/-!
# Operators

The operators of the language, their symbols and how tightly they bind.  A tree that a host builds
itself may carry a symbol that the language does not have; such an operator binds at no level and
fails when it is applied.
-/

set_option autoImplicit false

namespace Formulary

/-! The levels at which constructs bind, loosest first. -/

namespace Precedence

/-- The level of constructs that bind loosest of all. -/
def loosest : Nat := 0

/-- The level of `name = value`. -/
def assignment : Nat := 1

/-- The level of `condition ? a : b`. -/
def ternary : Nat := 2

/-- The level of ranges. -/
def range : Nat := 6

/-- The level of the operators in front of their operand. -/
def unary : Nat := 9

/-- The level of index access and of everything that stands by itself. -/
def postfixed : Nat := 11

end Precedence

/-- An operator between two operands. -/
inductive BinaryOp where
  | add
  | subtract
  | multiply
  | divide
  | modulo
  | power
  | equal
  | notEqual
  | less
  | greater
  | lessEqual
  | greaterEqual
  | and
  | or
  | other (symbol : String)
deriving DecidableEq, Repr

namespace BinaryOp

/-- The operators of the language. -/
def all : List BinaryOp :=
  [.add, .subtract, .multiply, .divide, .modulo, .power, .equal, .notEqual, .less, .greater,
    .lessEqual, .greaterEqual, .and, .or]

/-- How an operator is written. -/
def symbol : BinaryOp → String
  | .add => "+"
  | .subtract => "-"
  | .multiply => "*"
  | .divide => "/"
  | .modulo => "%"
  | .power => "^"
  | .equal => "=="
  | .notEqual => "!="
  | .less => "<"
  | .greater => ">"
  | .lessEqual => "<="
  | .greaterEqual => ">="
  | .and => "&&"
  | .or => "||"
  | .other symbol => symbol

/-- The operator written with a symbol of the language. -/
def ofSymbol? (symbol : String) : Option BinaryOp :=
  all.find? (·.symbol == symbol)

/-- The operator written with any symbol. -/
def ofSymbol (symbol : String) : BinaryOp :=
  (ofSymbol? symbol).getD (.other symbol)

/-- The level at which an operator binds. -/
def precedence : BinaryOp → Nat
  | .or => 3
  | .and => 4
  | .equal | .notEqual | .less | .greater | .lessEqual | .greaterEqual => 5
  | .add | .subtract => 7
  | .multiply | .divide | .modulo => 8
  | .power => 10
  | .other _ => Precedence.loosest

/-- Whether a chain of the operator groups from the right; only powers do. -/
def isRightAssociative : BinaryOp → Bool
  | .power => true
  | _ => false

end BinaryOp

/-- An operator in front of its operand. -/
inductive UnaryOp where
  | negate
  | not
  | other (symbol : String)
deriving DecidableEq, Repr

namespace UnaryOp

/-- How an operator is written. -/
def symbol : UnaryOp → String
  | .negate => "-"
  | .not => "!"
  | .other symbol => symbol

/-- The operator written with a symbol of the language. -/
def ofSymbol? (symbol : String) : Option UnaryOp :=
  [negate, not].find? (·.symbol == symbol)

/-- The operator written with any symbol. -/
def ofSymbol (symbol : String) : UnaryOp :=
  (ofSymbol? symbol).getD (.other symbol)

end UnaryOp

end Formulary
