import Formulary.Expr.Measure
import Formulary.Number.Text

/-!
# Printing a tree as formula text

`Expr.render` writes a tree so that reading it back gives the same tree.  Parentheses stand only
where the level or the grouping of an operator demands them.  A statement is put in parentheses when
it could be read as going on the statement before it, and then so is the statement before it.
-/

set_option autoImplicit false

namespace Formulary.Expr

/-- Numbers in formula text: whole ones below `10^16` as integers; an infinity is a decimal beyond
the range of doubles, and no number is a product that is none. -/
def codeStyle : Number.Style where
  nan := "(0 * 1e999)"
  infinity := "1e999"
  negativeInfinity := "-1e999"
  negativeZero := "-0"
  wholeBelow := Number.tenTo 16

/-- A character inside a string literal. -/
def escapeChar (c : Char) : List Char :=
  if c = '\\' then ['\\', '\\']
  else if c = '"' then ['\\', '"']
  else if c = '\n' then ['\\', 'n']
  else if c = '\r' then ['\\', 'r']
  else if c = '\t' then ['\\', 't']
  else [c]

/-- A string as it stands between the quotes of a literal. -/
def escape (s : List Char) : List Char :=
  s.flatMap escapeChar

/-- The level at which the text of a tree binds. -/
def precedence : Expr → Nat
  | .binary _ operator _ _ => operator.precedence
  | .range .. => Precedence.range
  | .assign .. => Precedence.assignment
  | .conditional .. | .comprehension .. | .program .. => Precedence.loosest
  | .unary .. => Precedence.unary
  | .number _ value => if Number.isNegative value then Precedence.unary else Precedence.postfixed
  | .string .. | .boolean .. | .array .. | .identifier .. | .call .. | .index .. | .foreign _ =>
    Precedence.postfixed

/-- Puts a text in parentheses. -/
def parenthesize (text : List Char) : List Char :=
  '(' :: text ++ [')']

/-- Puts a text in parentheses if a condition holds. -/
def parenthesizeIf (condition : Bool) (text : List Char) : List Char :=
  if condition then parenthesize text else text

/-- Whether an operand of a binary operator needs parentheses; `grouped` says that operands of the
operator's own level do. -/
def needsParens (operator : BinaryOp) (operand : Expr) (grouped : Bool) : Bool :=
  decide (operand.precedence < operator.precedence)
    || (operand.precedence == operator.precedence && grouped)

/-- Whether the operand of a unary operator needs parentheses. -/
def isCompound : Expr → Bool
  | .binary .. | .range .. | .assign .. | .conditional .. | .comprehension .. => true
  | _ => false

/-- Whether a text could go on the statement before it. -/
def isContinuation : List Char → Bool
  | c :: _ => c == '-' || c == '(' || c == '['
  | [] => false

/-- Marks the statements that need parentheses: those that could go on the one before, or that stand
before a marked one. -/
def markStatements : List (List Char) → List (Bool × List Char)
  | [] => []
  | line :: lines =>
    match markStatements lines with
    | [] => [(false, line)]
    | (marked, next) :: more =>
      let joined := marked || isContinuation next
      (joined, line) :: (joined, next) :: more

/-- Separates texts. -/
def joinWith (separator : List Char) (texts : List (List Char)) : List Char :=
  separator.intercalate texts

/-- The text of a program with the given statements. -/
def joinStatements (lines : List (List Char)) : List Char :=
  joinWith ['\n'] ((markStatements lines).map fun (marked, line) => parenthesizeIf marked line)

mutual

/-- The formula text of a tree; a foreign item has none. -/
def render : Expr → List Char
  | .program _ statements => joinStatements (renderAll statements)
  | .number _ value => (codeStyle.text value).toList
  | .string _ value => '"' :: escape value.toList ++ ['"']
  | .boolean _ value => if value then "true".toList else "false".toList
  | .array _ elements => '[' :: joinWith [',', ' '] (renderAll elements) ++ [']']
  | .identifier _ name => name.toList
  | .binary _ operator left right =>
    parenthesizeIf (needsParens operator left operator.isRightAssociative) left.render
      ++ ' ' :: operator.symbol.toList ++ ' ' ::
      parenthesizeIf (needsParens operator right !operator.isRightAssociative) right.render
  | .unary _ operator argument =>
    operator.symbol.toList ++ parenthesizeIf argument.isCompound argument.render
  | .call _ name arguments =>
    name.toList ++ '(' :: joinWith [',', ' '] (renderAll arguments) ++ [')']
  | .assign _ name value => name.toList ++ " = ".toList ++ value.render
  | .conditional _ condition consequent alternate =>
    "if ".toList ++ condition.render ++ " then ".toList ++ consequent.render ++ " else ".toList
      ++ alternate.render
  | .comprehension _ binder iterable none body =>
    "for ".toList ++ binder.toList ++ " in ".toList ++ iterable.render ++ " then ".toList
      ++ body.render
  | .comprehension _ binder iterable (some guard) body =>
    "for ".toList ++ binder.toList ++ " in ".toList ++ iterable.render ++ " when ".toList
      ++ guard.render ++ " then ".toList ++ body.render
  | .index _ object offset =>
    parenthesizeIf (decide (object.precedence < Precedence.postfixed)) object.render
      ++ '[' :: offset.render ++ [']']
  | .range _ first last inclusive =>
    parenthesizeIf (decide (first.precedence < Precedence.range)) first.render
      ++ (if inclusive then "..=".toList else "..".toList)
      ++ parenthesizeIf (decide (last.precedence ≤ Precedence.range)) last.render
  | .foreign _ => []

/-- The formula texts of several trees. -/
def renderAll : List Expr → List (List Char)
  | [] => []
  | e :: es => e.render :: renderAll es

end

/-- The formula text of a tree, or why it has none. -/
def code (e : Expr) : Except Fault String :=
  match e.defect? with
  | some fault => .error fault
  | none => .ok (String.ofList e.render)

end Formulary.Expr
