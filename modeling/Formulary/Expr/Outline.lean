import Formulary.Expr.Basic
import Formulary.Number.Text

/-!
# The outline of a tree

A tree as indented lines, one for each node and one for each named part, for reading by people.
-/

set_option autoImplicit false

namespace Formulary.Expr

/-- Numbers in an outline: whole ones below `10^16` as integers, and words for the rest. -/
def outlineStyle : Number.Style where
  nan := "NaN"
  infinity := "Infinity"
  negativeInfinity := "-Infinity"
  negativeZero := "-0"
  wholeBelow := Number.tenTo 16

/-- A line at a level of indentation. -/
def indented (level : Nat) (text : String) : String :=
  String.ofList (List.replicate (2 * level) ' ') ++ text

/-- What an outline shows of a foreign item. -/
def foreignLabel : Foreign → String
  | .node kind _ => kind ++ "Node()"
  | .nothing => "None"
  | .text s => s

mutual

/-- The lines of a tree's outline. -/
def outlineLines (level : Nat) : Expr → List String
  | .program _ statements =>
    indented level "Program:" :: match statements with
      | [] => [""]
      | s :: ss => outlineLines (level + 1) s ++ outlineAll (level + 1) ss
  | .string _ value => [indented level ("String: \"" ++ value ++ "\"")]
  | .number _ value => [indented level ("Number: " ++ outlineStyle.text value)]
  | .boolean _ value => [indented level ("Boolean: " ++ if value then "true" else "false")]
  | .array _ [] => [indented level "Array: []"]
  | .array _ (e :: es) =>
    indented level "Array:" :: (outlineLines (level + 1) e ++ outlineAll (level + 1) es)
  | .identifier _ name => [indented level ("Identifier: " ++ name)]
  | .binary _ operator left right =>
    indented level ("BinaryOp: " ++ operator.symbol) ::
      (outlineLines (level + 1) left ++ outlineLines (level + 1) right)
  | .unary _ operator argument =>
    indented level ("UnaryOp: " ++ operator.symbol) :: outlineLines (level + 1) argument
  | .call _ name arguments =>
    indented level ("FunctionCall: " ++ name) :: outlineAll (level + 1) arguments
  | .assign _ name value =>
    indented level ("Assignment: " ++ name) :: outlineLines (level + 1) value
  | .conditional _ condition consequent alternate =>
    [indented level "IfExpression:", indented level "  condition:"]
      ++ outlineLines (level + 2) condition
      ++ indented level "  consequent:" :: outlineLines (level + 2) consequent
      ++ indented level "  alternate:" :: outlineLines (level + 2) alternate
  | .comprehension _ binder iterable none body =>
    [indented level ("ForExpression: " ++ binder), indented level "  iterable:"]
      ++ outlineLines (level + 2) iterable
      ++ indented level "  body:" :: outlineLines (level + 2) body
  | .comprehension _ binder iterable (some guard) body =>
    [indented level ("ForExpression: " ++ binder), indented level "  iterable:"]
      ++ outlineLines (level + 2) iterable
      ++ indented level "  guard:" :: outlineLines (level + 2) guard
      ++ indented level "  body:" :: outlineLines (level + 2) body
  | .index _ object offset =>
    [indented level "IndexAccess:", indented level "  object:"]
      ++ outlineLines (level + 2) object
      ++ indented level "  index:" :: outlineLines (level + 2) offset
  | .range _ first last inclusive =>
    indented level ("RangeExpression: " ++ if inclusive then "..=" else "..") ::
      (outlineLines (level + 1) first ++ outlineLines (level + 1) last)
  | .foreign item => [indented level ("Unknown: " ++ foreignLabel item)]

/-- The lines of the outlines of several trees. -/
def outlineAll (level : Nat) : List Expr → List String
  | [] => []
  | e :: es => outlineLines level e ++ outlineAll level es

end

/-- The outline of a tree. -/
def outline (e : Expr) : String :=
  "\n".intercalate (outlineLines 0 e)

end Formulary.Expr
