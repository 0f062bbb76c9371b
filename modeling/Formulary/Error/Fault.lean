import Formulary.Number.Text
import Formulary.Text.Quoted

/-!
# Faults outside the language

Failures that are no error of a formula: quantities that the host's representation of numbers,
lengths or dates cannot hold, and trees that are not made of the language's nodes.
-/

set_option autoImplicit false

namespace Formulary

/-- A failure that a formula cannot report as an error of its own. -/
inductive Fault where
  /-- An integer is too large to be a number. -/
  | integerTooLarge
  /-- A sequence is too long to be counted. -/
  | lengthTooLarge
  /-- A quotient of integers is too large to be a number. -/
  | quotientTooLarge
  /-- An instant has too many seconds to be a date. -/
  | secondsOutOfRange
  /-- An instant's year is too large to be counted. -/
  | yearTooLarge
  /-- An instant's year has no date. -/
  | yearOutOfRange (year : Int)
  /-- Something stands in a tree that is no node: nothing, or a text. -/
  | notANode (item : Option String)
  /-- A node of a tree is of no kind of the language. -/
  | unknownKind (kind : String)
  /-- A walk over a tree has no rule for a kind of node. -/
  | noRule (kind : String)
  /-- A text that should denote a number does not. -/
  | unreadableNumber (text : String)
deriving DecidableEq, Repr

/-- The wording of a fault. -/
def Fault.message : Fault → String
  | .integerTooLarge => "int too large to convert to float"
  | .lengthTooLarge => "Python int too large to convert to C ssize_t"
  | .quotientTooLarge => "integer division result too large for a float"
  | .secondsOutOfRange => "timestamp out of range for platform time_t"
  | .yearTooLarge => "[Errno 75] Value too large for defined data type"
  | .yearOutOfRange year => "year " ++ Number.intText year ++ " is out of range"
  | .notANode none => "Not an AST node: None"
  | .notANode (some text) => "Not an AST node: " ++ Text.quoted text
  | .unknownKind kind => "Unknown node type: " ++ Text.quoted kind
  | .noRule kind => "No handler for node type: " ++ kind
  | .unreadableNumber text => "could not convert string to float: " ++ Text.quoted text

end Formulary
