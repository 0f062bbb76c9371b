import Formulary.Number.Text

/-!
# Causes of errors

Everything that can go wrong with a formula, as data.  A cause says what happened and says nothing
about where; its wording is given by `Cause.message` alone.
-/

set_option autoImplicit false

namespace Formulary

/-- What the scanner cannot read. -/
inductive LexicalFault where
  | loneAmpersand
  | loneBar
  | unexpectedCharacter (c : Char)
  | unterminatedString
  | newlineInString
  | invalidEscape (c : Char)
  | missingExponentDigit
  | secondPoint
  | other (text : String)
deriving DecidableEq, Repr

/-- The wording of a lexical fault. -/
def LexicalFault.message : LexicalFault → String
  | .loneAmpersand => "Unexpected '&'. Did you mean '&&'?"
  | .loneBar => "Unexpected '|'. Did you mean '||'?"
  | .unexpectedCharacter c => "Unexpected character: '" ++ c.toString ++ "'"
  | .unterminatedString => "Unterminated string"
  | .newlineInString => "Unterminated string (newline in string literal)"
  | .invalidEscape c => "Invalid escape sequence: \\" ++ c.toString
  | .missingExponentDigit => "Invalid number: expected digit after exponent"
  | .secondPoint => "Invalid number: unexpected '.'"
  | .other text => text

/-- A token that the grammar demands at some point. -/
inductive Expectation where
  | indexClosing
  | ternaryColon
  | argumentsClosing
  | groupClosing
  | arrayClosing
  | conditionalThen
  | conditionalElse
  | loopVariable
  | loopIn
  | loopThen
deriving DecidableEq, Repr

/-- The wording of a demand that is not met. -/
def Expectation.message : Expectation → String
  | .indexClosing => "Expected ']' after index"
  | .ternaryColon => "Expected ':' in ternary expression"
  | .argumentsClosing => "Expected ')' after function arguments"
  | .groupClosing => "Expected ')' after expression"
  | .arrayClosing => "Expected ']' after array elements"
  | .conditionalThen => "Expected 'then' in if expression"
  | .conditionalElse => "Expected 'else' in if expression"
  | .loopVariable => "Expected identifier after 'for'"
  | .loopIn => "Expected 'in' in for expression"
  | .loopThen => "Expected 'then' in for expression"

/-- What the grammar cannot accept. -/
inductive SyntaxFault where
  | emptyProgram
  | unexpectedEnd
  | unexpectedToken (text : String)
  | invalidTarget
  | missing (expectation : Expectation)
  | other (text : String)
deriving DecidableEq, Repr

/-- The wording of a syntax fault. -/
def SyntaxFault.message : SyntaxFault → String
  | .emptyProgram => "Empty program"
  | .unexpectedEnd => "Unexpected end of input"
  | .unexpectedToken text => "Unexpected token: " ++ text
  | .invalidTarget => "Invalid assignment target"
  | .missing expectation => expectation.message
  | .other text => text

/-- What evaluation cannot do, apart from the faults that have a cause of their own. -/
inductive EvaluationFault where
  | unknownOperator (symbol : String)
  | nonFiniteShift
  | invertedRange (first last : Int)
  | numberOutOfRange
  | unsupportedValue (typeName : String)
  | other (text : String)
deriving DecidableEq, Repr

/-- The wording of an evaluation fault. -/
def EvaluationFault.message : EvaluationFault → String
  | .unknownOperator symbol => "Unknown operator: " ++ symbol
  | .nonFiniteShift => "Cannot shift a timestamp by a non-finite number"
  | .invertedRange first last =>
    "Invalid range: start (" ++ Number.intText first ++ ") must not be greater than end ("
      ++ Number.intText last ++ ")"
  | .numberOutOfRange => "Number out of range"
  | .unsupportedValue typeName => "Unsupported value type: " ++ typeName
  | .other text => text

/-- Why a formula could not be read or evaluated. -/
inductive Cause where
  | general (text : String)
  | lexical (fault : LexicalFault)
  | grammatical (fault : SyntaxFault)
  | evaluation (fault : EvaluationFault)
  | undefinedVariable (name : String)
  | undefinedFunction (name : String) (notCallable : Bool)
  | divisionByZero (operator : String)
  | indexOutOfRange (index length : Int)
  | typeMismatch (expected actual : String) (context : Option String)
  | limitExceeded (name : String) (limit actual : Int)
  | functionFailed (name text : String)
deriving DecidableEq, Repr

/-- The wording of a cause. -/
def Cause.message : Cause → String
  | .general text => text
  | .lexical fault => fault.message
  | .grammatical fault => fault.message
  | .evaluation fault => fault.message
  | .undefinedVariable name => "Undefined variable: " ++ name
  | .undefinedFunction name true => name ++ " is not a function"
  | .undefinedFunction name false => "Undefined function: " ++ name
  | .divisionByZero operator => if operator = "%" then "Modulo by zero" else "Division by zero"
  | .indexOutOfRange index length =>
    "Index " ++ Number.intText index ++ " out of bounds for length " ++ Number.intText length
  | .typeMismatch expected actual context =>
    let lead := match context with
      | none => ""
      | some "" => ""
      | some text => text ++ ": "
    lead ++ "Type error: expected " ++ expected ++ ", got " ++ actual
  | .limitExceeded name limit actual =>
    "Limit exceeded: " ++ name ++ " (limit: " ++ Number.intText limit ++ ", actual: "
      ++ Number.intText actual ++ ")"
  | .functionFailed name text => name ++ ": " ++ text

/-- Whether a cause is one of evaluation, as opposed to scanning, parsing or a limit. -/
def Cause.isEvaluation : Cause → Bool
  | .general _ | .lexical _ | .grammatical _ | .limitExceeded .. => false
  | .evaluation _ | .undefinedVariable _ | .undefinedFunction .. | .divisionByZero _
  | .indexOutOfRange .. | .typeMismatch .. | .functionFailed .. => true

end Formulary
