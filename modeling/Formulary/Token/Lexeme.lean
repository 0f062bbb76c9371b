import Formulary.Error.Cause
import Formulary.Text.Digit
import Formulary.Token.Basic

/-!
# Lexemes

How the text in front of the scanner begins.  `skipTrivia` drops what separates tokens, and `lexeme`
reads one token, or says what is wrong, from text that starts with neither trivia nor its end.  All
offsets in a lexeme are counted from where it starts.
-/

set_option autoImplicit false

namespace Formulary

open Formulary.Text

/-- Whether a character ends a line. -/
def isNewline (c : Char) : Bool :=
  c == '\n' || c == '\r'

/-- Whether a character separates tokens without any meaning of its own. -/
def isSeparator (c : Char) : Bool :=
  c == ' ' || c == '\t' || c == '\n' || c == '\r' || c == ';'

/-- Whether a character can start a name. -/
def isNameStart (c : Char) : Bool :=
  decide ('a' ≤ c ∧ c ≤ 'z') || decide ('A' ≤ c ∧ c ≤ 'Z') || c == '_'

/-- Whether a character can go on a name. -/
def isNamePart (c : Char) : Bool :=
  isNameStart c || isAsciiDigit c

mutual

/-- Drops separators and comments. -/
def skipTrivia : List Char → List Char
  | [] => []
  | c :: rest =>
    if isSeparator c then skipTrivia rest
    else if c = '/' ∧ rest.head? = some '/' then skipComment rest
    else c :: rest

/-- Drops the rest of a comment and the trivia behind it. -/
def skipComment : List Char → List Char
  | [] => []
  | c :: rest => if isNewline c then skipTrivia rest else skipComment rest

end

/-- The beginning of a text: a token, or a fault with the part of the text to blame.  Either way
`length` characters are used up. -/
inductive Lexeme where
  | token (kind : TokenKind) (value : List Char) (length : Nat)
  | fault (fault : LexicalFault) (start stop length : Nat)
deriving DecidableEq, Repr

namespace Lexeme

/-- How many characters a lexeme uses up. -/
def length : Lexeme → Nat
  | .token _ _ length => length
  | .fault _ _ _ length => length

/-- A token whose value is its text. -/
def plain (kind : TokenKind) (text : List Char) : Lexeme :=
  .token kind text text.length

/-- The character that an escape denotes. -/
def unescape? (c : Char) : Option Char :=
  if c = 'n' then some '\n'
  else if c = 'r' then some '\r'
  else if c = 't' then some '\t'
  else if c = '\\' ∨ c = '"' ∨ c = '\'' then some c
  else none

/-- Reads a string up to its closing quote; `used` characters, the opening quote included, are read
already, and `value` holds the string so far, last character first. -/
def stringFrom (quote : Char) (value : List Char) (used : Nat) : List Char → Lexeme
  | [] => .fault .unterminatedString 0 used used
  | c :: rest =>
    if c = quote then .token .string value.reverse (used + 1)
    else if c = '\\' then
      match rest with
      | [] => .fault .unterminatedString 0 (used + 1) (used + 1)
      | e :: after =>
        match unescape? e with
        | some d => stringFrom quote (d :: value) (used + 2) after
        | none => .fault (.invalidEscape e) used (used + 2) (used + 2)
    else if isNewline c then .fault .newlineInString 0 (used + 1) (used + 1)
    else stringFrom quote (c :: value) (used + 1) rest

/-- Whether a text starts with a digit. -/
def startsWithDigit : List Char → Bool
  | c :: _ => isAsciiDigit c
  | [] => false

/-- The digits of a number in front of its exponent: those before a point and, if a digit follows
the point, the point and those behind it. -/
def mantissa (cs : List Char) : List Char :=
  let whole := cs.takeWhile isAsciiDigit
  match cs.dropWhile isAsciiDigit with
  | '.' :: rest =>
    if startsWithDigit rest then whole ++ '.' :: rest.takeWhile isAsciiDigit else whole
  | _ => whole

/-- The mark and sign of an exponent, if the text starts with a mark. -/
def exponentMark : List Char → List Char
  | c :: rest =>
    if c = 'e' ∨ c = 'E' then
      match rest with
      | s :: _ => if s = '+' ∨ s = '-' then [c, s] else [c]
      | [] => [c]
    else []
  | [] => []

/-- Reads a number.  An exponent mark needs a digit, and no second point with a digit may follow. -/
def number (cs : List Char) : Lexeme :=
  let base := mantissa cs
  let mark := exponentMark (cs.drop base.length)
  let exponent := cs.drop (base.length + mark.length)
  let digits := if mark.isEmpty then [] else exponent.takeWhile isAsciiDigit
  let text := base ++ mark ++ digits
  if !mark.isEmpty ∧ digits.isEmpty then .fault .missingExponentDigit 0 text.length text.length
  else match cs.drop text.length with
    | '.' :: rest =>
      if startsWithDigit rest then .fault .secondPoint 0 (text.length + 1) text.length
      else plain .number text
    | _ => plain .number text

/-- Reads a name or a keyword. -/
def word (cs : List Char) : Lexeme :=
  let text := cs.takeWhile isNamePart
  plain (.ofWord (String.ofList text)) text

/-- The tokens of one character that no other token starts with. -/
def symbolKind? (c : Char) : Option TokenKind :=
  match c with
  | '(' => some .leftParen
  | ')' => some .rightParen
  | '[' => some .leftBracket
  | ']' => some .rightBracket
  | ',' => some .comma
  | '+' => some .plus
  | '-' => some .minus
  | '*' => some .star
  | '/' => some .slash
  | '%' => some .percent
  | '^' => some .caret
  | '?' => some .question
  | ':' => some .colon
  | _ => none

/-- A token of one character, or of two if a second one follows. -/
def oneOrTwo (first second : Char) (single double : TokenKind) (rest : List Char) : Lexeme :=
  if rest.head? = some second then plain double [first, second] else plain single [first]

/-- Reads what starts with a point: a number, a range operator, or nothing. -/
def point (rest : List Char) : Lexeme :=
  if startsWithDigit rest then number ('.' :: rest)
  else match rest with
    | '.' :: '=' :: _ => plain .dotDotEqual ['.', '.', '=']
    | '.' :: _ => plain .dotDot ['.', '.']
    | _ => .fault (.unexpectedCharacter '.') 0 1 1

/-- Reads one lexeme from a text with the given first character. -/
def read (c : Char) (rest : List Char) : Lexeme :=
  match symbolKind? c with
  | some kind => plain kind [c]
  | none =>
    if c = '<' then oneOrTwo c '=' .less .lessEqual rest
    else if c = '>' then oneOrTwo c '=' .greater .greaterEqual rest
    else if c = '=' then oneOrTwo c '=' .assign .equal rest
    else if c = '!' then oneOrTwo c '=' .not .notEqual rest
    else if c = '&' then
      if rest.head? = some '&' then plain .and ['&', '&'] else .fault .loneAmpersand 0 1 1
    else if c = '|' then
      if rest.head? = some '|' then plain .or ['|', '|'] else .fault .loneBar 0 1 1
    else if c = '.' then point rest
    else if c = '"' ∨ c = '\'' then stringFrom c [] 1 rest
    else if isAsciiDigit c then number (c :: rest)
    else if isNameStart c then word (c :: rest)
    else .fault (.unexpectedCharacter c) 0 1 1

end Lexeme

end Formulary
