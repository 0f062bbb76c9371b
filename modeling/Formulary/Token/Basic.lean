import Formulary.Expr.Basic

/-!
# Tokens

The units that formula text is made of.  A token has a kind, a value and the span of its text.  The
value is the text itself, except that a string token's value is the string it denotes.
-/

set_option autoImplicit false

namespace Formulary

/-- The kinds of tokens. -/
inductive TokenKind where
  | string
  | number
  | trueWord
  | falseWord
  | identifier
  | plus
  | minus
  | star
  | slash
  | percent
  | caret
  | less
  | lessEqual
  | greater
  | greaterEqual
  | equal
  | notEqual
  | and
  | or
  | not
  | dotDot
  | dotDotEqual
  | leftParen
  | rightParen
  | leftBracket
  | rightBracket
  | comma
  | question
  | colon
  | assign
  | if
  | then
  | else
  | for
  | in
  | when
  | eof
deriving DecidableEq, Repr

namespace TokenKind

/-- Every kind of token. -/
def all : List TokenKind :=
  [.string, .number, .trueWord, .falseWord, .identifier, .plus, .minus, .star, .slash,
    .percent, .caret,
    .less, .lessEqual, .greater, .greaterEqual, .equal, .notEqual, .and, .or, .not, .dotDot,
    .dotDotEqual, .leftParen, .rightParen, .leftBracket, .rightBracket, .comma, .question, .colon,
    .assign, .if, .then, .else, .for, .in, .when, .eof]

/-- The name of a kind in messages. -/
def name : TokenKind → String
  | .string => "STRING"
  | .number => "NUMBER"
  | .trueWord => "TRUE"
  | .falseWord => "FALSE"
  | .identifier => "IDENTIFIER"
  | .plus => "PLUS"
  | .minus => "MINUS"
  | .star => "STAR"
  | .slash => "SLASH"
  | .percent => "PERCENT"
  | .caret => "CARET"
  | .less => "LT"
  | .lessEqual => "LE"
  | .greater => "GT"
  | .greaterEqual => "GE"
  | .equal => "EQ"
  | .notEqual => "NE"
  | .and => "AND"
  | .or => "OR"
  | .not => "NOT"
  | .dotDot => "DOT_DOT"
  | .dotDotEqual => "DOT_DOT_EQ"
  | .leftParen => "LPAREN"
  | .rightParen => "RPAREN"
  | .leftBracket => "LBRACKET"
  | .rightBracket => "RBRACKET"
  | .comma => "COMMA"
  | .question => "QUESTION"
  | .colon => "COLON"
  | .assign => "ASSIGN"
  | .if => "IF"
  | .then => "THEN"
  | .else => "ELSE"
  | .for => "FOR"
  | .in => "IN"
  | .when => "WHEN"
  | .eof => "EOF"

/-- The kind of a name. -/
def ofName? (name : String) : Option TokenKind :=
  all.find? (·.name == name)

/-- The words that are no identifiers, with their kinds. -/
def keywords : List (String × TokenKind) :=
  [("true", .trueWord), ("false", .falseWord), ("if", .if), ("then", .then), ("else", .else),
    ("for", .for), ("in", .in), ("when", .when)]

/-- The kind of a word: a keyword or an identifier. -/
def ofWord (word : String) : TokenKind :=
  (keywords.lookup word).getD .identifier

end TokenKind

/-- A token. -/
structure Token where
  kind : TokenKind
  value : String
  span : Span
deriving DecidableEq, Repr

end Formulary
