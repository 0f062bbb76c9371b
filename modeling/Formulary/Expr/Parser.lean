import Formulary.Expr.Measure
import Formulary.Number.Reading
import Formulary.Text.Pattern
import Formulary.Token.Scanner

/-!
# Reading tokens as a tree

A formula is an operand followed by extensions, each of which takes what stands in front of it as
its left part.  An expression of a given minimum takes up only extensions that bind at least as
tightly.

The parser is a ladder of functions on a stream of tokens.  Each of them is given `sub`, the parser
for expressions one level deeper; the ladder is closed by `expression`, which recurs on the number
of levels that may still be opened.  Loops over the stream are bounded by its length, which every
round shortens.

Main definitions: `operand` and `extend` read one construct, `climb` reads a chain of extensions,
`expression` reads one expression, and `parseTokens` and `parse` read whole programs.
-/

set_option autoImplicit false

namespace Formulary

/-- What a token can do behind an expression. -/
inductive Extension where
  | index
  | assign
  | ternary
  | range (inclusive : Bool)
  | binary (operator : BinaryOp)
deriving DecidableEq, Repr

/-- How tightly an extension binds. -/
def Extension.precedence : Extension → Nat
  | .index => Precedence.postfixed
  | .assign => Precedence.assignment
  | .ternary => Precedence.ternary
  | .range _ => Precedence.range
  | .binary operator => operator.precedence

/-- The extension that a kind of token starts, if any. -/
def TokenKind.extension? : TokenKind → Option Extension
  | .leftBracket => some .index
  | .assign => some .assign
  | .question => some .ternary
  | .dotDot => some (.range false)
  | .dotDotEqual => some (.range true)
  | .plus => some (.binary .add)
  | .minus => some (.binary .subtract)
  | .star => some (.binary .multiply)
  | .slash => some (.binary .divide)
  | .percent => some (.binary .modulo)
  | .caret => some (.binary .power)
  | .equal => some (.binary .equal)
  | .notEqual => some (.binary .notEqual)
  | .less => some (.binary .less)
  | .greater => some (.binary .greater)
  | .lessEqual => some (.binary .lessEqual)
  | .greaterEqual => some (.binary .greaterEqual)
  | .and => some (.binary .and)
  | .or => some (.binary .or)
  | _ => none

namespace Parser

/-- What stays the same while a source is parsed: its text, its limits and its end token. -/
structure Input where
  source : String
  limits : Limits
  eof : Token

/-- The tokens still to read, the end token left out, and where the last one read ended. -/
structure Stream where
  rest : List Token
  lastStop : Int

/-- A computation that reads from a stream. -/
abbrev Reader := StateT Stream (Except Failure)

/-- The site of a token. -/
def Input.siteOf (input : Input) (token : Token) : Site :=
  ⟨some token.span.start, some input.source, some token.span.stop⟩

/-- Fails with a syntax fault at a token. -/
def reject {α : Type} (input : Input) (fault : SyntaxFault) (token : Token) : Reader α :=
  throw (.error ⟨.grammatical fault, input.siteOf token⟩)

/-- Fails unless an amount is within a limit. -/
def demand (limits : Limits) (kind : LimitKind) (amount : Nat) : Reader Unit :=
  match limits.check kind amount with
  | .ok () => pure ()
  | .error cause => throw (.error ⟨cause, .unknown⟩)

/-- The next token, which may be the end token. -/
def peek (input : Input) : Reader Token := do
  match (← get).rest with
  | [] => pure input.eof
  | token :: _ => pure token

/-- Moves past the next token; the end token is never passed. -/
def advance : Reader Unit :=
  modify fun stream => match stream.rest with
    | [] => stream
    | token :: rest => ⟨rest, token.span.stop⟩

/-- Moves past the next token if it is of the given kind, and says whether it was. -/
def skipIf (kind : TokenKind) : Reader Bool := do
  match (← get).rest with
  | token :: _ => if token.kind = kind then do advance; pure true else pure false
  | [] => pure false

/-- Moves past a token that the grammar demands, and returns it. -/
def consume (input : Input) (kind : TokenKind) (expectation : Expectation) : Reader Token := do
  let token ← peek input
  if token.kind = kind then do
    advance
    pure token
  else reject input (.missing expectation) token

/-- The text that stands for a token in a message: its part of the source, or the name of its kind
if that is empty. -/
def tokenText (source : String) (token : Token) : String :=
  match Text.cut source.toList token.span.start (some token.span.stop) with
  | [] => token.kind.name
  | text => String.ofList text

/-- Reads further elements of a list, each after a comma; at most `count` tokens are left. -/
def moreElements (sub : Nat → Reader Expr) : Nat → Reader (List Expr)
  | 0 => pure []
  | count + 1 => do
    if ← skipIf .comma then
      let element ← sub Precedence.loosest
      let elements ← moreElements sub count
      pure (element :: elements)
    else pure []

/-- Reads the elements of a list and the token that closes it. -/
def elements (input : Input) (sub : Nat → Reader Expr) (closing : TokenKind)
    (expectation : Expectation) : Reader (List Expr) := do
  let token ← peek input
  if token.kind = closing then do
    advance
    pure []
  else
    let first ← sub Precedence.loosest
    let more ← moreElements sub (← get).rest.length
    let _ ← consume input closing expectation
    pure (first :: more)

/-- Reads a conditional behind its `if`. -/
def conditional (input : Input) (sub : Nat → Reader Expr) (keyword : Token) : Reader Expr := do
  let condition ← sub Precedence.loosest
  let _ ← consume input .then .conditionalThen
  let consequent ← sub Precedence.loosest
  let _ ← consume input .else .conditionalElse
  let alternate ← sub Precedence.loosest
  pure (.conditional ⟨keyword.span.start, (← get).lastStop⟩ condition consequent alternate)

/-- Reads the guard of a comprehension, if there is one. -/
def guard? (sub : Nat → Reader Expr) : Reader (Option Expr) := do
  if ← skipIf .when then
    let guard ← sub Precedence.loosest
    pure (some guard)
  else pure none

/-- Reads a comprehension behind its `for`. -/
def comprehension (input : Input) (sub : Nat → Reader Expr) (keyword : Token) : Reader Expr := do
  let binder ← consume input .identifier .loopVariable
  let _ ← consume input .in .loopIn
  let iterable ← sub Precedence.loosest
  let guard ← guard? sub
  let _ ← consume input .then .loopThen
  let body ← sub Precedence.loosest
  pure (.comprehension ⟨keyword.span.start, (← get).lastStop⟩ binder.value iterable guard body)

/-- Reads a name, or a call if an argument list follows it. -/
def nameOrCall (input : Input) (sub : Nat → Reader Expr) (name : Token) : Reader Expr := do
  if ← skipIf .leftParen then
    let arguments ← elements input sub .rightParen .argumentsClosing
    demand input.limits .argumentCount arguments.length
    pure (.call ⟨name.span.start, (← get).lastStop⟩ name.value arguments)
  else pure (.identifier name.span name.value)

/-- Reads an operand: what can stand at the start of an expression. -/
def operand (input : Input) (sub : Nat → Reader Expr) : Reader Expr := do
  let token ← peek input
  match token.kind with
  | .trueWord => do advance; pure (.boolean token.span true)
  | .falseWord => do advance; pure (.boolean token.span false)
  | .string => do advance; pure (.string token.span token.value)
  | .number => do
    advance
    match Number.read? token.value with
    | some value => pure (.number token.span value)
    | none => throw (.fault (.unreadableNumber token.value))
  | .identifier => do advance; nameOrCall input sub token
  | .leftParen => do
    advance
    let inner ← sub Precedence.loosest
    let _ ← consume input .rightParen .groupClosing
    pure inner
  | .leftBracket => do
    advance
    let items ← elements input sub .rightBracket .arrayClosing
    demand input.limits .arrayLength items.length
    pure (.array ⟨token.span.start, (← get).lastStop⟩ items)
  | .minus => do
    advance
    let argument ← sub Precedence.unary
    pure (.unary token.span .negate argument)
  | .not => do
    advance
    let argument ← sub Precedence.unary
    pure (.unary token.span .not argument)
  | .if => do advance; conditional input sub token
  | .for => do advance; comprehension input sub token
  | .eof => reject input .unexpectedEnd token
  | _ => reject input (.unexpectedToken (tokenText input.source token)) token

/-- Reads an extension of `left` behind the token that starts it. -/
def extend (input : Input) (sub : Nat → Reader Expr) (left : Expr) (token : Token) :
    Extension → Reader Expr
  | .index => do
    let offset ← sub Precedence.loosest
    let closing ← consume input .rightBracket .indexClosing
    pure (.index ⟨token.span.start, closing.span.stop⟩ left offset)
  | .assign =>
    match left with
    | .identifier span name => do
      let value ← sub Precedence.assignment
      pure (.assign ⟨span.start, (← get).lastStop⟩ name value)
    | _ =>
      let start := if 0 ≤ left.span.start then left.span.start else token.span.start
      throw (.error ⟨.grammatical .invalidTarget,
        ⟨some start, some input.source, some token.span.stop⟩⟩)
  | .ternary => do
    let consequent ← sub Precedence.loosest
    let _ ← consume input .colon .ternaryColon
    let alternate ← sub Precedence.ternary
    pure (.conditional ⟨token.span.start, (← get).lastStop⟩ left consequent alternate)
  | .range inclusive => do
    let last ← sub (Precedence.range + 1)
    pure (.range token.span left last inclusive)
  | .binary operator => do
    let minimum :=
      if operator.isRightAssociative then operator.precedence else operator.precedence + 1
    let right ← sub minimum
    pure (.binary token.span operator left right)

/-- Reads the extensions of `left` that bind at least as tightly as `minimum`; at most `count`
tokens are left. -/
def climb (input : Input) (sub : Nat → Reader Expr) (minimum : Nat) : Nat → Expr → Reader Expr
  | 0, left => pure left
  | count + 1, left => do
    let token ← peek input
    match token.kind.extension? with
    | none => pure left
    | some extension =>
      if extension.precedence < minimum then pure left
      else do
        advance
        let extended ← extend input sub left token extension
        climb input sub minimum count extended

/-- The cause of nesting an expression one level deeper than allowed. -/
def tooDeep (limits : Limits) : Cause :=
  limits.exceeded .parseDepth ((limits.bound .parseDepth).toNat + 1)

/-- Reads an expression whose extensions bind at least as tightly as a minimum, with a number of
levels that may still be opened. -/
def expression (input : Input) : Nat → Nat → Reader Expr
  | 0, _ => throw (.error ⟨tooDeep input.limits, .unknown⟩)
  | levels + 1, minimum => do
    let left ← operand input (expression input levels)
    climb input (expression input levels) minimum (← get).rest.length left

/-- Reads expressions up to the end of the stream; at most `count` tokens are left. -/
def statements (input : Input) : Nat → Reader (List Expr)
  | 0 => pure []
  | count + 1 => do
    match (← get).rest with
    | [] => pure []
    | _ :: _ =>
      let first ← expression input (input.limits.bound .parseDepth).toNat Precedence.loosest
      let more ← statements input count
      pure (first :: more)

/-- A single statement stands for itself, several for a program that spans the whole source. -/
def assemble (source : String) : List Expr → Expr
  | [single] => single
  | several => .program ⟨0, source.length⟩ several

/-- Accepts a tree that is within limits. -/
def withinLimits (limits : Limits) (tree : Expr) : Except Failure Expr :=
  match limits.check .nodeCount tree.size with
  | .error cause => .error (.error ⟨cause, .unknown⟩)
  | .ok () =>
    match limits.check .treeDepth tree.depth with
    | .error cause => .error (.error ⟨cause, .unknown⟩)
    | .ok () => .ok tree

end Parser

/-- Reads the tokens of a source, up to the first end token, as a program. -/
def parseTokens (tokens : List Token) (source : String) (limits : Limits) : Except Failure Expr :=
  let body := tokens.takeWhile (·.kind != .eof)
  let eof := (tokens.find? (·.kind == .eof)).getD (Cursor.eofAt source.length)
  if body.isEmpty then
    .error (.error ⟨.grammatical .emptyProgram, ⟨some 0, some source, some 0⟩⟩)
  else
    match Parser.statements ⟨source, limits, eof⟩ body.length ⟨body, 0⟩ with
    | .error failure => .error failure
    | .ok (statements, _) => Parser.withinLimits limits (Parser.assemble source statements)

/-- Reads a source text as a program. -/
def parse (source : String) (limits : Limits) : Except Failure Expr :=
  match tokenize source limits with
  | .error e => .error (.error e)
  | .ok tokens => parseTokens tokens source limits

end Formulary
