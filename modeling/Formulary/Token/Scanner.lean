import Formulary.Limits.Basic
import Formulary.Token.Lexeme

/-!
# The scanner

A cursor moves over a source text and yields one token at a time; at the end of the text it yields
the end token for ever.  After a failure the cursor stands behind what was read, so that scanning
can go on.

Main definitions: `Cursor.next` is one step, `tokenize` collects the tokens of a whole source.
-/

set_option autoImplicit false

namespace Formulary

/-- Why no token could be read: what stands there is no lexeme, or it is over a limit. -/
inductive ScanFailure where
  | lexical (fault : LexicalFault) (start stop : Nat)
  | limit (cause : Cause)
deriving DecidableEq, Repr

/-- A failure of the scanner as an error of a source text. -/
def ScanFailure.toError (source : String) : ScanFailure → Error
  | .lexical fault start stop => ⟨.lexical fault, ⟨some start, some source, some stop⟩⟩
  | .limit cause => ⟨cause, .unknown⟩

/-- A place in a source text: how many characters lie before it, and those that lie behind it. -/
structure Cursor where
  position : Nat
  rest : List Char
deriving DecidableEq, Repr

namespace Cursor

/-- The start of a source text. -/
def start (source : String) : Cursor :=
  ⟨0, source.toList⟩

/-- Moves the cursor past trivia. -/
def skip (c : Cursor) : Cursor :=
  let rest := skipTrivia c.rest
  ⟨c.position + (c.rest.length - rest.length), rest⟩

/-- Moves the cursor on by a number of characters. -/
def advance (c : Cursor) (n : Nat) : Cursor :=
  ⟨c.position + n, c.rest.drop n⟩

/-- The end token at a position. -/
def eofAt (position : Nat) : Token :=
  ⟨.eof, "", ⟨position, position⟩⟩

/-- What a lexeme at a position means, within limits. -/
def accept (limits : Limits) (position : Nat) : Lexeme → Except ScanFailure Token
  | .fault fault start stop _ => .error (.lexical fault (position + start) (position + stop))
  | .token kind value length =>
    let token : Token := ⟨kind, String.ofList value, ⟨position, (position + length : Nat)⟩⟩
    if kind = .string then
      match limits.check .stringLength value.length with
      | .ok () => .ok token
      | .error cause => .error (.limit cause)
    else .ok token

/-- Reads one token and moves the cursor past it. -/
def next (limits : Limits) (c : Cursor) : Except ScanFailure Token × Cursor :=
  let here := c.skip
  match here.rest with
  | [] => (.ok (eofAt here.position), here)
  | first :: rest =>
    let lexeme := Lexeme.read first rest
    (accept limits here.position lexeme, here.advance lexeme.length)

/-- Reads tokens up to the end of the text; no more than `count` of them are left. -/
def tokens (limits : Limits) : Nat → Cursor → Except ScanFailure (List Token)
  | 0, c => .ok [eofAt c.position]
  | count + 1, c =>
    match c.next limits with
    | (.error failure, _) => .error failure
    | (.ok token, after) =>
      if token.kind = .eof then .ok [token]
      else (tokens limits count after).map (token :: ·)

end Cursor

/-- Opens a source text for scanning, if it is not too long. -/
def openSource (source : String) (limits : Limits) : Except Error Cursor :=
  match limits.check .expressionLength source.length with
  | .ok () => .ok (.start source)
  | .error cause => .error ⟨cause, .unknown⟩

/-- The tokens of a source text, the end token last. -/
def tokenize (source : String) (limits : Limits) : Except Error (List Token) :=
  match openSource source limits with
  | .error e => .error e
  | .ok cursor =>
    match cursor.tokens limits source.length with
    | .ok tokens => .ok tokens
    | .error failure => .error (failure.toError source)

end Formulary
