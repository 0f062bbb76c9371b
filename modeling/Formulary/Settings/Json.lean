import Formulary.Number.Reading
import Formulary.Settings.Document

/-!
# JSON

The strict notation, with the words `NaN`, `Infinity` and `-Infinity` for numbers besides.  A number
without point and exponent is an integer of any size.

Readers take the characters ahead and return what they read with the characters that are left, or
nothing if the text is not in the notation.
-/

set_option autoImplicit false

namespace Formulary.Json

open Formulary.Text

/-- Drops the white space ahead. -/
def skipBlank (cs : List Char) : List Char :=
  cs.dropWhile fun c => c = ' ' || c = '\t' || c = '\n' || c = '\r'

/-- The value of a hexadecimal digit. -/
def hexDigit? (c : Char) : Option Nat :=
  if isAsciiDigit c then some (c.toNat - 0x30)
  else if 'a' ≤ c ∧ c ≤ 'f' then some (c.toNat - 0x61 + 10)
  else if 'A' ≤ c ∧ c ≤ 'F' then some (c.toNat - 0x41 + 10)
  else none

/-- The natural that hexadecimal digits denote. -/
def hexValue? (ds : List Char) : Option Nat :=
  ds.foldlM (fun n d => (hexDigit? d).map (16 * n + ·)) 0

/-- What an escaped character stands for. -/
def escaped? : Char → Option Char
  | '"' => some '"'
  | '\\' => some '\\'
  | '/' => some '/'
  | 'b' => some '\x08'
  | 'f' => some '\x0c'
  | 'n' => some '\n'
  | 'r' => some '\r'
  | 't' => some '\t'
  | _ => none

/-- Reads the code points of a string up to its closing quote. -/
def codePoints : List Char → Option (List Nat × List Char)
  | [] => none
  | '"' :: rest => some ([], rest)
  | '\\' :: 'u' :: a :: b :: c :: d :: rest => do
    let unit ← hexValue? [a, b, c, d]
    let (units, rest) ← codePoints rest
    some (unit :: units, rest)
  | '\\' :: c :: rest => do
    let e ← escaped? c
    let (units, rest) ← codePoints rest
    some (e.toNat :: units, rest)
  | c :: rest =>
    if c.toNat < 0x20 then none
    else do
      let (units, rest) ← codePoints rest
      some (c.toNat :: units, rest)

/-- The character of a code point; a lone surrogate has none and is replaced. -/
def character (unit : Nat) : Char :=
  if 0xD800 ≤ unit ∧ unit < 0xE000 then '\ufffd' else Char.ofNat unit

/-- Joins pairs of surrogates. -/
def joinSurrogates : List Nat → List Char
  | high :: low :: rest =>
    if 0xD800 ≤ high ∧ high < 0xDC00 ∧ 0xDC00 ≤ low ∧ low < 0xE000 then
      Char.ofNat (0x10000 + (high - 0xD800) * 0x400 + (low - 0xDC00)) :: joinSurrogates rest
    else character high :: joinSurrogates (low :: rest)
  | [unit] => [character unit]
  | [] => []

/-- Reads a string whose opening quote is already read. -/
def string (cs : List Char) : Option (String × List Char) :=
  (codePoints cs).map fun (units, rest) => (String.ofList (joinSurrogates units), rest)

/-- Reads a fraction, which may be missing. -/
def fraction : List Char → List Char × List Char
  | '.' :: d :: rest =>
    if isAsciiDigit d then
      ('.' :: d :: rest.takeWhile isAsciiDigit, rest.dropWhile isAsciiDigit)
    else ([], '.' :: d :: rest)
  | cs => ([], cs)

/-- Reads an exponent, which may be missing. -/
def exponent : List Char → List Char × List Char
  | mark :: rest =>
    if mark = 'e' ∨ mark = 'E' then
      let (sign, after) := match rest with
        | '+' :: after => (['+'], after)
        | '-' :: after => (['-'], after)
        | after => ([], after)
      let digits := after.takeWhile isAsciiDigit
      if digits.isEmpty then ([], mark :: rest)
      else (mark :: sign ++ digits, after.dropWhile isAsciiDigit)
    else ([], mark :: rest)
  | [] => ([], [])

/-- Reads the whole part of a number: no digit follows a leading zero. -/
def whole : List Char → Option (List Char × List Char)
  | [] => none
  | d :: rest =>
    if d = '0' then some ([d], rest)
    else if isAsciiDigit d then
      some (d :: rest.takeWhile isAsciiDigit, rest.dropWhile isAsciiDigit)
    else none

/-- Reads a number. -/
def number (cs : List Char) : Option (Document × List Char) := do
  let (negative, unsigned) := match cs with
    | '-' :: rest => (true, rest)
    | rest => (false, rest)
  let (digits, rest) ← whole unsigned
  let (point, rest) := fraction rest
  let (mark, rest) := exponent rest
  if point.isEmpty && mark.isEmpty then
    some (.integer (Number.signed negative (Number.digitsValue digits)), rest)
  else do
    let x ← Number.read? (String.ofList (digits ++ point ++ mark))
    some (.decimal (if negative then -x else x), rest)

/-- Reads one of the words, or a number. -/
def scalar (cs : List Char) : Option (Document × List Char) :=
  let word (w : String) (d : Document) : Option (Document × List Char) :=
    if w.toList.isPrefixOf cs then some (d, cs.drop w.length) else none
  word "null" .null <|> word "true" (.boolean true) <|> word "false" (.boolean false)
    <|> word "NaN" (.decimal (0.0 / 0.0)) <|> word "Infinity" (.decimal (1.0 / 0.0))
    <|> word "-Infinity" (.decimal (-1.0 / 0.0)) <|> number cs

mutual

/-- Reads a document; it holds no more than `size` characters. -/
def document : Nat → List Char → Option (Document × List Char)
  | 0, _ => none
  | size + 1, cs =>
    match cs with
    | '"' :: rest => (string rest).map fun (s, rest) => (.text s, rest)
    | '[' :: rest =>
      match skipBlank rest with
      | ']' :: rest => some (.list [], rest)
      | rest => (items size rest).map fun (ds, rest) => (.list ds, rest)
    | '\x7b' :: rest =>
      match skipBlank rest with
      | '\x7d' :: rest => some (.mapping [], rest)
      | rest => (entries size rest).map fun (es, rest) => (.mapping es, rest)
    | cs => scalar cs

/-- Reads the items of a list and its closing bracket. -/
def items : Nat → List Char → Option (List Document × List Char)
  | 0, _ => none
  | size + 1, cs => do
    let (d, rest) ← document size cs
    match skipBlank rest with
    | ']' :: rest => some ([d], rest)
    | ',' :: rest => do
      let (ds, rest) ← items size (skipBlank rest)
      some (d :: ds, rest)
    | _ => none

/-- Reads the entries of a mapping and its closing brace. -/
def entries : Nat → List Char → Option (List (Document × Document) × List Char)
  | 0, _ => none
  | size + 1, cs => do
    let (name, rest) ← match cs with
      | '"' :: rest => string rest
      | _ => none
    let rest ← match skipBlank rest with
      | ':' :: rest => some (skipBlank rest)
      | _ => none
    let (d, rest) ← document size rest
    match skipBlank rest with
    | '\x7d' :: rest => some ([(.text name, d)], rest)
    | ',' :: rest => do
      let (es, rest) ← entries size (skipBlank rest)
      some ((.text name, d) :: es, rest)
    | _ => none

end

/-- The document of a text. -/
def read? (text : String) : Option Document :=
  let cs := skipBlank text.toList
  match document (cs.length + 1) cs with
  | some (d, rest) => if (skipBlank rest).isEmpty then some d else none
  | none => none

end Formulary.Json
