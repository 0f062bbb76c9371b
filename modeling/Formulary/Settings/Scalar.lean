import Formulary.Number.Reading
import Formulary.Settings.Document
import Formulary.Settings.Json

/-!
# Plain scalars

What an unquoted word of a YAML file denotes, by the rules of version 1.1: words for null and for
the truth values; integers in bases two, eight, ten, sixteen and sixty; decimals with a point.
Everything else is text.
-/

set_option autoImplicit false

namespace Formulary.Scalar

open Formulary.Text

/-- The words for null. -/
def nullWords : List String := ["", "~", "null", "Null", "NULL"]

/-- The words for true. -/
def trueWords : List String :=
  ["yes", "Yes", "YES", "true", "True", "TRUE", "on", "On", "ON"]

/-- The words for false. -/
def falseWords : List String :=
  ["no", "No", "NO", "false", "False", "FALSE", "off", "Off", "OFF"]

/-- Splits a sign off. -/
def splitSign : List Char → Bool × List Char
  | '-' :: rest => (true, rest)
  | '+' :: rest => (false, rest)
  | rest => (false, rest)

/-- The natural that digits of a base denote; underscores between them do not count. -/
def natural? (base : Nat) (cs : List Char) : Option Nat :=
  let digits := cs.filter (· ≠ '_')
  if digits.isEmpty then none
  else digits.foldlM (fun n d => do
    let value ← Json.hexDigit? d
    if value < base then some (base * n + value) else none) 0

/-- The value of a sixtieth part: one digit or two, below sixty. -/
def sixtieth? (cs : List Char) : Option Nat :=
  if cs.length = 1 ∨ cs.length = 2 then
    if cs.all isAsciiDigit ∧ Number.digitsValue cs < 60 then some (Number.digitsValue cs) else none
  else none

/-- The natural that an unsigned word denotes. -/
def unsigned? (cs : List Char) : Option Nat :=
  match cs with
  | '0' :: 'b' :: rest => natural? 2 rest
  | '0' :: 'x' :: rest => natural? 16 rest
  | ['0'] => some 0
  | '0' :: rest => if rest.all (· = '_') then some 0 else natural? 8 rest
  | d :: _ =>
    if isAsciiDigit d then
      match cs.splitOn ':' with
      | first :: parts => do
        let n ← natural? 10 first
        parts.foldlM (fun n part => (sixtieth? part).map (60 * n + ·)) n
      | [] => none
    else none
  | [] => none

/-- The integer that a word denotes. -/
def integer? (cs : List Char) : Option Int :=
  let (negative, rest) := splitSign cs
  (unsigned? rest).map (Number.signed negative)

/-- Whether what follows the digits of a decimal is an exponent, whose sign is written, or
nothing. -/
def isExponent : List Char → Bool
  | [] => true
  | mark :: sign :: rest =>
    (mark = 'e' || mark = 'E') && (sign = '+' || sign = '-') && !rest.isEmpty
      && rest.all isAsciiDigit
  | _ => false

/-- Whether a word is a decimal with a point. -/
def isDecimal (cs : List Char) : Bool :=
  let isPart (c : Char) : Bool := isAsciiDigit c || c = '_'
  match cs with
  | '.' :: d :: rest => isAsciiDigit d && isExponent (rest.dropWhile isPart)
  | _ =>
    let (_, rest) := splitSign cs
    match rest with
    | d :: _ =>
      isAsciiDigit d && match rest.dropWhile isPart with
        | '.' :: rest => isExponent (rest.dropWhile isPart)
        | _ => false
    | [] => false

/-- The decimal that a word denotes. -/
def decimal? (cs : List Char) : Option Float :=
  let (negative, rest) := splitSign cs
  if [".inf", ".Inf", ".INF"].contains (String.ofList rest) then
    some (if negative then -1.0 / 0.0 else 1.0 / 0.0)
  else if [".nan", ".NaN", ".NAN"].contains (String.ofList cs) then some (0.0 / 0.0)
  else if isDecimal cs then Number.read? (String.ofList (cs.filter (· ≠ '_')))
  else none

/-- What a word denotes. -/
def resolve (cs : List Char) : Document :=
  let word := String.ofList cs
  if nullWords.contains word then .null
  else if trueWords.contains word then .boolean true
  else if falseWords.contains word then .boolean false
  else match integer? cs with
    | some n => .integer n
    | none =>
      match decimal? cs with
      | some x => .decimal x
      | none => .text word

end Formulary.Scalar
