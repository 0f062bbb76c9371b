import Formulary.Number.Binary
import Formulary.Text.Blank
import Formulary.Text.Digit

/-!
# Reading a number

The texts that denote a number: white space around it, a sign, and either a decimal, possibly with a
point and an exponent, or a word for infinity or for no number.  Digits of every script count, and a
single underscore may stand between two digits.  A decimal denotes the double nearest to it.
-/

set_option autoImplicit false

namespace Formulary.Number

open Formulary.Text

/-- The double nearest to `digits · 10^scale`.  Far beyond the range of doubles the exponent alone
decides, so that no power of ten is ever larger than the answer needs. -/
def ofDecimal (digits : Nat) (scale : Int) : Float :=
  let magnitude := ((Nat.toDigits 10 digits).length : Int) + scale
  if digits = 0 then Float.ofScientific 0 false 0
  else if 400 < magnitude then Float.ofScientific 1 false 400
  else if magnitude < -400 then Float.ofScientific 0 false 0
  else if scale < 0 then Float.ofScientific digits true (-scale).toNat
  else Float.ofScientific digits false scale.toNat

/-- The white space that may surround a number: the information separators are not part of it. -/
def isNumberBlank (c : Char) : Bool :=
  isBlank c && !decide (0x1C ≤ c.toNat ∧ c.toNat ≤ 0x1F)

/-- Writes the digits of every script as ASCII digits. -/
def asciiDigit (c : Char) : Char :=
  match digitValue? c with
  | some value => Char.ofNat (0x30 + value)
  | none => c

/-- Drops the underscores of a text; each must stand between two digits.  `previous` is the
character in front. -/
def dropUnderscores (previous : Char) : List Char → Option (List Char)
  | [] => if previous = '_' then none else some []
  | c :: rest =>
    if c = '_' then
      if isAsciiDigit previous then dropUnderscores c rest else none
    else if previous = '_' ∧ !isAsciiDigit c then none
    else (dropUnderscores c rest).map (c :: ·)

/-- The natural that a run of ASCII digits denotes. -/
def digitsValue (ds : List Char) : Nat :=
  ds.foldl (fun n d => 10 * n + (d.toNat - 0x30)) 0

/-- Reads an exponent: nothing at all, or a mark, an optional sign and digits. -/
def exponent? : List Char → Option Int
  | [] => some 0
  | mark :: rest =>
    if mark = 'e' ∨ mark = 'E' then
      let (negative, digits) := match rest with
        | '-' :: ds => (true, ds)
        | '+' :: ds => (false, ds)
        | ds => (false, ds)
      if digits.isEmpty ∨ !digits.all isAsciiDigit then none
      else some (signed negative (digitsValue digits))
    else none

/-- Reads an unsigned decimal: digits with at most one point among them, then an exponent. -/
def unsignedDecimal? (cs : List Char) : Option Float :=
  let whole := cs.takeWhile isAsciiDigit
  let (fraction, rest) := match cs.dropWhile isAsciiDigit with
    | '.' :: after => (after.takeWhile isAsciiDigit, after.dropWhile isAsciiDigit)
    | after => ([], after)
  if whole.isEmpty ∧ fraction.isEmpty then none
  else (exponent? rest).map fun e =>
    ofDecimal (digitsValue (whole ++ fraction)) (e - fraction.length)

/-- Reads an unsigned number: a decimal or one of the words, in any mixture of cases. -/
def unsigned? (cs : List Char) : Option Float :=
  let word := String.ofList (cs.map Char.toLower)
  if word = "inf" ∨ word = "infinity" then some (1.0 / 0.0)
  else if word = "nan" then some (0.0 / 0.0)
  else unsignedDecimal? cs

/-- Reads a number with an optional sign. -/
def signed? : List Char → Option Float
  | '-' :: cs => (unsigned? cs).map (-·)
  | '+' :: cs => unsigned? cs
  | cs => unsigned? cs

/-- Reads a text as a number. -/
def read? (s : String) : Option Float :=
  (dropUnderscores ' ' ((strip isNumberBlank s.toList).map asciiDigit)).bind signed?

end Formulary.Number
