import Formulary.Text.Blank
import Formulary.Text.PrintTable

/-!
# Quoted texts

How a text is shown inside a message: between quotes, with a backslash in front of the quote and of
the backslash itself, and with escapes for what cannot be printed.
-/

set_option autoImplicit false

namespace Formulary.Text

/-- Lower-case hexadecimal digits of a code point, padded with zeros. -/
def hexDigits (width n : Nat) : List Char :=
  let digits := Nat.toDigits 16 n
  List.replicate (width - digits.length) '0' ++ digits

/-- A character as it stands between the given quotes. -/
def quotedChar (quote c : Char) : List Char :=
  if c = quote ∨ c = '\\' then ['\\', c]
  else if c = '\n' then ['\\', 'n']
  else if c = '\r' then ['\\', 'r']
  else if c = '\t' then ['\\', 't']
  else if inRanges unprintableRanges c then
    if c.toNat < 0x100 then '\\' :: 'x' :: hexDigits 2 c.toNat
    else if c.toNat < 0x10000 then '\\' :: 'u' :: hexDigits 4 c.toNat
    else '\\' :: 'U' :: hexDigits 8 c.toNat
  else [c]

/-- A text between apostrophes, or between quotation marks if it has an apostrophe and no quotation
mark. -/
def quoted (s : String) : String :=
  let cs := s.toList
  let quote := if cs.contains '\'' && !cs.contains '"' then '"' else '\''
  String.ofList (quote :: cs.flatMap (quotedChar quote) ++ [quote])

end Formulary.Text
