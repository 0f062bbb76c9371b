import Formulary.Number.Shortest

/-!
# The text of a number

Two ways of writing a number are shared by everything that prints one.  `plain` writes the shortest
decimal, positionally for middling exponents and with an exponent otherwise.  A `Style` writes whole
numbers below a bound as integers and has its own words for what no decimal denotes; the code
printer, the outline and the `str` function each have a style.
-/

set_option autoImplicit false

namespace Formulary.Number

/-- The decimal digits of an integer, with a sign if it is negative. -/
def intText (n : Int) : String :=
  if n < 0 then "-" ++ String.ofList (Nat.toDigits 10 n.natAbs)
  else String.ofList (Nat.toDigits 10 n.natAbs)

/-- Pads a text with zeros on the left. -/
def zeroPadded (width : Nat) (digits : List Char) : List Char :=
  List.replicate (width - digits.length) '0' ++ digits

/-- An exponent is written with a sign and at least two digits. -/
def exponentText (e : Int) : List Char :=
  (if e < 0 then '-' else '+') :: zeroPadded 2 (Nat.toDigits 10 e.natAbs)

/-- Writes the decimal `0.d₁d₂… · 10^point`.  A value from `10^-4` up to `10^16` is written with a
point and at least one digit on either side, any other with an exponent. -/
def layOut (digits : List Char) (point : Int) : List Char :=
  if point - 1 < -4 ∨ 16 ≤ point - 1 then
    let mantissa := match digits with
      | [] => ['0']
      | [d] => [d]
      | d :: rest => d :: '.' :: rest
    mantissa ++ 'e' :: exponentText (point - 1)
  else if point ≤ 0 then
    '0' :: '.' :: List.replicate (-point).toNat '0' ++ digits
  else if digits.length ≤ point.toNat then
    digits ++ List.replicate (point.toNat - digits.length) '0' ++ ['.', '0']
  else
    digits.take point.toNat ++ '.' :: digits.drop point.toNat

/-- The shortest text of a positive finite double. -/
def positiveText (m : Nat) (q : Int) : List Char :=
  let d := shortest m q
  let digits := Nat.toDigits 10 d.digits
  layOut digits (d.scale + digits.length)

/-- The plain text of a double. -/
def plain (x : Float) : String :=
  match parts x with
  | .nan => "nan"
  | .infinite true => "-inf"
  | .infinite false => "inf"
  | .finite negative m q =>
    let magnitude := if m = 0 then ['0', '.', '0'] else positiveText m q
    String.ofList (if negative then '-' :: magnitude else magnitude)

/-- A way to write numbers: the words for what has no decimal, the spelling of a negative zero, and
the bound below which whole numbers are written as integers. -/
structure Style where
  nan : String
  infinity : String
  negativeInfinity : String
  negativeZero : String
  wholeBelow : Nat

/-- Writes a number in a style. -/
def Style.text (style : Style) (x : Float) : String :=
  match parts x with
  | .nan => style.nan
  | .infinite true => style.negativeInfinity
  | .infinite false => style.infinity
  | .finite negative m _ =>
    if m = 0 ∧ negative then style.negativeZero
    else match whole? x with
      | some n => if n.natAbs < style.wholeBelow then intText n else plain x
      | none => plain x

end Formulary.Number
