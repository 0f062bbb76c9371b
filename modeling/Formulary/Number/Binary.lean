/-!
# Numbers taken apart

A number of the language is a double.  This module reads a double's bits as an exact value
`±m · 2^q`, and derives from that reading everything that must be exact: whole values, rounding to
the nearest whole number, and the order between doubles and integers of any size.

Main definitions:

* `Number.parts`: the exact value that the bits of a double denote;
* `Number.place`: where a double lies on the line, counted in units of `2^-1074`, so that comparing
  numbers is comparing integers;
* `Number.whole?`, `Number.nearest?`: the integer that a double is, or is nearest to;
* `Number.ofInt?`: the double nearest to an integer, if it is in range.
-/

set_option autoImplicit false

namespace Formulary.Number

/-- A power of two. -/
def twoTo (n : Nat) : Nat :=
  Nat.pow 2 n

/-- A power of ten. -/
def tenTo (n : Nat) : Nat :=
  Nat.pow 10 n

/-- The exact value of a double: a finite one is `mantissa · 2^exponent` with a sign. -/
inductive Parts where
  | nan
  | infinite (negative : Bool)
  | finite (negative : Bool) (mantissa : Nat) (exponent : Int)
deriving DecidableEq, Repr

/-- Reads the sign, exponent and fraction fields of a double. -/
def parts (x : Float) : Parts :=
  let bits := x.toBits.toNat
  let negative := decide (twoTo 63 ≤ bits)
  let exponent : Nat := bits / twoTo 52 % twoTo 11
  let fraction : Nat := bits % twoTo 52
  if exponent = 2047 then
    if fraction = 0 then .infinite negative else .nan
  else if exponent = 0 then .finite negative fraction (-1074)
  else .finite negative (twoTo 52 + fraction) ((exponent : Int) - 1075)

/-- Whether a double is no number at all. -/
def isNaN (x : Float) : Bool :=
  match parts x with
  | .nan => true
  | _ => false

/-- Whether a double denotes a real number. -/
def isFinite (x : Float) : Bool :=
  match parts x with
  | .finite .. => true
  | _ => false

/-- Whether the sign of a double is set; a negative zero counts, a NaN does not. -/
def isNegative (x : Float) : Bool :=
  match parts x with
  | .nan => false
  | .infinite negative => negative
  | .finite negative _ _ => negative

/-- Gives a magnitude its sign. -/
def signed (negative : Bool) (n : Nat) : Int :=
  if negative then -n else n

/-- A point of the line, infinities included.  Every finite double is a whole number of units of
`2^-1074`, and so is every integer. -/
inductive Place where
  | below
  | units (count : Int)
  | above
deriving DecidableEq, Repr

/-- How many units of `2^-1074` make one. -/
def unitsPerOne : Nat := twoTo 1074

/-- Where a double lies; a NaN lies nowhere. -/
def place (x : Float) : Option Place :=
  match parts x with
  | .nan => none
  | .infinite true => some .below
  | .infinite false => some .above
  | .finite negative m q => some (.units (signed negative (m * twoTo (q + 1074).toNat)))

/-- Where an integer lies. -/
def placeOfInt (n : Int) : Place :=
  .units (n * unitsPerOne)

/-- The order of the line. -/
def Place.le : Place → Place → Bool
  | .below, _ => true
  | _, .above => true
  | .units a, .units b => decide (a ≤ b)
  | .units _, .below => false
  | .above, _ => false

/-- The strict order of the line. -/
def Place.lt (a b : Place) : Bool :=
  a.le b && !b.le a

/-- The integer that a double denotes, if it denotes one. -/
def whole? (x : Float) : Option Int :=
  match parts x with
  | .finite negative m q =>
    if 0 ≤ q then some (signed negative (m * twoTo q.toNat))
    else
      let divisor := twoTo (-q).toNat
      if m % divisor = 0 then some (signed negative (m / divisor)) else none
  | _ => none

/-- The quotient of two naturals rounded to the nearest natural, a half to the even neighbour. -/
def divideToEven (n divisor : Nat) : Nat :=
  let quotient := n / divisor
  let twice := 2 * (n % divisor)
  if twice < divisor then quotient
  else if divisor < twice then quotient + 1
  else quotient + quotient % 2

/-- The integer nearest to a finite double, a half going to the even neighbour. -/
def nearest? (x : Float) : Option Int :=
  match parts x with
  | .finite negative m q =>
    if 0 ≤ q then some (signed negative (m * twoTo q.toNat))
    else some (signed negative (divideToEven m (twoTo (-q).toNat)))
  | _ => none

/-- The double nearest to an integer, or nothing if it lies beyond the largest double. -/
def ofInt? (n : Int) : Option Float :=
  let magnitude := Float.ofScientific n.natAbs false 0
  if isFinite magnitude then some (if n < 0 then -magnitude else magnitude) else none

/-- The double nearest to `n · 10^-places`, infinite if it is beyond the largest double. -/
def ofDecimalInt (n : Int) (places : Nat) : Float :=
  let magnitude := Float.ofScientific n.natAbs true places
  if n < 0 then -magnitude else magnitude

end Formulary.Number
