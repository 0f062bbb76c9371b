import Formulary.Number.Binary

/-!
# The shortest decimal of a double

The text of a number has the fewest digits that still read back as the same double, and of the
decimals with that many digits the one nearest to it.  All arithmetic is on naturals: a positive
real is a quotient of two naturals, the reals that round to a double form an interval between two
such quotients, and for each count of digits only the two neighbours of the value on that decimal
grid are candidates.
-/

set_option autoImplicit false

namespace Formulary.Number

/-- A positive rational as a quotient of naturals. -/
structure Ratio where
  numerator : Nat
  denominator : Nat
deriving Repr

namespace Ratio

/-- `m · 2^q` as a quotient. -/
def ofBinary (m : Nat) (q : Int) : Ratio :=
  ⟨m * twoTo q.toNat, twoTo (-q).toNat⟩

/-- `d · 10^k` as a quotient. -/
def ofDecimal (d : Nat) (k : Int) : Ratio :=
  ⟨d * tenTo k.toNat, tenTo (-k).toNat⟩

/-- Whether one quotient is below another. -/
def lt (a b : Ratio) : Bool :=
  decide (a.numerator * b.denominator < b.numerator * a.denominator)

/-- Whether one quotient is at most another. -/
def le (a b : Ratio) : Bool :=
  decide (a.numerator * b.denominator ≤ b.numerator * a.denominator)

/-- The value times `10^k`, cut off below the point. -/
def scaledFloor (r : Ratio) (k : Int) : Nat :=
  r.numerator * tenTo k.toNat / (r.denominator * tenTo (-k).toNat)

end Ratio

/-- The reals that round to `m · 2^q`: those between the midpoints to the neighbouring doubles, the
midpoints themselves included exactly if `m` is even. -/
structure Basin where
  low : Ratio
  high : Ratio
  closed : Bool
deriving Repr

/-- The basin of a positive double.  Below a power of two the doubles lie twice as dense. -/
def Basin.ofBinary (m : Nat) (q : Int) : Basin where
  low := if m = twoTo 52 ∧
    -1074 < q then .ofBinary (4 * m - 1) (q - 2) else .ofBinary (2 * m - 1) (q - 1)
  high := .ofBinary (2 * m + 1) (q - 1)
  closed := m % 2 == 0

/-- Whether a real rounds to the double of the basin. -/
def Basin.contains (b : Basin) (r : Ratio) : Bool :=
  if b.closed then b.low.le r && r.le b.high else b.low.lt r && r.lt b.high

/-- A decimal `digits · 10^scale`. -/
structure Decimal where
  digits : Nat
  scale : Int
deriving DecidableEq, Repr

/-- How many digits a natural has; zero has none. -/
def digitCount (n : Nat) : Nat :=
  if n = 0 then 0 else (Nat.toDigits 10 n).length

/-- The number `p` with `10^(p-1) ≤ m · 2^q < 10^p`, for a positive double. -/
def decimalPoint (m : Nat) (q : Int) : Int :=
  (digitCount ((Ratio.ofBinary m q).scaledFloor 400) : Int) - 400

/-- The decimal with at most `count` digits that rounds to the double, nearest first, if one
does. -/
def onGrid? (m : Nat) (q : Int) (count : Nat) : Option Decimal :=
  let value := Ratio.ofBinary m q
  let scale := decimalPoint m q - count
  let below := value.scaledFloor (-scale)
  let basin := Basin.ofBinary m q
  let fits (d : Nat) : Bool := basin.contains (.ofDecimal d scale)
  let middle := Ratio.ofDecimal (10 * below + 5) (scale - 1)
  let upperIsNearer : Bool :=
    middle.lt value || (middle.le value && below % 2 == 1)
  match fits below, fits (below + 1) with
  | true, true => some ⟨if upperIsNearer then below + 1 else below, scale⟩
  | true, false => some ⟨below, scale⟩
  | false, true => some ⟨below + 1, scale⟩
  | false, false => none

/-- Drops the zeros at the end of the digits. -/
def Decimal.trimmed (d : Decimal) : Nat → Decimal
  | 0 => d
  | fuel + 1 =>
    if d.digits ≠ 0 ∧ d.digits % 10 = 0 then
      Decimal.trimmed ⟨d.digits / 10, d.scale + 1⟩ fuel
    else d

/-- The shortest decimal that reads back as the positive double `m · 2^q`: seventeen digits always
suffice. -/
def shortest (m : Nat) (q : Int) : Decimal :=
  let found := (List.range 17).findSome? fun i => onGrid? m q (i + 1)
  (found.getD ⟨m * twoTo q.toNat, 0⟩).trimmed 20

end Formulary.Number
