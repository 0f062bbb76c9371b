import Formulary.Number.Binary

/-!
# The remainder of a division

The remainder of two doubles is exact: both are whole multiples of a common power of two, so it is
the remainder of two naturals.  It has the sign of the dividend.
-/

set_option autoImplicit false

namespace Formulary.Number

/-- A natural below `2^53` times a power of two, with a sign. -/
def scaled (negative : Bool) (m : Nat) (q : Int) : Float :=
  let magnitude := (Float.ofScientific m false 0).scaleB q
  if negative then -magnitude else magnitude

/-- The remainder of a division, with the sign of the dividend; there is none of an infinity, nor by
zero. -/
def remainder (x y : Float) : Float :=
  match parts x, parts y with
  | .finite negative m q, .finite _ n r =>
    if n = 0 then 0.0 / 0.0
    else
      let common := min q r
      let dividend := m * twoTo (q - common).toNat
      let divisor := n * twoTo (r - common).toNat
      scaled negative (dividend % divisor) common
  | .finite .., .infinite _ => x
  | _, _ => 0.0 / 0.0

end Formulary.Number
