/-!
# Ranges of integers

An arithmetic progression of integers, given by its first element, an excluded stop and a step that
is not zero.  Its elements are computed from their positions and never stored.
-/

set_option autoImplicit false

namespace Formulary

/-- The integers from `first` on in steps of `step` that lie before `stop`. -/
structure IntRange where
  first : Int
  stop : Int
  step : Int
  step_ne_zero : step ≠ 0 := by decide
deriving DecidableEq, Repr

namespace IntRange

/-- The integers from `first` on, one by one, that lie before `stop`. -/
def upTo (first stop : Int) : IntRange where
  first := first
  stop := stop
  step := 1

/-- How many elements a range has. -/
def length (r : IntRange) : Nat :=
  if 0 < r.step then ((r.stop - r.first + r.step - 1) / r.step).toNat
  else ((r.first - r.stop - r.step - 1) / (-r.step)).toNat

/-- The element at a position. -/
def get (r : IntRange) (i : Nat) : Int :=
  r.first + i * r.step

/-- The elements from one position up to another. -/
def part (r : IntRange) (start stop : Nat) : List Int :=
  (List.range' start (stop - start)).map r.get

/-- The elements in order. -/
def toList (r : IntRange) : List Int :=
  r.part 0 r.length

/-- Whether two ranges have the same elements: as many, from the same first one on, by the same
step, as far as there are elements to tell. -/
def sameElements (r s : IntRange) : Bool :=
  r.length == s.length
    && (r.length == 0 || (r.first == s.first && (r.length == 1 || r.step == s.step)))

end IntRange

end Formulary
