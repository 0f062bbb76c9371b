/-!
# White space

The characters that count as white space around a text: the white-space characters of Unicode
together with the four information separators.
-/

set_option autoImplicit false

namespace Formulary.Text

/-- The ranges of white-space characters, in ascending order. -/
def blankRanges : List (Nat × Nat) :=
  [(0x09, 0x0D), (0x1C, 0x20), (0x85, 0x85), (0xA0, 0xA0), (0x1680, 0x1680), (0x2000, 0x200A),
    (0x2028, 0x2029), (0x202F, 0x202F), (0x205F, 0x205F), (0x3000, 0x3000)]

/-- Whether a character lies in one of the given ranges. -/
def inRanges (ranges : List (Nat × Nat)) (c : Char) : Bool :=
  ranges.any fun r => decide (r.1 ≤ c.toNat ∧ c.toNat ≤ r.2)

/-- Whether a character is white space. -/
def isBlank (c : Char) : Bool :=
  inRanges blankRanges c

/-- Drops the characters of a class from both ends. -/
def strip (skipped : Char → Bool) (cs : List Char) : List Char :=
  (((cs.dropWhile skipped).reverse).dropWhile skipped).reverse

/-- Drops white space from both ends. -/
def trim (s : String) : String :=
  String.ofList (strip isBlank s.toList)

end Formulary.Text
