/-!
# Searching and cutting texts

Operations on lists of characters: occurrences of a pattern, replacing the first one, splitting at
every one, and cutting out the part between two offsets.  Offsets may be negative, which counts from
the end, and are clamped to the list.
-/

set_option autoImplicit false

namespace Formulary.Text

/-- Whether a pattern occurs in a text. -/
def occursIn (pattern : List Char) : List Char → Bool
  | [] => pattern.isEmpty
  | c :: rest => pattern.isPrefixOf (c :: rest) || occursIn pattern rest

/-- Replaces the first occurrence of a pattern; an empty pattern occurs in front. -/
def replaceFirst (pattern replacement : List Char) : List Char → List Char
  | [] => if pattern.isEmpty then replacement else []
  | c :: rest =>
    if pattern.isPrefixOf (c :: rest) then replacement ++ (c :: rest).drop pattern.length
    else c :: replaceFirst pattern replacement rest

/-- Splits a text at the non-overlapping occurrences of the separator `head :: tail`, taken from the
left; `piece` holds the characters of the current piece, last one first. -/
def splitFrom (head : Char) (tail piece : List Char) : List Char → List (List Char)
  | [] => [piece.reverse]
  | c :: rest =>
    if c = head ∧ tail.isPrefixOf rest then
      piece.reverse :: splitFrom head tail [] (rest.drop tail.length)
    else splitFrom head tail (c :: piece) rest
termination_by cs => cs.length
decreasing_by
  · simp only [List.length_drop, List.length_cons]; omega
  · simp only [List.length_cons]; omega

/-- Splits a text at a separator; an empty separator splits it into its characters. -/
def splitOn (separator cs : List Char) : List (List Char) :=
  match separator with
  | [] => cs.map fun c => [c]
  | head :: tail => splitFrom head tail [] cs

/-- Turns an offset into a position of a list of the given length. -/
def clampOffset (length : Nat) (offset : Int) : Nat :=
  if offset < 0 then (offset + length).toNat else min offset.toNat length

/-- The part of a list between two offsets. -/
def cut {α : Type} (xs : List α) (start : Int) (stop : Option Int) : List α :=
  let first := clampOffset xs.length start
  let last := match stop with
    | none => xs.length
    | some offset => clampOffset xs.length offset
  (xs.take last).drop first

end Formulary.Text
