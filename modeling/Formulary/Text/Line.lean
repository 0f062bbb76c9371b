/-!
# Lines and columns

Where an offset of a text stands: its line and column, both counted from one, and the line itself
with a pointer below it.
-/

set_option autoImplicit false

namespace Formulary.Text

/-- A place in a text, both parts counted from one. -/
structure LineColumn where
  line : Nat
  column : Nat
deriving DecidableEq, Repr

/-- Moves past a character. -/
def LineColumn.advance (here : LineColumn) (c : Char) : LineColumn :=
  if c = '\n' then ⟨here.line + 1, 1⟩ else ⟨here.line, here.column + 1⟩

/-- The line and column of an offset; offsets outside the text count as its nearest end. -/
def lineColumn (text : List Char) (offset : Int) : LineColumn :=
  (text.take offset.toNat).foldl LineColumn.advance ⟨1, 1⟩

/-- The characters of the current line in front of an offset. -/
def lineBefore (text : List Char) (offset : Nat) : List Char :=
  ((text.take offset).reverse.takeWhile (· != '\n')).reverse

/-- The line that an offset stands in. -/
def lineAt (text : List Char) (offset : Nat) : List Char :=
  lineBefore text offset ++ (text.drop offset).takeWhile (· != '\n')

/-- The distance of an offset from the start of its line; an offset past the end of the text keeps
its distance. -/
def indentAt (text : List Char) (offset : Nat) : Nat :=
  offset - ((text.take offset).length - (lineBefore text offset).length)

end Formulary.Text
