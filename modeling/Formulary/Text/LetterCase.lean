import Formulary.Text.Blank
import Formulary.Text.CaseTable
import Formulary.Text.CasedTable

/-!
# Letter case

Full case mappings, where one letter may become several.  A capital sigma at the end of a word
lowers to the final form; every other letter is mapped by the tables, whatever its neighbours.
-/

set_option autoImplicit false

namespace Formulary.Text

/-- Maps a character through a table of specials and a table of runs. -/
def mapCase (specials : List (Nat × List Nat)) (runs : List CaseRun) (c : Char) : List Char :=
  match specials.find? (·.1 == c.toNat) with
  | some (_, image) => image.map Char.ofNat
  | none =>
    match runs.findSome? (·.image? c.toNat) with
    | some n => [Char.ofNat n]
    | none => [c]

/-- The lower case of a character out of context. -/
def lowerChar (c : Char) : List Char :=
  mapCase lowerSpecials lowerRuns c

/-- The upper case of a character. -/
def upperChar (c : Char) : List Char :=
  mapCase upperSpecials upperRuns c

/-- Whether a character is a letter with case. -/
def isCased (c : Char) : Bool :=
  inRanges casedRanges c

/-- Whether the nearest character that interrupts a word is a letter with case. -/
def meetsLetter (cs : List Char) : Bool :=
  match cs.dropWhile (inRanges ignorableRanges) with
  | [] => false
  | c :: _ => isCased c

/-- The lower case of a text; `before` holds what precedes it, nearest character first. -/
def lowerFrom (before : List Char) : List Char → List Char
  | [] => []
  | c :: rest =>
    let image :=
      if c.toNat = 0x3A3 then
        if meetsLetter before && !meetsLetter rest then [Char.ofNat 0x3C2] else [Char.ofNat 0x3C3]
      else lowerChar c
    image ++ lowerFrom (c :: before) rest

/-- The lower case of a text. -/
def lower (s : String) : String :=
  String.ofList (lowerFrom [] s.toList)

/-- The upper case of a text. -/
def upper (s : String) : String :=
  String.ofList (s.toList.flatMap upperChar)

end Formulary.Text
