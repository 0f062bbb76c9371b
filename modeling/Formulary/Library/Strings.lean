import Formulary.Library.Arguments
import Formulary.Text.LetterCase
import Formulary.Text.Pattern

/-!
# Functions of strings

Case, white space, searching, splitting and replacing.
-/

set_option autoImplicit false

namespace Formulary.Library

/-- A function from strings to strings. -/
def mapping (function : String) (f : String → String) : Function :=
  unary function fun v => do
    let s ← string function "s" v
    return .string (f s)

/-- Splits a string at a separator, or into its characters at an empty one. -/
def split : Function :=
  binary "split" fun s separator => do
    let text ← string "split" "s" s
    let cut ← string "split" "separator" separator
    let pieces := Text.splitOn cut.toList text.toList
    return .list (pieces.map fun piece => .string (String.ofList piece))

/-- Replaces the first occurrence of a text in a string. -/
def replace : Function :=
  ternary "replace" fun s search replacement => do
    let text ← string "replace" "s" s
    let pattern ← string "replace" "search" search
    let new ← string "replace" "replacement" replacement
    return .string (String.ofList (Text.replaceFirst pattern.toList new.toList text.toList))

/-- Whether a string starts with a text. -/
def startsWith : Function :=
  binary "starts_with" fun s start => do
    let text ← string "starts_with" "s" s
    let pattern ← string "starts_with" "prefix" start
    return .boolean (pattern.toList.isPrefixOf text.toList)

/-- Whether a string ends with a text. -/
def endsWith : Function :=
  binary "ends_with" fun s ending => do
    let text ← string "ends_with" "s" s
    let pattern ← string "ends_with" "suffix" ending
    return .boolean (pattern.toList.isSuffixOf text.toList)

end Formulary.Library
