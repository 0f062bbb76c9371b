import Formulary.Event
import Formulary.Limits.Settings
import Formulary.Settings.Yaml
import Formulary.Text.LetterCase

/-!
# Limits from a file

A file whose name ends in `.json` is read as JSON and every other one as YAML.  The settings may
stand under a key `limits` of their own.
-/

set_option autoImplicit false

namespace Formulary

/-- The part of a file name from its last point on; a point at the start or the end does not
count. -/
def fileSuffix (path : String) : String :=
  let (after, before) := path.toList.reverse.span (· ≠ '.')
  match before with
  | '.' :: _ :: _ => if after.isEmpty then "" else String.ofList ('.' :: after.reverse)
  | _ => ""

/-- The format of a file, by its name. -/
def SettingsFormat.ofPath (path : String) : SettingsFormat :=
  if Text.lower (fileSuffix path) = ".json" then .json else .yaml

/-- Writes every line end as a line feed. -/
def unifyLineEnds : List Char → List Char
  | '\r' :: '\n' :: rest => '\n' :: unifyLineEnds rest
  | '\r' :: rest => '\n' :: unifyLineEnds rest
  | c :: rest => c :: unifyLineEnds rest
  | [] => []

/-- The document of a file; YAML that says nothing is an empty mapping. -/
def SettingsFormat.read? (format : SettingsFormat) (content : String) : Option Document :=
  let text := String.ofList (unifyLineEnds content.toList)
  match format with
  | .json => Json.read? text
  | .yaml => (Yaml.read? text).map fun d => if d.isEmpty then .mapping [] else d

namespace Limits

/-- The named entries of a mapping. -/
def namedEntries (entries : List (Document × Document)) : Except SettingsError Entries :=
  entries.mapM fun entry =>
    match entry.1.text? with
    | some name => .ok (name, entry.2.integer?)
    | none => .error .unnamed

/-- The limits that a document sets. -/
def ofDocument (path : String) (d : Document) : Except SettingsError Limits :=
  match d.entries? with
  | none => .error (.notAMapping path)
  | some entries => do
    let settings := ((Document.get? entries "limits").bind Document.entries?).getD entries
    ofEntries (← namedEntries settings)

/-- Reads limits from the content of a file, with the event that says so. -/
def load (path content : String) : Except SettingsError (Limits × Event) := do
  let format := SettingsFormat.ofPath path
  match format.read? content with
  | none => .error (.malformed format)
  | some d => do
    let limits ← ofDocument path d
    return (limits, .limitsLoaded path format.name)

end Limits

end Formulary
