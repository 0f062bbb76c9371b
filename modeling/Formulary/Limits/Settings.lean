import Formulary.Limits.Basic
import Formulary.Value.Basic

/-!
# Limits from settings

A host sets limits by name.  What it does not set keeps the standard bound; unknown names are
refused first, then bounds that are no positive integers.
-/

set_option autoImplicit false

namespace Formulary

/-- How a settings file is written. -/
inductive SettingsFormat where
  | json
  | yaml
deriving DecidableEq, Repr

/-- The name of a format. -/
def SettingsFormat.name : SettingsFormat → String
  | .json => "json"
  | .yaml => "yaml"

/-- Why settings are refused. -/
inductive SettingsError where
  /-- There are no limits of these names. -/
  | unknown (names : List String)
  /-- A name is not even a text. -/
  | unnamed
  /-- A bound is not a positive integer. -/
  | notPositive (name : String)
  /-- A file is not written in its format. -/
  | malformed (format : SettingsFormat)
  /-- A file holds something else than settings. -/
  | notAMapping (path : String)
deriving DecidableEq, Repr

/-- The wording of a refusal. -/
def SettingsError.message : SettingsError → String
  | .unknown names => "Unknown expression limit(s): " ++ ", ".intercalate names
  | .unnamed => "An expression limit is not named by a text"
  | .notPositive name => "Expression limit " ++ name ++ " must be a positive integer"
  | .malformed format => "Expression limits file is no " ++ format.name
  | .notAMapping path => "Expression limits file must contain a mapping: " ++ path

/-- The integer that a host's value sets. -/
def Value.setting? : Value → Option Int
  | .integer n => some n
  | _ => none

namespace Limits

/-- Settings by name; the integer is missing if something else is set. -/
abbrev Entries := List (String × Option Int)

/-- The distinct names of entries that are no limits, sorted by code point. -/
def unknownNames (entries : Entries) : List String :=
  (((entries.map (·.1)).filter fun name => (LimitKind.ofName? name).isNone).eraseDups).mergeSort
    (fun a b => decide (a ≤ b))

/-- Sets one limit. -/
def apply (limits : Limits) (entry : String × Option Int) : Except SettingsError Limits :=
  match LimitKind.ofName? entry.1, entry.2 with
  | none, _ => .error (.unknown [entry.1])
  | some _, none => .error (.notPositive entry.1)
  | some kind, some value =>
    if 0 < value then .ok (limits.set kind value) else .error (.notPositive entry.1)

/-- Of several entries of one name the last counts, in the place of the first. -/
def settle (entries : Entries) : Entries :=
  (entries.map (·.1)).eraseDups.map fun name =>
    (name, (entries.reverse.lookup name).join)

/-- The limits that entries set. -/
def ofEntries (entries : Entries) : Except SettingsError Limits :=
  match unknownNames entries with
  | [] => (settle entries).foldlM apply standard
  | names => .error (.unknown names)

/-- The limits that a host's values set. -/
def ofValues (entries : List (String × Value)) : Except SettingsError Limits :=
  ofEntries (entries.map fun entry => (entry.1, entry.2.setting?))

end Limits

end Formulary
