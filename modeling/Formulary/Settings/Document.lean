/-!
# Documents

What a settings file says: scalars, lists and mappings.  A mapping keeps its entries in the order of
the text; of several entries with one name the last counts.
-/

set_option autoImplicit false

namespace Formulary

/-- The content of a settings file. -/
inductive Document where
  | null
  | boolean (b : Bool)
  | integer (n : Int)
  | decimal (x : Float)
  | text (s : String)
  | list (items : List Document)
  | mapping (entries : List (Document × Document))
deriving Inhabited

namespace Document

/-- Whether a document says nothing: null, false, zero, or something without content. -/
def isEmpty : Document → Bool
  | .null => true
  | .boolean b => !b
  | .integer n => n == 0
  | .decimal x => x == 0.0
  | .text s => s.isEmpty
  | .list items => items.isEmpty
  | .mapping entries => entries.isEmpty

/-- Whether a document can be the name of an entry. -/
def isScalar : Document → Bool
  | .list _ | .mapping _ => false
  | _ => true

/-- The text of a document that is one. -/
def text? : Document → Option String
  | .text s => some s
  | _ => none

/-- The integer of a document that is one. -/
def integer? : Document → Option Int
  | .integer n => some n
  | _ => none

/-- The entries of a document that is a mapping. -/
def entries? : Document → Option (List (Document × Document))
  | .mapping entries => some entries
  | _ => none

/-- The document under a name. -/
def get? (entries : List (Document × Document)) (name : String) : Option Document :=
  (entries.reverse.find? fun entry => entry.1.text? == some name).map (·.2)

end Document

end Formulary
