import Formulary.Value.Basic

/-!
# Scopes

A table of bindings keeps each name once, in the order of first binding.  A scope is a chain of such
tables, innermost first, that ends in a root; names are looked up outward and bound innermost.
-/

set_option autoImplicit false

namespace Formulary

/-- A table of names and their values. -/
structure Bindings where
  entries : List (String × Value)
deriving Inhabited

namespace Bindings

/-- The table without entries. -/
def empty : Bindings := ⟨[]⟩

/-- The value of a name. -/
def find? (b : Bindings) (name : String) : Option Value :=
  b.entries.lookup name

/-- The names of a table. -/
def names (b : Bindings) : List String :=
  b.entries.map (·.1)

/-- Puts a value in the place of a name's entry, or at the end if there is none. -/
def insertInto (name : String) (v : Value) : List (String × Value) → List (String × Value)
  | [] => [(name, v)]
  | (other, w) :: rest =>
    if other = name then (name, v) :: rest else (other, w) :: insertInto name v rest

/-- Binds a name to a value. -/
def insert (b : Bindings) (name : String) (v : Value) : Bindings :=
  ⟨insertInto name v b.entries⟩

end Bindings

/-- A chain of tables: the inner ones, innermost first, and the root. -/
structure Scope where
  inner : List Bindings
  root : Bindings
deriving Inhabited

namespace Scope

/-- The scope with an empty root only. -/
def empty : Scope := ⟨[], .empty⟩

/-- The innermost table. -/
def current (s : Scope) : Bindings :=
  s.inner.headD s.root

/-- The value of a name in the innermost table that has one. -/
def lookup? (s : Scope) (name : String) : Option Value :=
  (s.inner.findSome? (·.find? name)).orElse fun _ => s.root.find? name

/-- Binds a name in the innermost table. -/
def bind (s : Scope) (name : String) (v : Value) : Scope :=
  match s.inner with
  | [] => { s with root := s.root.insert name v }
  | table :: outer => { s with inner := table.insert name v :: outer }

/-- Opens an empty table inside the innermost one. -/
def push (s : Scope) : Scope :=
  { s with inner := .empty :: s.inner }

/-- Closes the innermost table; the root stays. -/
def pop (s : Scope) : Scope :=
  { s with inner := s.inner.tail }

/-- How many tables the chain has. -/
def depth (s : Scope) : Nat :=
  s.inner.length + 1

end Scope

end Formulary
