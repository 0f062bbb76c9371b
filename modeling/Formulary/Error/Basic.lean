import Formulary.Error.Cause
import Formulary.Error.Fault
import Formulary.Text.Line

/-!
# Errors

An error is a cause together with the site where it arose.  Operations that know no site fail with a
`Refusal`; whoever knows the site turns it into a `Failure` with `Refusal.atSite`.  An exceeded
limit is a property of the whole formula and keeps no site.
-/

set_option autoImplicit false

namespace Formulary

/-- Where in a source text an error arose; each part may be unknown. -/
structure Site where
  position : Option Int := none
  source : Option String := none
  stop : Option Int := none
deriving DecidableEq, Repr

/-- The site about which nothing is known. -/
def Site.unknown : Site := {}

/-- An error of the language. -/
structure Error where
  cause : Cause
  site : Site := .unknown
deriving DecidableEq, Repr

/-- The wording of an error. -/
def Error.message (e : Error) : String :=
  e.cause.message

/-- Puts a cause at a site; an exceeded limit has none. -/
def Cause.atSite (cause : Cause) (site : Site) : Error :=
  match cause with
  | .limitExceeded .. => ⟨cause, .unknown⟩
  | _ => ⟨cause, site⟩

/-- The way in which reading or evaluating a formula fails. -/
inductive Failure where
  | error (e : Error)
  | fault (f : Fault)
deriving DecidableEq, Repr

/-- The way in which an operation fails that knows no site. -/
inductive Refusal where
  | cause (c : Cause)
  | fault (f : Fault)
deriving DecidableEq, Repr

/-- Puts a refusal at a site. -/
def Refusal.atSite (site : Site) : Refusal → Failure
  | .cause c => .error (c.atSite site)
  | .fault f => .fault f

/-- Runs an operation on behalf of a site. -/
def atSite {α : Type} (site : Site) (result : Except Refusal α) : Except Failure α :=
  match result with
  | .ok a => .ok a
  | .error r => .error (r.atSite site)

/-- The message of an error with the line it arose in and a pointer below, where both the source and
the position are known. -/
def Error.excerpt (e : Error) : String :=
  match e.site.source, e.site.position with
  | some source, some position =>
    if position < 0 then e.message
    else
      let text := source.toList
      let offset := position.toNat
      e.message ++ "\n  " ++ String.ofList (Text.lineAt text offset) ++ "\n  "
        ++ String.ofList (List.replicate (Text.indentAt text offset) ' ') ++ "^"
  | _, _ => e.message

/-- An error as an editor shows it: a message and the part of the source to mark. -/
structure Diagnostic where
  message : String
  start : Int
  stop : Int
deriving DecidableEq, Repr

/-- The part of the source to mark starts at the position, or at the beginning of the source if
there is none, and never ends before it starts. -/
def Error.diagnostic (e : Error) : Diagnostic :=
  let start := match e.site.position with
    | some position => if 0 ≤ position then position else 0
    | none => 0
  let stop := match e.site.stop with
    | some stop => if start ≤ stop then stop else start
    | none => start
  ⟨e.message, start, stop⟩

end Formulary
