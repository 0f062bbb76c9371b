import Formulary.Evaluation.Scope
import Formulary.Library.Catalogue
import Formulary.Value.Normal

/-!
# What a host supplies

A host gives a formula functions, variables, limits and, for messages, the source text.  A function
of a host works on a state of the host's own, of any type, and answers each call with a reply.
-/

set_option autoImplicit false

namespace Formulary

/-- How a function of a host answers a call. -/
inductive Reply where
  /-- The function returned a value of the host. -/
  | returned (v : Value)
  /-- The function raised an error of the language. -/
  | raised (e : Error)
  /-- The function failed in some other way, which has a text. -/
  | failed (text : String)

/-- What a name stands for where a function is called.  A function gets its arguments as values and
may change the state of the host; it is taken not to change the lists that are handed to it, so that
the variables of a formula are as they were when the function returns. -/
inductive Callee (σ : Type) where
  | function (run : List Value → σ → Reply × σ)
  | notCallable

/-- What a host supplies for an evaluation. -/
structure Context (σ : Type) where
  callee? : String → Option (Callee σ)
  supplied : List (String × Value)
  limits : Limits
  source : Option String

/-- The reply that a result of a library function amounts to. -/
def Reply.ofResult : Except Refusal Value → Reply
  | .ok v => .returned v
  | .error (.cause c) => .raised ⟨c, .unknown⟩
  | .error (.fault f) => .failed f.message

/-- A function of the library as a function of a host; it leaves the host's state alone. -/
def Library.Function.callee {σ : Type} (f : Library.Function) : Callee σ :=
  .function fun args host => (.ofResult (f args), host)

namespace Context

/-- The functions of a host over those of the library, so that a host can replace any of them. -/
def withLibrary {σ : Type} (clock : Timestamp) (callee? : String → Option (Callee σ)) :
    String → Option (Callee σ) := fun name =>
  match callee? name with
  | some callee => some callee
  | none => (Library.find? clock name).map fun f => Library.Function.callee f

/-- Binds the normal values of the variables in order. -/
def bindAll (table : Bindings) : List (String × Value) → Except EvaluationFault Bindings
  | [] => .ok table
  | (name, v) :: rest => do
    let w ← v.normalize
    bindAll (table.insert name w) rest

/-- The root of the scope in which a formula is evaluated. -/
def globals {σ : Type} (context : Context σ) : Except Error Bindings :=
  (bindAll .empty context.supplied).mapError fun fault => ⟨.evaluation fault, .unknown⟩

/-- The names that the host supplies; assignments to them are overridden. -/
def external {σ : Type} (context : Context σ) : List String :=
  context.supplied.map (·.1)

end Context

end Formulary
