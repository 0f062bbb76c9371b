import Formulary.Evaluation.Evaluator
import Formulary.Expr.Parser

/-!
# Evaluating formulas

The entry points for hosts: a formula, given as text or as a tree, is evaluated in a context, and
the host gets its value, its variables, or a record of how the attempt went.
-/

set_option autoImplicit false

namespace Formulary

/-- A formula as a host gives it. -/
inductive Formula where
  | text (source : String)
  | tree (e : Expr)

/-- How an evaluation ended, and the state it left if it began at all. -/
structure Evaluation (σ : Type) where
  result : Except Failure Value
  state : Option (State σ)

namespace Evaluation

variable {σ : Type}

/-- The tree of a formula and the context to evaluate it in.  The text of a formula serves as source
for messages if the context has none. -/
def prepare (formula : Formula) (context : Context σ) : Except Failure (Expr × Context σ) :=
  match formula with
  | .tree e => .ok (e, context)
  | .text source => do
    let e ← parse source context.limits
    return (e, { context with source := context.source.orElse fun _ => some source })

/-- Evaluates a tree in a state. -/
def continueWith (context : Context σ) (e : Expr) (s : State σ) : Except Failure Value × State σ :=
  match e.eval context s with
  | .ok v after => (.ok v, after)
  | .error failure after => (.error failure, after)

/-- Evaluates a formula. -/
def run (formula : Formula) (context : Context σ) (host : σ) : Evaluation σ :=
  match prepare formula context with
  | .error failure => ⟨.error failure, none⟩
  | .ok (e, context) =>
    match Evaluator.begin context host with
    | .error e => ⟨.error (.error e), none⟩
    | .ok s =>
      let (result, after) := continueWith context e s
      ⟨result, some after⟩

/-- The calls made, in order. -/
def calls (evaluation : Evaluation σ) : List Call :=
  (evaluation.state.map (·.calls.reverse)).getD []

/-- The events met, in order. -/
def events (evaluation : Evaluation σ) : List Event :=
  (evaluation.state.map (·.events.reverse)).getD []

/-- The top-level bindings at the end of evaluation, or at the failure. -/
def bindings (evaluation : Evaluation σ) : Bindings :=
  (evaluation.state.map (·.scope.root)).getD .empty

end Evaluation

/-- The record of an attempt to evaluate a formula. -/
structure Attempt where
  value : Option Value
  error : Option Error
  bindings : Bindings

/-- Evaluates a formula to a record of how it went; only a fault outside the language escapes. -/
def Evaluation.attempt {σ : Type} (evaluation : Evaluation σ) : Except Fault Attempt :=
  match evaluation.result with
  | .ok v => .ok ⟨some v, none, evaluation.bindings⟩
  | .error (.error e) => .ok ⟨none, some e, evaluation.bindings⟩
  | .error (.fault f) => .error f

end Formulary
