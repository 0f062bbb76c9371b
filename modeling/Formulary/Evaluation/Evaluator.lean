import Formulary.Evaluation.Context
import Formulary.Event

/-!
# Evaluation

A formula is evaluated in a state: the scope, the host's own state, and logs of the calls made and
of the events met.  The state is kept on failure as well, so that what happened before a failure can
be seen, and evaluation can go on with another formula.

Rules of binding:

* A name is looked up through the chain of scopes.
* A name that the host supplies keeps the host's value: an assignment to it binds that value, and
  its right side is not evaluated.
* Each element of a comprehension is evaluated in a fresh scope, which is closed afterwards.
* Both operands of `&&` and `||` are always evaluated.

Main definitions: `Expr.eval` evaluates a tree, `Evaluator.begin` makes the first state of a
context.
-/

set_option autoImplicit false

namespace Formulary

/-- A call of a function with its arguments. -/
structure Call where
  name : String
  arguments : List Value

/-- The state of an evaluation; both logs have their latest entry first. -/
structure State (σ : Type) where
  scope : Scope
  host : σ
  calls : List Call
  events : List Event

/-- A computation on the state of an evaluation, which is kept on failure. -/
abbrev Run (σ : Type) := EStateM Failure (State σ)

namespace Run

variable {σ α : Type}

/-- Puts the outcome of an operation at a site. -/
def lift (site : Site) (result : Except Refusal α) : Run σ α :=
  match result with
  | .ok a => pure a
  | .error r => throw (r.atSite site)

/-- Fails with a cause at a site. -/
def fail (cause : Cause) (site : Site) : Run σ α :=
  throw (.error (cause.atSite site))

/-- Fails with a fault. -/
def fault (f : Fault) : Run σ α :=
  throw (.fault f)

/-- Logs an event. -/
def emit (event : Event) : Run σ Unit :=
  modify fun s => { s with events := event :: s.events }

/-- Binds a name in the current scope. -/
def bind (name : String) (v : Value) : Run σ Unit :=
  modify fun s => { s with scope := s.scope.bind name v }

/-- Runs a computation in a fresh scope with one name bound, and closes that scope afterwards, also
when the computation fails. -/
def inScope (name : String) (v : Value) (run : Run σ α) : Run σ α := fun s =>
  match run { s with scope := s.scope.push.bind name v } with
  | .ok a after => .ok a { after with scope := after.scope.pop }
  | .error failure after => .error failure { after with scope := after.scope.pop }

/-- Runs a step for each item and collects what the steps yield; `found` holds what they have
yielded so far, latest first. -/
def collect (step : Value → Run σ (Option Value)) (found : List Value) :
    List Value → Run σ (List Value)
  | [] => pure found.reverse
  | item :: items => do
    let yielded ← step item
    collect step (yielded.toList ++ found) items

end Run

/-- The site of a span. -/
def Context.siteOf {σ : Type} (context : Context σ) (span : Span) : Site :=
  ⟨some span.start, context.source, some span.stop⟩

/-- Gives an error that knows no position the site of a call. -/
def Error.locatedAt (e : Error) (site : Site) : Error :=
  match e.site.position with
  | some _ => e
  | none => ⟨e.cause, site⟩

/-- Calls a function of the host and takes its reply into the language. -/
def Run.invoke {σ : Type} (site : Site) (name : String) (run : List Value → σ → Reply × σ)
    (args : List Value) : Run σ Value := do
  let s ← get
  let (reply, host) := run args s.host
  set { s with host := host, calls := ⟨name, args⟩ :: s.calls }
  match reply with
  | .raised e => throw (.error (e.locatedAt site))
  | .failed text => do
    Run.emit (.hostFunctionFailed name text)
    Run.fail (.functionFailed name text) site
  | .returned v =>
    match v.normalize with
    | .ok w => pure w
    | .error fault =>
      Run.fail (.functionFailed name ("returned unsupported value (" ++ fault.message ++ ")")) site

/-- The items that a comprehension runs over: the elements of an array, or the characters of a
string. -/
def Value.items (v : Value) : Except Refusal (List Value) :=
  match v.view with
  | .string s => .ok (s.toList.map fun c => .string c.toString)
  | .array s => Value.orFault s.toList
  | _ => Value.mismatch "array or string" v (some "For expression")

namespace Expr

variable {σ : Type}

mutual

/-- Evaluates a tree. -/
def eval (context : Context σ) : Expr → Run σ Value
  | .program _ statements => evalLast context (.number 0.0) statements
  | .number _ value => pure (.number value)
  | .string _ value => pure (.string value)
  | .boolean _ value => pure (.boolean value)
  | .array _ elements => do
    let values ← evalAll context elements
    Run.lift .unknown (Value.withinLimit context.limits .arrayLength values.length)
    pure (.list values)
  | .identifier span name => do
    match (← get).scope.lookup? name with
    | some v => pure v
    | none => Run.fail (.undefinedVariable name) (context.siteOf span)
  | .binary span operator left right => do
    let a ← eval context left
    let b ← eval context right
    Run.lift (context.siteOf span) (Value.applyBinary context.limits operator a b)
  | .unary span operator argument => do
    let a ← eval context argument
    Run.lift (context.siteOf span) (Value.applyUnary operator a)
  | .call span name arguments =>
    match context.callee? name with
    | none => Run.fail (.undefinedFunction name false) (context.siteOf span)
    | some .notCallable => Run.fail (.undefinedFunction name true) (context.siteOf span)
    | some (.function run) => do
      let args ← evalAll context arguments
      Run.invoke (context.siteOf span) name run args
  | .assign _ name value => do
    if context.external.contains name then
      Run.emit (.externalOverrideApplied name)
      let v := ((← get).scope.root.find? name).getD .null
      Run.bind name v
      pure v
    else
      let v ← eval context value
      Run.bind name v
      pure v
  | .conditional span condition consequent alternate => do
    let c ← eval context condition
    let holds ← Run.lift (context.siteOf span) c.truth
    if holds then eval context consequent else eval context alternate
  | .comprehension span binder iterable none body => do
    let source ← eval context iterable
    let items ← Run.lift (context.siteOf span) source.items
    let results ← Run.collect (fun item => Run.inScope binder item (do
      let v ← eval context body
      pure (some v))) [] items
    Run.lift .unknown (Value.withinLimit context.limits .arrayLength results.length)
    pure (.list results)
  | .comprehension span binder iterable (some guard) body => do
    let source ← eval context iterable
    let items ← Run.lift (context.siteOf span) source.items
    let results ← Run.collect (fun item => Run.inScope binder item (do
      let g ← eval context guard
      let holds ← Run.lift (context.siteOf guard.span) g.truth
      if holds then
        let v ← eval context body
        pure (some v)
      else pure none)) [] items
    Run.lift .unknown (Value.withinLimit context.limits .arrayLength results.length)
    pure (.list results)
  | .index span object offset => do
    let a ← eval context object
    let b ← eval context offset
    Run.lift (context.siteOf span) (a.element b)
  | .range span first last inclusive => do
    let a ← eval context first
    let b ← eval context last
    Run.lift (context.siteOf span) (Value.buildRange context.limits a b inclusive)
  | .foreign item => Run.fault item.fault

/-- Evaluates several trees in order. -/
def evalAll (context : Context σ) : List Expr → Run σ (List Value)
  | [] => pure []
  | e :: es => do
    let v ← eval context e
    let vs ← evalAll context es
    pure (v :: vs)

/-- Evaluates statements in order and returns the value of the last one; `result` is the value so
far. -/
def evalLast (context : Context σ) (result : Value) : List Expr → Run σ Value
  | [] => pure result
  | e :: es => do
    let v ← eval context e
    evalLast context v es

end

end Expr

namespace Evaluator

variable {σ : Type}

/-- The state in which evaluation begins. -/
def begin (context : Context σ) (host : σ) : Except Error (State σ) :=
  context.globals.map fun table => ⟨⟨[], table⟩, host, [], []⟩

end Evaluator

end Formulary
