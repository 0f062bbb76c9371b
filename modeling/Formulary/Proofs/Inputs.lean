import Formulary.Proofs.Assigned
import Formulary.Proofs.Course
import Formulary.Proofs.Scoping

/-!
# Inputs of a formula

The inputs of a formula are the names that it assigns at the top from values that read no variable
of their surroundings (`Expr.readsOutside`).  Evaluating such a value comes to the same wherever it
is done: with the same functions, limits and state of the host it has the same value, or fails for
the same reason, after the same calls (`Expr.inputs_independent`).  A variable is found undefined
only by a function of the host.

Two evaluations of one tree run side by side in states that have nothing in common but the state of
the host and the names that comprehensions around the tree have bound (`State.Paired`).
`Run.Mirrors` says that they come to the same and are paired again; the walk that looks for outer
names has the same set of bound names at each node.
-/

set_option autoImplicit false

namespace Formulary

variable {σ α β : Type}

/-- A failure without its site. -/
def Failure.refusal : Failure → Refusal
  | .error e => .cause e.cause
  | .fault f => .fault f

/-- A refusal that is placed at a site is itself when the site is forgotten. -/
@[simp] theorem Refusal.refusal_atSite (refusal : Refusal) (site : Site) :
    (refusal.atSite site).refusal = refusal := by
  cases refusal with
  | fault f => rfl
  | cause c => cases c <;> rfl

/-- Locating an error keeps its cause. -/
@[simp] theorem Error.cause_locatedAt (e : Error) (site : Site) :
    (e.locatedAt site).cause = e.cause := by
  unfold locatedAt
  cases e.site.position <;> rfl

/-! ## Operations on values -/

/-- An operation does not look up a variable in vain. -/
def NoLookup : Except Refusal α → Prop
  | .error (.cause (.undefinedVariable _)) => False
  | _ => True

namespace NoLookup

/-- An operation does not look up in vain if its two steps do not. -/
theorem bind {x : Except Refusal α} {k : α → Except Refusal β} (hx : NoLookup x)
    (hk : ∀ a, NoLookup (k a)) :
    NoLookup (x >>= k) := by
  cases x with
  | ok a => exact hk a
  | error refusal =>
    cases refusal with
    | fault f => trivial
    | cause c =>
      cases c with
      | undefinedVariable name => exact hx.elim
      | _ => trivial

/-- A fault is no lookup in vain. -/
theorem orFault (result : Except Fault α) : NoLookup (Value.orFault result) := by
  cases result <;> trivial

/-- A check of a limit does not look up in vain. -/
theorem withinLimit (limits : Limits) (kind : LimitKind) (amount : Int) :
    NoLookup (Value.withinLimit limits kind amount) := by
  unfold Value.withinLimit Limits.check
  split <;> trivial

/-- The truth of a value does not look up in vain. -/
theorem truth (v : Value) : NoLookup v.truth := by
  unfold Value.truth
  split
  · trivial
  · split
    · trivial
    · exact (orFault _).bind fun _ => trivial
  · trivial

/-- An arithmetic operation on numbers does not look up in vain. -/
theorem arithmetic (f : Float → Float → Float) (a b : Numeric) :
    NoLookup (Value.arithmetic f a b) :=
  (orFault _).bind fun _ => (orFault _).bind fun _ => trivial

/-- Shifting a timestamp does not look up in vain. -/
theorem shift (t : Timestamp) (direction : Int) (n : Numeric) :
    NoLookup (Value.shift t direction n) := by
  refine (orFault _).bind fun millis => ?_
  cases millis <;> trivial

/-- A demand of two numbers does not look up in vain. -/
theorem bothNumbers (operator : BinaryOp) (v w : Value) :
    NoLookup (Value.bothNumbers operator v w) := by
  unfold Value.bothNumbers
  split <;> trivial

/-- An arithmetic operation on two values that have to be numbers does not look up in vain. -/
theorem numbers (operator : BinaryOp) (f : Float → Float → Float) (v w : Value) : NoLookup (do
    let (a, b) ← Value.bothNumbers operator v w
    Value.arithmetic f a b) :=
  (bothNumbers operator v w).bind fun _ => arithmetic f _ _

/-- Addition does not look up in vain. -/
theorem add (limits : Limits) (v w : Value) : NoLookup (Value.add limits v w) := by
  unfold Value.add
  split
  · exact arithmetic _ _ _
  · trivial
  · refine (orFault _).bind fun _ => (orFault _).bind fun _ => (withinLimit _ _ _).bind fun _ => ?_
    exact (orFault _).bind fun _ => (orFault _).bind fun _ => trivial
  · exact shift _ _ _
  · exact shift _ _ _
  all_goals trivial

/-- Subtraction does not look up in vain. -/
theorem subtract (v w : Value) : NoLookup (Value.subtract v w) := by
  unfold Value.subtract
  split
  · exact (orFault _).bind fun _ => trivial
  · exact shift _ _ _
  · trivial
  · exact numbers _ _ _ _

/-- Division does not look up in vain. -/
theorem divideBy (operator : BinaryOp) (f : Float → Float → Float) (v w : Value) :
    NoLookup (Value.divideBy operator f v w) := by
  refine (bothNumbers operator v w).bind fun p => ?_
  dsimp only
  split
  · trivial
  · exact arithmetic _ _ _

/-- A comparison does not look up in vain. -/
theorem compare (operator : BinaryOp) (comparison : Value.Comparison) (v w : Value) :
    NoLookup (Value.compare operator comparison v w) := by
  unfold Value.compare
  split <;> trivial

/-- A binary operation does not look up in vain. -/
theorem applyBinary (limits : Limits) (operator : BinaryOp) (v w : Value) :
    NoLookup (Value.applyBinary limits operator v w) := by
  cases operator with
  | add => exact add limits v w
  | subtract => exact subtract v w
  | multiply | power => exact numbers _ _ v w
  | divide | modulo => exact divideBy _ _ v w
  | equal | notEqual =>
    unfold Value.applyBinary
    cases v.equal w <;> trivial
  | less | greater | lessEqual | greaterEqual => exact compare _ _ v w
  | and | or => exact (truth v).bind fun _ => (truth w).bind fun _ => trivial
  | other symbol => trivial

/-- A unary operation does not look up in vain. -/
theorem applyUnary (operator : UnaryOp) (v : Value) : NoLookup (Value.applyUnary operator v) := by
  cases operator with
  | negate =>
    unfold Value.applyUnary
    cases v.numeric? with
    | none => trivial
    | some n => exact (orFault _).bind fun _ => trivial
  | not => exact (truth v).bind fun _ => trivial
  | other symbol => trivial

/-- A demand of a whole number does not look up in vain. -/
theorem demandWhole (v : Value) (context : String) : NoLookup (v.demandWhole context) := by
  unfold Value.demandWhole
  cases v.numeric? with
  | none => trivial
  | some n =>
    refine (orFault _).bind fun whole => ?_
    cases whole <;> trivial

/-- Locating a position does not look up in vain. -/
theorem locate (requested : Int) (length : Nat) : NoLookup (Value.locate requested length) := by
  unfold Value.locate
  dsimp only
  generalize (if requested < 0 then requested + (length : Int) else requested) = resolved
  split <;> trivial

/-- Taking an element does not look up in vain. -/
theorem element (v w : Value) : NoLookup (v.element w) := by
  unfold Value.element
  split
  · exact (demandWhole _ _).bind fun _ => (locate _ _).bind fun _ => trivial
  · exact (demandWhole _ _).bind fun _ => (locate _ _).bind fun _ => trivial
  · exact (demandWhole _ _).bind fun _ => (orFault _).bind fun _ =>
      (locate _ _).bind fun _ => orFault _
  · trivial

/-- Building a range does not look up in vain. -/
theorem buildRange (limits : Limits) (v w : Value) (inclusive : Bool) :
    NoLookup (Value.buildRange limits v w inclusive) := by
  refine (demandWhole _ _).bind fun first => (demandWhole _ _).bind fun last => ?_
  by_cases hinverted : last < first
  · rw [if_pos hinverted]
    trivial
  · rw [if_neg hinverted]
    exact (withinLimit _ _ _).bind fun _ => trivial

/-- Listing the elements of a value does not look up in vain. -/
theorem items (v : Value) : NoLookup v.items := by
  unfold Value.items
  split
  · trivial
  · exact orFault _
  · trivial

end NoLookup

/-! ## States side by side -/

/-- Two states with the same state of the host, in which the bound names have the same values, and
to which the same calls have led from two logs. -/
structure State.Paired (bound : List String) (log log' made : List Call)
    (s t : State σ) : Prop where
  host : s.host = t.host
  calls : s.calls = made ++ log
  calls' : t.calls = made ++ log'
  lookup? : ∀ name ∈ bound, ∃ v, s.scope.lookup? name = some v ∧ t.scope.lookup? name = some v

/-- Binding a name to one value in both of two paired states adds it to the bound ones. -/
theorem State.Paired.bind {bound : List String} {log log' made : List Call} {s t : State σ}
    (h : s.Paired bound log log' made t) (name : String) (v : Value) :
    State.Paired (name :: bound) log log' made { s with scope := s.scope.bind name v }
      { t with scope := t.scope.bind name v } where
  host := h.host
  calls := h.calls
  calls' := h.calls'
  lookup? := by
    intro other hother
    simp only [Scope.lookup?_bind]
    by_cases hname : other = name
    · exact ⟨v, if_pos hname, if_pos hname⟩
    · simp only [if_neg hname]
      exact h.lookup? other ((List.mem_cons.mp hother).resolve_left hname)

/-- New tables keep two states paired. -/
theorem State.Paired.push {bound : List String} {log log' made : List Call} {s t : State σ}
    (h : s.Paired bound log log' made t) :
    State.Paired bound log log' made { s with scope := s.scope.push }
      { t with scope := t.scope.push } :=
  { h with
    lookup? := fun name hname => by simpa only [Scope.lookup?_push] using h.lookup? name hname }

/-- The latest of some calls was one of a function that raised an error with a given cause and left
the host in a given state. -/
def Cause.RaisedBy (callee? : String → Option (Callee σ)) (made : List Call) (host : σ)
    (cause : Cause) : Prop :=
  ∃ call earlier run before e, made = call :: earlier ∧ callee? call.name = some (.function run) ∧
    run call.arguments before = (.raised e, host) ∧ e.cause = cause

namespace Run

/-- The same value, or failures that differ in their sites at most, in paired states; and if the
failure is that a variable is not defined, then it was raised by the function that was called
last. -/
def Mirrored (callee? : String → Option (Callee σ)) (bound : List String) (log log' : List Call) :
    EStateM.Result Failure (State σ) α → EStateM.Result Failure (State σ) α → Prop
  | .ok a s, .ok b t => a = b ∧ ∃ made, s.Paired bound log log' made t
  | .error failure s, .error failure' t => failure.refusal = failure'.refusal ∧
      ∃ made, s.Paired bound log log' made t ∧
        ∀ name, failure.refusal = .cause (.undefinedVariable name) →
          Cause.RaisedBy callee? made s.host (.undefinedVariable name)
  | _, _ => False

/-- Two runs come to the same from paired states. -/
def Mirrors (callee? : String → Option (Callee σ)) (bound : List String) (log log' : List Call)
    (x y : Run σ α) :
    Prop :=
  ∀ s t made, s.Paired bound log log' made t → Mirrored callee? bound log log' (x s) (y t)

namespace Mirrors

variable {callee? : String → Option (Callee σ)} {bound : List String} {log log' : List Call}

/-- Returning one value mirrors itself. -/
theorem pure (a : α) : Mirrors callee? bound log log' (pure a) (pure a) :=
  fun _ _ made hst => ⟨rfl, made, hst⟩

/-- Failures that differ in their sites at most mirror one another if they are no lookups in
vain. -/
theorem throw {failure failure' : Failure} (hsame : failure.refusal = failure'.refusal)
    (hlookup : ∀ name, failure.refusal ≠ .cause (.undefinedVariable name)) :
    Mirrors callee? bound log log' (throw failure : Run σ α) (throw failure') :=
  fun _ _ made hst => ⟨hsame, made, hst, fun name hname => absurd hname (hlookup name)⟩

/-- One operation mirrors itself at two sites if it does not look up in vain. -/
theorem lift {result : Except Refusal α} (h : NoLookup result) (site site' : Site) :
    Mirrors callee? bound log log' (Run.lift site result) (Run.lift site' result) := by
  cases result with
  | ok a => exact .pure a
  | error refusal =>
    refine .throw (by simp) fun name => ?_
    rw [Refusal.refusal_atSite]
    rintro rfl
    exact h

/-- Runs that mirror one another can be followed by runs that mirror one another. -/
theorem bind {x y : Run σ α} {k l : α → Run σ β} (hxy : Mirrors callee? bound log log' x y)
    (hkl : ∀ a, Mirrors callee? bound log log' (k a) (l a)) :
    Mirrors callee? bound log log' (x >>= k) (y >>= l) := by
  intro s t made hst
  have hfirst := hxy s t made hst
  cases hx : x s with
  | ok a s' =>
    cases hy : y t with
    | ok b t' =>
      rw [hx, hy] at hfirst
      obtain ⟨rfl, made', hst'⟩ := hfirst
      rw [bind_of_ok hx, bind_of_ok hy]
      exact hkl a s' t' made' hst'
    | error =>
      rw [hx, hy] at hfirst
      exact hfirst.elim
  | error failure s' =>
    cases hy : y t with
    | ok =>
      rw [hx, hy] at hfirst
      exact hfirst.elim
    | error failure' t' =>
      rw [hx, hy] at hfirst
      rw [bind_of_error hx, bind_of_error hy]
      exact hfirst

/-- Binding a name to one value mirrors itself. -/
theorem bindName (name : String) (v : Value) :
    Mirrors callee? bound log log' (Run.bind name v) (Run.bind name v) := by
  intro s t made hst
  refine ⟨rfl, made, { hst with lookup? := fun other hother => ?_ }⟩
  exact (hst.bind name v).lookup? other (List.mem_cons_of_mem _ hother)

/-- Runs mirror one another in scopes that are restored afterwards if they do with the name
bound. -/
theorem restoring (name : String) (v : Value) {x y : Run σ α}
    (h : Mirrors callee? (name :: bound) log log' x y) :
    Mirrors callee? bound log log' (Run.restoring name v x) (Run.restoring name v y) := by
  intro s t made hst
  have hinside := h _ _ made (hst.push.bind name v)
  unfold Run.restoring
  cases hx : x { s with scope := s.scope.push.bind name v } <;>
    cases hy : y { t with scope := t.scope.push.bind name v } <;> rw [hx, hy] at hinside
  case ok.ok a s' b t' =>
    obtain ⟨hvalue, made', hst'⟩ := hinside
    exact ⟨hvalue, made', { hst' with lookup? := hst.lookup? }⟩
  case error.error failure s' failure' t' =>
    obtain ⟨hsame, made', hst', hraised⟩ := hinside
    exact ⟨hsame, made', { hst' with lookup? := hst.lookup? }, hraised⟩
  all_goals exact hinside.elim

/-- Loops over the same items mirror one another if their turns do. -/
theorem collect {step step' : Value → Run σ (Option Value)}
    (h : ∀ item, Mirrors callee? bound log log' (step item) (step' item))
    (items found : List Value) :
    Mirrors callee? bound log log' (Run.collect step found items)
      (Run.collect step' found items) := by
  induction items generalizing found with
  | nil => exact .pure _
  | cons item items ih => exact (h item).bind fun yielded => ih _

/-- A function of the host is called with the same arguments in the same state of the host. -/
theorem invoke {name : String} {run : List Value → σ → Reply × σ}
    (hrun : callee? name = some (.function run)) (site site' : Site) (args : List Value) :
    Mirrors callee? bound log log' (Run.invoke site name run args)
      (Run.invoke site' name run args) := by
  intro s t made hst
  rw [invoke_apply, invoke_apply, ← hst.host]
  have hcalled : State.Paired bound log log' (⟨name, args⟩ :: made)
      { s with host := (run args s.host).2, calls := ⟨name, args⟩ :: s.calls }
      { t with host := (run args s.host).2, calls := ⟨name, args⟩ :: t.calls } :=
    ⟨rfl, congrArg _ hst.calls, congrArg _ hst.calls', hst.lookup?⟩
  cases hreply : (run args s.host).1 with
  | raised e =>
    refine ⟨?_, _, hcalled, fun undefined hundefined => ?_⟩
    · simp [Failure.refusal]
    · refine ⟨_, made, run, s.host, e, rfl, hrun, Prod.ext hreply rfl, ?_⟩
      rw [← e.cause_locatedAt site]
      exact Refusal.cause.inj hundefined
  | failed text =>
    exact ⟨rfl, _, ⟨rfl, hcalled.calls, hcalled.calls', hcalled.lookup?⟩, by rintro _ ⟨⟩⟩
  | returned v =>
    unfold answer
    cases hv : v.normalize with
    | ok w => simpa only [hv] using ⟨rfl, _, hcalled⟩
    | error fault => simpa only [hv] using ⟨rfl, _, hcalled, by rintro _ ⟨⟩⟩

end Mirrors

end Run

/-- The functions and limits of a context, with other variables and another source. -/
def Context.elsewhere (context : Context σ) (supplied : List (String × Value))
    (source : Option String) :
    Context σ :=
  { context with supplied := supplied, source := source }

namespace Expr

open Run

/-! ## Values that read no outer name -/

/-- A test that stops at the first truth comes to falsehood only if both its parts do. -/
theorem ok_false_of_unless {x y : Except Fault Bool}
    (h : (do
      if ← x then return true
      y) = .ok false) : x = .ok false ∧ y = .ok false := by
  cases x with
  | error fault => cases h
  | ok outside =>
    cases outside with
    | true => cases h
    | false => exact ⟨rfl, h⟩

/-- If the test over a list finds no tree that reads an outer name, each tree is found to read
none. -/
theorem readsOutside_of_mem {bound : List String} {es : List Expr}
    (h : anyReadsOutside bound es = .ok false) :
    ∀ e ∈ es, e.readsOutside bound = .ok false := by
  induction es with
  | nil => exact nofun
  | cons e es ih =>
    rw [anyReadsOutside] at h
    obtain ⟨hfirst, hrest⟩ := ok_false_of_unless h
    exact List.forall_mem_cons.mpr ⟨hfirst, ih hrest⟩

/-- A comprehension reads no outer name if its iterable reads none, and its guard and its body none
but its own. -/
theorem readsOutside_comprehension {bound : List String} {span : Span} {binder : String}
    {iterable body : Expr} {guard : Option Expr}
    (h : (Expr.comprehension span binder iterable guard body).readsOutside bound = .ok false) :
    iterable.readsOutside bound = .ok false ∧
    (∀ g, guard = some g → g.readsOutside (binder :: bound) = .ok false) ∧
      body.readsOutside (binder :: bound) = .ok false := by
  cases guard with
  | none =>
    rw [readsOutside] at h
    obtain ⟨hiterable, hbody⟩ := ok_false_of_unless h
    exact ⟨hiterable, nofun, hbody⟩
  | some guard =>
    rw [readsOutside] at h
    obtain ⟨hiterable, hrest⟩ := ok_false_of_unless h
    obtain ⟨hguard, hbody⟩ := ok_false_of_unless hrest
    refine ⟨hiterable, ?_, hbody⟩
    rintro g ⟨⟩
    exact hguard

/-- A node assigns no name of the host. -/
def AssignsOwn (external : String → Prop) (node : Expr) : Prop :=
  ∀ name, node.target? = some name → ¬ external name

/-- If no assigned name is one of the host, no node assigns one. -/
theorem assignsOwn_of_assignedNames {e : Expr} {external : String → Prop}
    (h : ∀ name ∈ e.assignedNames, ¬ external name) : e.Everywhere (AssignsOwn external) :=
  fun node hnode name hname =>
    h name (List.mem_eraseDups.mpr (List.mem_filterMap.mpr ⟨node, hnode, hname⟩))

section Mirroring

variable {context : Context σ} {supplied : List (String × Value)} {source : Option String}
  {bound : List String} {log log' : List Call}

/-- Lists of parts mirror one another if the parts do. -/
theorem evalAll_mirrors {es : List Expr}
    (h : ∀ e ∈ es,
      Mirrors context.callee? bound log log' (e.eval context)
        (e.eval (context.elsewhere supplied source))) :
    Mirrors context.callee? bound log log' (evalAll context es)
    (evalAll (context.elsewhere supplied source) es) := by
  induction es with
  | nil => exact .pure []
  | cons e es ih =>
    rw [evalAll, evalAll]
    refine (h e List.mem_cons_self).bind fun v => ?_
    exact (ih fun e he => h e (List.mem_cons_of_mem _ he)).bind fun vs => .pure (v :: vs)

/-- Calls mirror one another if their arguments do. -/
theorem call_mirrors (span : Span) (name : String) {es : List Expr}
    (h : ∀ e ∈ es,
      Mirrors context.callee? bound log log' (e.eval context)
        (e.eval (context.elsewhere supplied source))) :
    Mirrors context.callee? bound log log' ((Expr.call span name es).eval context)
      ((Expr.call span name es).eval (context.elsewhere supplied source)) := by
  have hcallee : (context.elsewhere supplied source).callee? name = context.callee? name := rfl
  rw [eval, eval, hcallee]
  cases hname : context.callee? name with
  | none => exact .throw rfl (by rintro _ ⟨⟩)
  | some callee =>
    cases callee with
    | notCallable => exact .throw rfl (by rintro _ ⟨⟩)
    | function run => exact (evalAll_mirrors h).bind fun args => .invoke hname _ _ args

/-- An operation on the values of two trees. -/
theorem pair_mirrors {x y : Expr}
    (hx : Mirrors context.callee? bound log log' (x.eval context)
      (x.eval (context.elsewhere supplied source)))
    (hy : Mirrors context.callee? bound log log' (y.eval context)
      (y.eval (context.elsewhere supplied source)))
    {operation : Value → Value → Except Refusal Value} (h : ∀ a b, NoLookup (operation a b))
    (site site' : Site) :
    Mirrors context.callee? bound log log'
      (x.eval context >>= fun a => y.eval context >>= fun b => Run.lift site (operation a b))
      (x.eval (context.elsewhere supplied source) >>= fun a =>
        y.eval (context.elsewhere supplied source) >>= fun b => Run.lift site' (operation a b)) :=
  hx.bind fun a => hy.bind fun b => .lift (h a b) site site'

/-- Turns mirror one another if their guards and their bodies do. -/
theorem turn_mirrors {guard : Option Expr} {body : Expr}
    (hguard : ∀ g, guard = some g →
      Mirrors context.callee? bound log log' (g.eval context)
        (g.eval (context.elsewhere supplied source)))
    (hbody : Mirrors context.callee? bound log log' (body.eval context)
      (body.eval (context.elsewhere supplied source))) :
    Mirrors context.callee? bound log log' (turn context guard body)
      (turn (context.elsewhere supplied source) guard body) := by
  cases guard with
  | none => exact hbody.bind fun v => .pure _
  | some g =>
    refine (hguard g rfl).bind fun v => (Mirrors.lift (.truth v) _ _).bind fun holds => ?_
    cases holds with
    | true => exact hbody.bind fun v => .pure _
    | false => exact .pure none

/-- A tree that reads no outer name is evaluated alike in all surroundings.  The names that are
bound at a node are those of the comprehensions around it, for the walk over the tree and for its
evaluation. -/
theorem eval_mirrors {e : Expr} (hreads : e.readsOutside bound = .ok false)
    (hassigns : e.Everywhere (AssignsOwn fun name =>
      name ∈ context.external ∨ name ∈ (context.elsewhere supplied source).external)) :
    Mirrors context.callee? bound log log' (e.eval context)
    (e.eval (context.elsewhere supplied source)) := by
  induction e using byParts generalizing bound with
  | number | string | boolean =>
    rw [eval, eval]
    exact .pure _
  | foreign =>
    rw [readsOutside] at hreads
    cases hreads
  | identifier span name =>
    have hname : name ∈ bound := by simpa [readsOutside] using hreads
    intro s t made hst
    obtain ⟨v, hs, ht⟩ := hst.lookup? name hname
    rw [eval_identifier, eval_identifier, hs, ht]
    exact ⟨rfl, made, hst⟩
  | program span es ih =>
    rw [readsOutside] at hreads
    rw [eval, eval, evalLast_eq, evalLast_eq]
    refine (evalAll_mirrors fun e he => ih e he (readsOutside_of_mem hreads e he)
      (hassigns.part he)).bind ?_
    exact fun vs => .pure _
  | array span es ih =>
    rw [readsOutside] at hreads
    rw [eval, eval]
    refine (evalAll_mirrors fun e he => ih e he (readsOutside_of_mem hreads e he)
      (hassigns.part he)).bind ?_
    exact fun vs => (Mirrors.lift (.withinLimit _ _ _) _ _).bind fun _ => .pure _
  | call span name es ih =>
    rw [readsOutside] at hreads
    exact call_mirrors span name fun e he => ih e he (readsOutside_of_mem hreads e he)
      (hassigns.part he)
  | unary span operator a ih =>
    rw [readsOutside] at hreads
    rw [eval, eval]
    exact (ih hreads (hassigns.part (by simp [children]))).bind fun v => .lift (.applyUnary _ _) _ _
  | assign span name value ih =>
    rw [readsOutside] at hreads
    -- Neither host overrides the assignment, so both evaluate its value and bind it in their
    -- innermost tables.
    have hown := hassigns.root name rfl
    rw [eval, eval, if_neg fun hmem => hown (.inl (List.contains_iff_mem.mp hmem)),
      if_neg fun hmem => hown (.inr (List.contains_iff_mem.mp hmem))]
    refine (ih hreads (hassigns.part (by simp [children]))).bind fun v => ?_
    exact (Mirrors.bindName name v).bind fun _ => .pure v
  | conditional span c x y hc hx hy =>
    rw [readsOutside] at hreads
    obtain ⟨hreadsc, hrest⟩ := ok_false_of_unless hreads
    obtain ⟨hreadsx, hreadsy⟩ := ok_false_of_unless hrest
    rw [eval, eval]
    refine (hc hreadsc (hassigns.part (by simp [children]))).bind fun v => ?_
    refine (Mirrors.lift (.truth v) _ _).bind fun holds => ?_
    cases holds with
    | true => exact hx hreadsx (hassigns.part (by simp [children]))
    | false => exact hy hreadsy (hassigns.part (by simp [children]))
  | comprehension span binder iterable guard body hi hg hb =>
    obtain ⟨hreadsi, hreadsg, hreadsb⟩ := readsOutside_comprehension hreads
    -- The binder is bound in the guard and the body, and not yet where the iterable is evaluated.
    have hturn : Mirrors context.callee? (binder :: bound) log log' (turn context guard body)
        (turn (context.elsewhere supplied source) guard body) :=
      turn_mirrors (fun g hguard => hg g hguard (hreadsg g hguard)
        (hassigns.part (by simp [children, hguard])))
        (hb hreadsb (hassigns.part (by cases guard <;> simp [children])))
    rw [eval_comprehension_restoring, eval_comprehension_restoring]
    refine (hi hreadsi (hassigns.part (by cases guard <;> simp [children]))).bind fun source => ?_
    refine (Mirrors.lift (.items source) _ _).bind fun items => ?_
    refine (Mirrors.collect (fun item => hturn.restoring binder item) items []).bind
      fun results => ?_
    exact (Mirrors.lift (.withinLimit _ _ _) _ _).bind fun _ => .pure _
  | binary span operator x y hx hy =>
    rw [readsOutside] at hreads
    obtain ⟨hreadsx, hreadsy⟩ := ok_false_of_unless hreads
    rw [eval, eval]
    exact pair_mirrors (hx hreadsx (hassigns.part (by simp [children])))
      (hy hreadsy (hassigns.part (by simp [children]))) (fun _ _ => .applyBinary _ _ _ _) _ _
  | index span x y hx hy =>
    rw [readsOutside] at hreads
    obtain ⟨hreadsx, hreadsy⟩ := ok_false_of_unless hreads
    rw [eval, eval]
    exact pair_mirrors (hx hreadsx (hassigns.part (by simp [children])))
      (hy hreadsy (hassigns.part (by simp [children]))) (fun _ _ => .element _ _) _ _
  | range span x y inclusive hx hy =>
    rw [readsOutside] at hreads
    obtain ⟨hreadsx, hreadsy⟩ := ok_false_of_unless hreads
    rw [eval, eval]
    exact pair_mirrors (hx hreadsx (hassigns.part (by simp [children])))
      (hy hreadsy (hassigns.part (by simp [children]))) (fun _ _ => .buildRange _ _ _ _) _ _

end Mirroring

/-! ## Inputs -/

/-- A statement adds the name that it assigns if its value reads no outer name. -/
theorem mem_addInput {names after : List String} {e : Expr} (h : addInput names e = .ok after)
    (n : String) :
    n ∈ after ↔ n ∈ names ∨ ∃ span value, e = .assign span n value ∧
      value.readsOutside [] = .ok false := by
  cases e with
  | assign span name value =>
    rw [addInput] at h
    by_cases hknown : names.contains name = true
    · -- A known name stays an input, whatever this value reads.
      rw [if_pos hknown] at h
      obtain rfl := Except.ok.inj h
      refine ⟨.inl, ?_⟩
      rintro (hn | ⟨span', value', ⟨⟩, -⟩)
      · exact hn
      · exact List.contains_iff_mem.mp hknown
    · rw [if_neg hknown] at h
      cases hreads : value.readsOutside [] with
      | error fault =>
        rw [hreads] at h
        cases h
      | ok outside =>
        rw [hreads] at h
        cases outside with
        | true =>
          obtain rfl := Except.ok.inj h
          refine ⟨.inl, ?_⟩
          rintro (hn | ⟨span', value', ⟨⟩, hvalue⟩)
          · exact hn
          · rw [hreads] at hvalue
            cases hvalue
        | false =>
          obtain rfl := Except.ok.inj h
          rw [List.mem_append, List.mem_singleton]
          refine or_congr_right ⟨?_, ?_⟩
          · rintro rfl
            exact ⟨span, value, rfl, hreads⟩
          · rintro ⟨span', value', ⟨⟩, -⟩
            rfl
  | _ =>
    obtain rfl := Except.ok.inj h
    simp

/-- The inputs that are added on the way are the names assigned to values that read no outer
name. -/
theorem mem_foldlM_addInput {es : List Expr} {names after : List String}
    (h : es.foldlM addInput names = .ok after) (n : String) : n ∈ after ↔ n ∈ names ∨
      ∃ span value, .assign span n value ∈ es ∧ value.readsOutside [] = .ok false := by
  induction es generalizing names with
  | nil =>
    obtain rfl := Except.ok.inj h
    simp
  | cons e es ih =>
    rw [List.foldlM_cons] at h
    cases hfirst : addInput names e with
    | error fault =>
      rw [hfirst] at h
      cases h
    | ok between =>
      rw [hfirst] at h
      rw [ih h, mem_addInput hfirst]
      simp only [List.mem_cons, or_and_right, exists_or, or_assoc, eq_comm]

end Expr

namespace Evaluation

open Formulary.Expr

/-- The inputs of a formula are independent of its surroundings.  They are the names that the
formula assigns at the top from values that read no outer name.  Let such a value be evaluated in
two states, in contexts with the same functions and limits that supply no name which the value
assigns, and let the host be in the same state.  Then the values are the same or both evaluations
fail, for the same reason and so with the same message; they make the same calls and leave the host
in the same state; and if the reason is that a variable is not defined, then it was raised by the
function that was called last. -/
theorem inputs_independent (t : Expr) :
    (∀ names, t.inputs = .ok names → ∀ n, n ∈ names ↔
      ∃ span value, .assign span n value ∈ t.topLevel ∧ value.readsOutside [] = .ok false) ∧
    ∀ value : Expr, value.readsOutside [] = .ok false →
      ∀ (context context' : Context σ) (s s' : State σ), context.callee? = context'.callee? →
        context.limits = context'.limits → s.host = s'.host →
        (∀ name ∈ value.assignedNames, name ∉ context.external ∧ name ∉ context'.external) →
        let outcome := continueWith context value s
        let outcome' := continueWith context' value s'
        ∃ made, outcome.2.calls = made ++ s.calls ∧ outcome'.2.calls = made ++ s'.calls ∧
          outcome.2.host = outcome'.2.host ∧
          outcome.1.mapError Failure.refusal = outcome'.1.mapError Failure.refusal ∧
          ∀ name, outcome.1.mapError Failure.refusal = .error (.cause (.undefinedVariable name)) →
            Cause.RaisedBy context.callee? made outcome.2.host (.undefinedVariable name) := by
  refine ⟨fun names hnames n => ?_, ?_⟩
  · rw [mem_foldlM_addInput hnames]
    simp
  · intro value hreads context context' s s' hcallee hlimits hhost hassigns
    obtain ⟨supplied, source, rfl⟩ : ∃ supplied source, context' =
      context.elsewhere supplied source :=
      ⟨context'.supplied, context'.source, by rw [Context.elsewhere, hcallee, hlimits]⟩
    have hown := assignsOwn_of_assignedNames fun name hname => not_or.mpr (hassigns name hname)
    have hmirrored := eval_mirrors hreads hown s s' [] ⟨hhost, rfl, rfl, nofun⟩
    unfold continueWith
    cases hs : value.eval context s <;>
      cases hs' : value.eval (context.elsewhere supplied source) s' <;>
      rw [hs, hs'] at hmirrored
    case ok.ok v after v' after' =>
      obtain ⟨rfl, made, hpaired⟩ := hmirrored
      exact ⟨made, hpaired.calls, hpaired.calls', hpaired.host, rfl, by rintro name ⟨⟩⟩
    case error.error failure after failure' after' =>
      obtain ⟨hsame, made, hpaired, hraised⟩ := hmirrored
      refine ⟨made, hpaired.calls, hpaired.calls', hpaired.host, congrArg Except.error hsame,
        fun name hname => ?_⟩
      exact hraised name (Except.error.inj hname)
    all_goals exact hmirrored.elim

/-- A loop that rebinds its variable in a loop inside of it, and a function that raises an error
when it is called for the second time.  One host supplies the name of the inner variable, and the
other state has the outer one bound. -/
theorem inputs_independent_of_rebinding :
    let value : Expr :=
      .comprehension .none "x" (.array .none [.string .none "a", .string .none "b"]) none
      (.comprehension .none "y" (.array .none [.identifier .none "x"]) none
        (.assign .none "x" (.call .none "f" [.identifier .none "y"])))
    let t : Expr :=
      .program .none [.assign .none "n" value, .assign .none "m" (.identifier .none "n")]
    let callee? : String → Option (Callee Nat) := fun _ => some (.function fun args count =>
      (if count = 1 then .raised ⟨.undefinedVariable "z", .unknown⟩ else .returned
        (.list args), count + 1))
    let context : Context Nat := ⟨callee?, [("y", .boolean true)], .standard, none⟩
    let context' : Context Nat := ⟨callee?, [], .standard, some "n = 1"⟩
    let s : State Nat := ⟨⟨[], ⟨[("y", .boolean true)]⟩⟩, 0, [], []⟩
    let s' : State Nat := ⟨⟨[⟨[("x", .string "c")]⟩], .empty⟩, 0, [⟨"g", []⟩], []⟩
    t.inputs = .ok ["n"] ∧ value.assignedNames = ["x"] ∧
    (continueWith context' value s').1.mapError Failure.refusal =
      .error (.cause (.undefinedVariable "z")) ∧
    ∃ made, made.map Call.name = ["f", "f"] ∧
      (continueWith context value s).2.calls = made ++ s.calls ∧
      (continueWith context' value s').2.calls = made ++ s'.calls ∧
      Cause.RaisedBy callee? made 2 (.undefinedVariable "z") := by
  intro value t callee? context context' s s'
  have hinputs : t.inputs = .ok ["n"] := rfl
  have hassigned : value.assignedNames = ["x"] := by decide +kernel
  obtain ⟨-, hindependent⟩ := inputs_independent (σ := Nat) t
  have hown : ∀ name ∈ value.assignedNames, name ∉ context.external ∧ name ∉ context'.external := by
    rw [hassigned]
    decide
  obtain ⟨made, hcalls, hcalls', -, hsame, hraised⟩ :=
    hindependent value rfl context context' s s' rfl rfl rfl hown
  have hfailure : (continueWith context' value s').1.mapError Failure.refusal =
      .error (.cause (.undefinedVariable "z")) := rfl
  refine ⟨hinputs, hassigned, hfailure, made, ?_, hcalls, hcalls',
    hraised "z" (hsame.trans hfailure)⟩
  rw [List.append_nil] at hcalls
  rw [← hcalls]
  rfl

end Evaluation

end Formulary
