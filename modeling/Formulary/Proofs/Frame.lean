import Formulary.Evaluation.Program
import Formulary.Expr.Names
import Formulary.Proofs.Tree

/-!
# What an evaluation leaves behind

Evaluating a tree changes the scope in one way only: in the innermost table it binds names that the
tree assigns outside of the guards and bodies of its comprehensions (`Scope.Rebound`).  This holds
of evaluations that fail as of those that succeed.

The argument goes along the evaluation (`Expr.rebinds_eval`).  A comprehension opens a table for
each element and closes the innermost table afterwards.  What it closes is the table that it opened,
because the guard and the body rebind names of the innermost table and leave those around it alone
(`Scope.Rebound.pop_eq`).  So a comprehension may as well put back the scope in which it began
(`Expr.eval_comprehension_restoring`), and in this form the other proofs take it.
-/

set_option autoImplicit false

namespace Formulary

/-! ## Scopes -/

/-- After a name has been bound in a table, it has the new value and all others are as before. -/
theorem Bindings.find?_insert (table : Bindings) (name : String) (v : Value) (other : String) :
    (table.insert name v).find? other = if other = name then some v else table.find? other := by
  obtain ⟨entries⟩ := table
  show (insertInto name v entries).lookup other =
    if other = name then some v else entries.lookup other
  have hlookup : ∀ (key : String) (w : Value) (rest : List (String × Value)),
      ((key, w) :: rest).lookup other = if other = key then some w else rest.lookup other := by
    intro key w rest
    by_cases h : other = key
    · simp [h]
    · have hbeq : (other == key) = false := by simpa using h
      simp [List.lookup_cons, hbeq, h]
  induction entries with
  | nil => rw [insertInto, hlookup]
  | cons entry entries ih =>
    obtain ⟨key, w⟩ := entry
    rw [insertInto]
    by_cases hkey : key = name
    · subst hkey
      rw [if_pos rfl, hlookup, hlookup]
      by_cases h : other = key <;> simp [h]
    · rw [if_neg hkey, hlookup, hlookup, ih]
      by_cases h : other = key
      · subst h
        simp [hkey]
      · simp [h]

namespace Scope

/-- After a name has been bound, it is found with its new value and all others as before. -/
theorem lookup?_bind (scope : Scope) (name : String) (v : Value) (other : String) :
    (scope.bind name v).lookup? other = if other = name then some v else scope.lookup? other := by
  obtain ⟨inner, root⟩ := scope
  cases inner with
  | nil => simp [bind, lookup?, Bindings.find?_insert]
  | cons table outer =>
    by_cases h : other = name <;>
      simp [bind, lookup?, List.findSome?_cons, Bindings.find?_insert, h]

/-- A table without entries hides nothing. -/
theorem lookup?_push (scope : Scope) (name : String) :
    scope.push.lookup? name = scope.lookup? name := by
  simp [push, lookup?, List.findSome?_cons, Bindings.empty, Bindings.find?]

/-- Binding a name changes the root only where the root is the innermost table. -/
theorem root_bind (scope : Scope) (name : String) (v : Value) (other : String) :
    (scope.bind name v).root.find? other =
      if scope.inner = [] ∧ other = name then some v else scope.root.find? other := by
  obtain ⟨inner, root⟩ := scope
  cases inner with
  | nil => simp [bind, Bindings.find?_insert]
  | cons table outer => simp [bind]

/-- Binding a name opens and closes no table. -/
theorem length_inner_bind (scope : Scope) (name : String) (v : Value) :
    (scope.bind name v).inner.length = scope.inner.length := by
  obtain ⟨inner, root⟩ := scope
  cases inner <;> rfl

/-- The tables around the innermost one, from the inside out. -/
def enclosing (scope : Scope) : List Bindings :=
  match scope.inner with
  | [] => []
  | _ :: outer => outer ++ [scope.root]

/-- Binding a name does not touch the tables around the innermost one. -/
theorem enclosing_bind (scope : Scope) (name : String) (v : Value) :
    (scope.bind name v).enclosing = scope.enclosing := by
  obtain ⟨inner, root⟩ := scope
  cases inner <;> rfl

/-- Binding a name binds it in the innermost table. -/
theorem current_bind (scope : Scope) (name : String) (v : Value) :
    (scope.bind name v).current = scope.current.insert name v := by
  obtain ⟨inner, root⟩ := scope
  cases inner <;> rfl

/-- Closing a table with these tables around it leaves them behind, whatever it binds itself. -/
theorem pop_of_enclosing {scope outer : Scope} (h : scope.enclosing = outer.push.enclosing) :
    scope.pop = outer := by
  obtain ⟨inner, root⟩ := scope
  cases inner with
  | nil =>
    have hnone : [] = outer.inner ++ [outer.root] := h
    simp at hnone
  | cons table rest =>
    have hrest : rest ++ [root] = outer.inner ++ [outer.root] := h
    obtain ⟨rfl, hroot⟩ := List.append_inj' hrest rfl
    obtain rfl := List.singleton_inj.mp hroot
    rfl

/-- A scope in which names have been bound anew in the innermost table. -/
inductive Rebound (names : List String) (scope : Scope) : Scope → Prop
  | same : Rebound names scope scope
  | bind {after name} : Rebound names scope after → name ∈ names → ∀ v,
      Rebound names scope (after.bind name v)

namespace Rebound

variable {names more : List String} {scope after later : Scope}

/-- Rebinding twice is rebinding. -/
theorem trans (h : Rebound names scope after) (h' : Rebound names after later) :
    Rebound names scope later := by
  induction h' with
  | same => exact h
  | bind _ hname v ih => exact ih.bind hname v

/-- More names may be rebound. -/
theorem mono (h : Rebound names scope after) (hnames : names ⊆ more) :
    Rebound more scope after := by
  induction h with
  | same => exact .same
  | bind _ hname v ih => exact ih.bind (hnames hname) v

/-- Rebinding does not touch the tables around the innermost one. -/
theorem enclosing_eq (h : Rebound names scope after) : after.enclosing = scope.enclosing := by
  induction h with
  | same => rfl
  | bind _ _ v ih => rw [enclosing_bind, ih]

/-- Other names have the values that they had in the innermost table. -/
theorem find?_eq (h : Rebound names scope after) {name : String} (hname : name ∉ names) :
    after.current.find? name = scope.current.find? name := by
  induction h with
  | same => rfl
  | bind _ hbound v ih =>
    rw [current_bind, Bindings.find?_insert, if_neg, ih]
    rintro rfl
    exact hname hbound

/-- No name of the innermost table is lost. -/
theorem isSome_find? (h : Rebound names scope after) {name : String}
    (hname : (scope.current.find? name).isSome = true) :
    (after.current.find? name).isSome = true := by
  induction h with
  | same => exact hname
  | bind _ _ v ih =>
    rw [current_bind, Bindings.find?_insert]
    split
    · rfl
    · exact ih

/-- No name that can be looked up is lost. -/
theorem isSome_lookup? (h : Rebound names scope after) {name : String}
    (hname : (scope.lookup? name).isSome = true) : (after.lookup? name).isSome = true := by
  induction h with
  | same => exact hname
  | bind _ _ v ih =>
    rw [lookup?_bind]
    split
    · rfl
    · exact ih

/-- Where no name may be rebound, nothing has changed. -/
theorem eq_of_nil (h : Rebound [] scope after) : after = scope := by
  cases h with
  | same => rfl
  | bind _ hname => cases hname

/-- A fresh table in which names have been bound anew can be closed, and the scope around it is as
it was. -/
theorem pop_eq {name : String} {v : Value} (h : Rebound names (scope.push.bind name v) after) :
    after.pop = scope :=
  pop_of_enclosing (h.enclosing_eq.trans (enclosing_bind _ _ _))

end Rebound

end Scope

/-! ## Runs -/

/-- A sequence goes on from where its first run has succeeded. -/
theorem bind_of_ok {ε τ α β : Type} {x : EStateM ε τ α} {s s' : τ} {a : α} (h : x s = .ok a s')
    (k : α → EStateM ε τ β) : (x >>= k) s = k a s' := by
  show EStateM.bind x k s = _
  unfold EStateM.bind
  rw [h]

/-- A sequence fails where its first run fails. -/
theorem bind_of_error {ε τ α β : Type} {x : EStateM ε τ α} {s s' : τ} {failure : ε}
    (h : x s = .error failure s') (k : α → EStateM ε τ β) : (x >>= k) s = .error failure s' := by
  show EStateM.bind x k s = _
  unfold EStateM.bind
  rw [h]

/-- If a sequence has succeeded, both its runs have. -/
theorem bind_eq_ok {ε τ α β : Type} {x : EStateM ε τ α} {k : α → EStateM ε τ β} {s s'' : τ} {b : β}
    (h : (x >>= k) s = .ok b s'') : ∃ a s', x s = .ok a s' ∧ k a s' = .ok b s'' := by
  change EStateM.bind x k s = _ at h
  unfold EStateM.bind at h
  cases hx : x s with
  | ok a s' =>
    rw [hx] at h
    exact ⟨a, s', rfl, h⟩
  | error failure s' =>
    rw [hx] at h
    cases h

/-- If a sequence has failed, its first run has, or the second after the first had succeeded. -/
theorem bind_eq_error {ε τ α β : Type} {x : EStateM ε τ α} {k : α → EStateM ε τ β} {s s'' : τ}
    {failure : ε} (h : (x >>= k) s = .error failure s'') :
    x s = .error failure s'' ∨ ∃ a s', x s = .ok a s' ∧ k a s' = .error failure s'' := by
  cases hx : x s with
  | ok a s' =>
    rw [bind_of_ok hx] at h
    exact .inr ⟨a, s', rfl, h⟩
  | error failure' s' =>
    rw [bind_of_error hx] at h
    obtain ⟨rfl, rfl⟩ := EStateM.Result.error.inj h
    exact .inl rfl

namespace Run

variable {σ α β : Type}

/-- The state in which a run ends. -/
def after : EStateM.Result Failure (State σ) α → State σ
  | .ok _ s => s
  | .error _ s => s

/-- How an evaluation goes on with the reply to a call. -/
def answer (site : Site) (name : String) : Reply → Run σ Value
  | .raised e => throw (.error (e.locatedAt site))
  | .failed text => do
    Run.emit (.hostFunctionFailed name text)
    Run.fail (.functionFailed name text) site
  | .returned v =>
    match v.normalize with
    | .ok w => Pure.pure w
    | .error fault =>
      Run.fail (.functionFailed name ("returned unsupported value (" ++ fault.message ++ ")")) site

/-- A call is made and logged, and then its reply is taken. -/
theorem invoke_apply (site : Site) (name : String) (run : List Value → σ → Reply × σ)
    (args : List Value) (s : State σ) :
    invoke site name run args s = answer site name (run args s.host).1
      { s with host := (run args s.host).2, calls := ⟨name, args⟩ :: s.calls } :=
  rfl

/-- Runs a computation in a fresh table with one name bound, and puts the scope back afterwards. -/
def restoring (name : String) (v : Value) (run : Run σ α) : Run σ α := fun s =>
  match run { s with scope := s.scope.push.bind name v } with
  | .ok a after => .ok a { after with scope := s.scope }
  | .error failure after => .error failure { after with scope := s.scope }

/-- A run that binds some names in the innermost table and does nothing else to the scope, whether
it succeeds or fails. -/
def Rebinds (names : List String) (x : Run σ α) : Prop :=
  ∀ s : State σ, s.scope.Rebound names (after (x s)).scope

namespace Rebinds

variable {names more : List String}

/-- Returning a value leaves the scope alone. -/
theorem pure (a : α) : Rebinds names (pure a : Run σ α) :=
  fun _ => .same

/-- Failing leaves the scope alone. -/
theorem throw (failure : Failure) : Rebinds names (throw failure : Run σ α) :=
  fun _ => .same

/-- Putting the outcome of an operation at a site leaves the scope alone. -/
theorem lift (site : Site) (result : Except Refusal α) :
    Rebinds names (Run.lift site result : Run σ α) := by
  cases result with
  | ok a => exact .pure a
  | error refusal => exact .throw _

/-- More names may be rebound. -/
theorem mono {x : Run σ α} (h : Rebinds names x) (hnames : names ⊆ more) : Rebinds more x :=
  fun s => (h s).mono hnames

/-- A sequence rebinds what its runs rebind. -/
theorem bind {x : Run σ α} {k : α → Run σ β} (hx : Rebinds names x)
    (hk : ∀ a, Rebinds names (k a)) : Rebinds names (x >>= k) := by
  intro s
  have hfirst := hx s
  cases hrun : x s with
  | ok a s' =>
    rw [hrun] at hfirst
    rw [bind_of_ok hrun]
    exact hfirst.trans (hk a s')
  | error failure s' =>
    rw [hrun] at hfirst
    rw [bind_of_error hrun]
    exact hfirst

/-- Binding a name rebinds it. -/
theorem bindName {name : String} (hname : name ∈ names) (v : Value) :
    Rebinds names (Run.bind name v : Run σ Unit) :=
  fun _ => Scope.Rebound.same.bind hname v

/-- Taking a reply leaves the scope alone. -/
theorem answer (site : Site) (name : String) (reply : Reply) :
    Rebinds names (Run.answer site name reply : Run σ Value) := by
  cases reply with
  | raised e => exact .throw _
  | failed text => exact fun _ => .same
  | returned v =>
    unfold Run.answer
    cases hv : v.normalize with
    | ok w => simpa only [hv] using .pure w
    | error fault => simpa only [hv] using .throw _

/-- A call of the host leaves the scope alone. -/
theorem invoke (site : Site) (name : String) (run : List Value → σ → Reply × σ)
    (args : List Value) : Rebinds names (Run.invoke site name run args) := by
  intro s
  rw [invoke_apply]
  have hanswer : Rebinds names (Run.answer site name (run args s.host).1 : Run σ Value) :=
    answer site name _
  exact hanswer { s with host := (run args s.host).2, calls := ⟨name, args⟩ :: s.calls }

/-- Closing the fresh table puts the scope back, for the run has left the other tables alone. -/
theorem inScope_eq {x : Run σ α} (h : Rebinds names x) (name : String) (v : Value) :
    Run.inScope name v x = restoring name v x := by
  funext s
  have hinside := h { s with scope := s.scope.push.bind name v }
  unfold Run.inScope restoring
  cases hrun : x { s with scope := s.scope.push.bind name v } with
  | ok a s' =>
    rw [hrun] at hinside
    have hclosed : s'.scope.pop = s.scope := hinside.pop_eq
    simp only [hclosed]
  | error failure s' =>
    rw [hrun] at hinside
    have hclosed : s'.scope.pop = s.scope := hinside.pop_eq
    simp only [hclosed]

/-- A run in a fresh table rebinds names of that table, which is closed in the end; so outside
nothing is rebound at all. -/
theorem inScope {x : Run σ α} (h : Rebinds more x) (name : String) (v : Value) :
    Rebinds names (Run.inScope name v x) := by
  intro s
  rw [h.inScope_eq]
  unfold restoring
  cases x { s with scope := s.scope.push.bind name v } <;> exact .same

/-- A run over items rebinds what its steps rebind. -/
theorem collect {step : Value → Run σ (Option Value)} (h : ∀ item, Rebinds names (step item))
    (items found : List Value) : Rebinds names (Run.collect step found items) := by
  induction items generalizing found with
  | nil => exact .pure _
  | cons item items ih => exact (h item).bind fun yielded => ih _

end Rebinds

end Run

/-! ## Evaluation -/

namespace Expr

open Run

variable {σ : Type} {context : Context σ}

/-- An identifier evaluates to the value that its name has in the scope. -/
theorem eval_identifier (span : Span) (other : String) (s : State σ) :
    (Expr.identifier span other).eval context s = match s.scope.lookup? other with
      | some w => .ok w s
      | none =>
        .error (.error ((Cause.undefinedVariable other).atSite (context.siteOf span))) s := by
  rw [eval]
  show (match s.scope.lookup? other with
    | some w => (pure w : Run σ Value)
    | none => Run.fail (.undefinedVariable other) (context.siteOf span)) s = _
  cases s.scope.lookup? other <;> rfl

/-- One turn of a comprehension: the guard, if there is one, and the body. -/
def turn (context : Context σ) (guard : Option Expr) (body : Expr) : Run σ (Option Value) :=
  match guard with
  | none => do
    let v ← body.eval context
    pure (some v)
  | some guard => do
    let g ← guard.eval context
    let holds ← Run.lift (context.siteOf guard.span) g.truth
    if holds then
      let v ← body.eval context
      pure (some v)
    else pure none

/-- A comprehension takes its turns one after the other, each with an element bound in a fresh
table. -/
theorem eval_comprehension (span : Span) (binder : String) (iterable : Expr) (guard : Option Expr)
    (body : Expr) :
    (Expr.comprehension span binder iterable guard body).eval context = (do
      let source ← iterable.eval context
      let items ← Run.lift (context.siteOf span) source.items
      let results ←
        Run.collect (fun item => Run.inScope binder item (turn context guard body)) [] items
      Run.lift .unknown (Value.withinLimit context.limits .arrayLength results.length)
      pure (.list results)) := by
  cases guard <;> rw [eval] <;> rfl

/-- The names that a tree assigns outside of the guards and bodies of its comprehensions. -/
def ownTargets (e : Expr) : List String :=
  e.outer.filterMap target?

/-- The name that a node assigns is among its own. -/
theorem mem_ownTargets_self {e : Expr} {name : String} (h : e.target? = some name) :
    name ∈ e.ownTargets :=
  List.mem_filterMap.mpr ⟨e, mem_outer_self e, h⟩

/-- What a part assigns that is evaluated in the scope of the node, the node assigns. -/
theorem ownTargets_subset {e part : Expr} (hpart : part ∈ e.outerParts) :
    part.ownTargets ⊆ e.ownTargets := by
  intro name hname
  obtain ⟨node, hnode, htarget⟩ := List.mem_filterMap.mp hname
  refine List.mem_filterMap.mpr ⟨node, ?_, htarget⟩
  rw [outer_eq]
  exact List.mem_cons_of_mem _ (List.mem_flatMap.mpr ⟨part, hpart, hnode⟩)

section Lists

variable {names : List String} {es : List Expr}

/-- Evaluating trees in order rebinds what evaluating each of them rebinds. -/
theorem rebinds_evalAll (h : ∀ e ∈ es, Rebinds names (e.eval context)) :
    Rebinds names (evalAll context es) := by
  induction es with
  | nil =>
    rw [evalAll]
    exact .pure _
  | cons e es ih =>
    rw [evalAll]
    refine (h e List.mem_cons_self).bind fun v => ?_
    exact (ih fun e he => h e (List.mem_cons_of_mem _ he)).bind fun vs => .pure _

/-- Evaluating statements rebinds what evaluating each of them rebinds. -/
theorem rebinds_evalLast (h : ∀ e ∈ es, Rebinds names (e.eval context)) (result : Value) :
    Rebinds names (evalLast context result es) := by
  induction es generalizing result with
  | nil =>
    rw [evalLast]
    exact .pure _
  | cons e es ih =>
    rw [evalLast]
    refine (h e List.mem_cons_self).bind fun v => ?_
    exact ih (fun e he => h e (List.mem_cons_of_mem _ he)) v

end Lists

/-- A turn rebinds what its guard and its body rebind. -/
theorem rebinds_turn_of_parts {guard : Option Expr} {body : Expr}
    (hguard : ∀ g, guard = some g → Rebinds g.ownTargets (g.eval context))
    (hbody : Rebinds body.ownTargets (body.eval context)) :
    Rebinds (guard.toList.flatMap ownTargets ++ body.ownTargets) (turn context guard body) := by
  have hyield : Rebinds (guard.toList.flatMap ownTargets ++ body.ownTargets) (do
      let v ← body.eval context
      pure (some v) : Run σ (Option Value)) :=
    (hbody.mono (List.subset_append_right _ _)).bind fun v => .pure _
  cases guard with
  | none => exact hyield
  | some g =>
    refine ((hguard g rfl).mono (by simp)).bind fun v => (Rebinds.lift _ _).bind fun holds => ?_
    cases holds with
    | true => exact hyield
    | false => exact .pure none

/-- Evaluating a tree rebinds names that the tree assigns in the scope in which it is evaluated. -/
theorem rebinds_eval (context : Context σ) (e : Expr) : Rebinds e.ownTargets (e.eval context) := by
  induction e using byParts with
  | number | string | boolean =>
    rw [eval]
    exact .pure _
  | foreign item =>
    rw [eval]
    exact .throw _
  | identifier span name =>
    intro s
    rw [eval_identifier]
    cases s.scope.lookup? name <;> exact .same
  | program span es ih =>
    rw [eval]
    exact rebinds_evalLast (fun e he => (ih e he).mono (ownTargets_subset (by exact he))) _
  | array span es ih =>
    rw [eval]
    refine (rebinds_evalAll fun e he => (ih e he).mono (ownTargets_subset (by exact he))).bind
      fun vs => ?_
    exact (Rebinds.lift _ _).bind fun _ => .pure _
  | call span name es ih =>
    rw [eval]
    cases context.callee? name with
    | none => exact .throw _
    | some callee =>
      cases callee with
      | notCallable => exact .throw _
      | function run =>
        refine (rebinds_evalAll fun e he => (ih e he).mono (ownTargets_subset (by exact he))).bind
          fun args => ?_
        exact .invoke _ _ _ _
  | unary span operator a ih =>
    rw [eval]
    refine (ih.mono (ownTargets_subset ?_)).bind fun v => .lift _ _
    simp [outerParts, children]
  | assign span name value ih =>
    have hname : name ∈ (Expr.assign span name value).ownTargets := mem_ownTargets_self rfl
    rw [eval]
    by_cases hexternal : context.external.contains name = true
    · rw [if_pos hexternal]
      intro s
      exact Scope.Rebound.same.bind hname _
    · rw [if_neg hexternal]
      refine (ih.mono (ownTargets_subset ?_)).bind fun v =>
        (Rebinds.bindName hname v).bind fun _ => .pure v
      simp [outerParts, children]
  | conditional span c x y hc hx hy =>
    rw [eval]
    refine (hc.mono (ownTargets_subset ?_)).bind fun v => (Rebinds.lift _ _).bind fun holds => ?_
    · simp [outerParts, children]
    cases holds with
    | true => exact hx.mono (ownTargets_subset (by simp [outerParts, children]))
    | false => exact hy.mono (ownTargets_subset (by simp [outerParts, children]))
  | comprehension span binder iterable guard body hi hg hb =>
    rw [eval_comprehension]
    refine (hi.mono (ownTargets_subset (by simp [outerParts]))).bind fun source => ?_
    refine (Rebinds.lift _ _).bind fun items => ?_
    -- Whatever the guard and the body rebind is in the table that is closed after the turn.
    have hturn := rebinds_turn_of_parts hg hb
    refine (Rebinds.collect (fun item => hturn.inScope binder item) items []).bind fun results => ?_
    exact (Rebinds.lift _ _).bind fun _ => .pure _
  | binary span operator x y hx hy | index span x y hx hy | range span x y inclusive hx hy =>
    rw [eval]
    refine (hx.mono (ownTargets_subset ?_)).bind fun a =>
      (hy.mono (ownTargets_subset ?_)).bind fun b => .lift _ _
    · simp [outerParts, children]
    · simp [outerParts, children]

/-- A turn rebinds names that its guard and its body assign themselves. -/
theorem rebinds_turn (context : Context σ) (guard : Option Expr) (body : Expr) :
    Rebinds (guard.toList.flatMap ownTargets ++ body.ownTargets) (turn context guard body) :=
  rebinds_turn_of_parts (fun g _ => rebinds_eval context g) (rebinds_eval context body)

/-- After a turn, closing its table puts the scope back. -/
theorem inScope_turn (guard : Option Expr) (body : Expr) (binder : String) (item : Value) :
    Run.inScope binder item (turn context guard body) =
      Run.restoring binder item (turn context guard body) :=
  (rebinds_turn context guard body).inScope_eq binder item

/-- A comprehension takes its turns one after the other, each in the scope in which it began itself,
with an element bound in a fresh table. -/
theorem eval_comprehension_restoring (span : Span) (binder : String) (iterable : Expr)
    (guard : Option Expr) (body : Expr) :
    (Expr.comprehension span binder iterable guard body).eval context = (do
      let source ← iterable.eval context
      let items ← Run.lift (context.siteOf span) source.items
      let results ←
        Run.collect (fun item => Run.restoring binder item (turn context guard body)) [] items
      Run.lift .unknown (Value.withinLimit context.limits .arrayLength results.length)
      pure (.list results)) := by
  rw [eval_comprehension]
  simp only [inScope_turn]

/-- The state in which an evaluation ends is the one in which its run ends. -/
theorem continueWith_snd (context : Context σ) (e : Expr) (s : State σ) :
    (Evaluation.continueWith context e s).2 = after (e.eval context s) := by
  unfold Evaluation.continueWith
  cases e.eval context s <;> rfl

/-- Evaluating a tree rebinds names that it assigns itself. -/
theorem eval_rebinds (context : Context σ) (e : Expr) (s : State σ) :
    s.scope.Rebound e.ownTargets (Evaluation.continueWith context e s).2.scope := by
  rw [continueWith_snd]
  exact rebinds_eval context e s

/-- An evaluation, whether it succeeds or fails, ends in the scope in which it began.  The tables
around it are as they were, the table itself differs at most in the names that the tree assigns
outside of its comprehensions, and no name is lost; a tree without such names leaves the whole scope
as it was. -/
theorem eval_frame {σ : Type} (context : Context σ) (e : Expr) (s : State σ) :
    let after := (Evaluation.continueWith context e s).2.scope
    after.enclosing = s.scope.enclosing ∧
      (∀ name, name ∉ e.ownTargets → after.current.find? name = s.scope.current.find? name) ∧
      (∀ name, (s.scope.current.find? name).isSome → (after.current.find? name).isSome) ∧
      (∀ name, (s.scope.lookup? name).isSome → (after.lookup? name).isSome) ∧
      (e.ownTargets = [] → after = s.scope) := by
  have hrebound := eval_rebinds context e s
  refine ⟨hrebound.enclosing_eq, fun name => hrebound.find?_eq, fun name => hrebound.isSome_find?,
    fun name => hrebound.isSome_lookup?, fun hnone => ?_⟩
  rw [hnone] at hrebound
  exact hrebound.eq_of_nil

end Expr

end Formulary
