import Formulary.Proofs.Simulation

/-!
# Invariants of evaluation

A regime says what is to be true of the states, the values and the failures of an evaluation.
Inside a comprehension another property of states may hold than outside, because each element is
evaluated in a fresh scope that is closed afterwards.  `Expr.SafeAt` says what each kind of node
does to a regime, with all that it reads and binds, and a tree that is safe at every node keeps the
regime, whether its evaluation succeeds or fails (`Expr.eval_keeps`).  Of the nodes inside the
guards and bodies of comprehensions only the inner part of the regime is asked.
-/

set_option autoImplicit false

namespace Formulary

namespace Run

variable {σ α β : Type}

/-- What a run has come to: a value or a failure as expected, in a state that satisfies the
invariant. -/
def Kept (I : State σ → Prop) (Good : α → Prop) (Bad : Failure → Prop) :
    EStateM.Result Failure (State σ) α → Prop
  | .ok a s => Good a ∧ I s
  | .error failure s => Bad failure ∧ I s

/-- From each state that satisfies the invariant the run comes to what is expected. -/
def Keeps (I : State σ → Prop) (Good : α → Prop) (Bad : Failure → Prop) (x : Run σ α) : Prop :=
  ∀ s, I s → Kept I Good Bad (x s)

/-- The outcome of an operation that is put at a site is as expected. -/
def Settled (Good : α → Prop) (Bad : Failure → Prop) (site : Site) : Except Refusal α → Prop
  | .ok a => Good a
  | .error refusal => Bad (refusal.atSite site)

namespace Keeps

variable {I J : State σ → Prop} {Good : α → Prop} {Bad : Failure → Prop}

/-- Returning what is expected keeps the invariant. -/
theorem pure {a : α} (h : Good a) : Keeps I Good Bad (pure a) := by
  intro s hs
  exact ⟨h, hs⟩

/-- Failing as expected keeps the invariant. -/
theorem throw {failure : Failure} (h : Bad failure) :
    Keeps I Good Bad (throw failure : Run σ α) := by
  intro s hs
  exact ⟨h, hs⟩

/-- An operation whose outcome is settled keeps the invariant. -/
theorem lift {result : Except Refusal α} {site : Site} (h : Settled Good Bad site result) :
    Keeps I Good Bad (Run.lift site result) := by
  cases result with
  | ok a => exact .pure h
  | error refusal => exact .throw h

/-- A run keeps the invariant if both its steps do, the second one from what is expected of the
first. -/
theorem bind {Good' : β → Prop} {x : Run σ α} {k : α → Run σ β} (hx : Keeps I Good Bad x)
    (hk : ∀ a, Good a → Keeps I Good' Bad (k a)) : Keeps I Good' Bad (x >>= k) := by
  intro s hs
  have hfirst := hx s hs
  show Kept I Good' Bad (EStateM.bind x k s)
  unfold EStateM.bind
  cases hrun : x s with
  | ok a s' =>
    rw [hrun] at hfirst
    exact hk a hfirst.1 s' hfirst.2
  | error failure s' =>
    rw [hrun] at hfirst
    exact hfirst

/-- A run in a fresh scope keeps what its outcome gives back outside. -/
theorem restoring {name : String} {v : Value} {x : Run σ α}
    (enter : ∀ s, I s → J { s with scope := s.scope.push.bind name v })
    (leave : ∀ s s', I s → J s' → I { s' with scope := s.scope }) (h : Keeps J Good Bad x) :
    Keeps I Good Bad (Run.restoring name v x) := by
  intro s hs
  have hinner := h _ (enter s hs)
  unfold Run.restoring
  cases hrun : x { s with scope := s.scope.push.bind name v } with
  | ok a s' =>
    rw [hrun] at hinner
    exact ⟨hinner.1, leave s s' hs hinner.2⟩
  | error failure s' =>
    rw [hrun] at hinner
    exact ⟨hinner.1, leave s s' hs hinner.2⟩

/-- A run over items keeps what each step keeps, and collects what the steps yield. -/
theorem collect {Good : Value → Prop} {step : Value → Run σ (Option Value)}
    {items found : List Value}
    (hstep : ∀ item ∈ items, Keeps I (fun yielded => ∀ v ∈ yielded, Good v) Bad (step item))
    (hfound : ∀ v ∈ found, Good v) :
    Keeps I (fun vs => ∀ v ∈ vs, Good v) Bad (Run.collect step found items) := by
  induction items generalizing found with
  | nil => exact .pure fun v hv => hfound v (List.mem_reverse.mp hv)
  | cons item items ih =>
    refine (hstep item List.mem_cons_self).bind fun yielded hyielded => ?_
    refine ih (fun item hitem => hstep item (List.mem_cons_of_mem _ hitem)) fun v hv => ?_
    rcases List.mem_append.mp hv with hv | hv
    · exact hyielded v (Option.mem_toList.mp hv)
    · exact hfound v hv

/-- A call of the host keeps what the host's state and the logs do not touch. -/
theorem invoke {Good : Value → Prop} {site : Site} {name : String}
    {run : List Value → σ → Reply × σ} {args : List Value}
    (called : ∀ s host, I s → I { s with host := host, calls := ⟨name, args⟩ :: s.calls })
    (logged : ∀ s event, I s → I { s with events := event :: s.events })
    (returned : ∀ host v w, (run args host).1 = .returned v → v.normalize = .ok w → Good w)
    (raised : ∀ host e, (run args host).1 = .raised e → Bad (.error (e.locatedAt site)))
    (failed : ∀ text, Bad (.error ((Cause.functionFailed name text).atSite site))) :
    Keeps I Good Bad (Run.invoke site name run args) := by
  intro s hs
  have hs' := called s (run args s.host).2 hs
  rw [invoke_apply]
  cases hreply : (run args s.host).1 with
  | raised e => exact ⟨raised _ e hreply, hs'⟩
  | failed text => exact ⟨failed text, logged _ _ hs'⟩
  | returned v =>
    unfold answer
    cases hv : v.normalize with
    | ok w => simpa only [hv] using ⟨returned _ v w hreply hv, hs'⟩
    | error fault => simpa only [hv] using ⟨failed _, hs'⟩

end Keeps

end Run

/-- What is to be true of the states of an evaluation, of its values and of its failures. -/
structure Regime (σ : Type) where
  /-- The states outside of comprehensions. -/
  state : State σ → Prop
  /-- The states inside of comprehensions. -/
  inside : State σ → Prop
  value : Value → Prop
  failure : Failure → Prop

/-- The regime inside of comprehensions. -/
def Regime.inner {σ : Type} (regime : Regime σ) : Regime σ :=
  { regime with state := regime.inside }

namespace Expr

open Run

/-! ## What a node does to a regime -/

variable {σ : Type}

/-- What has to hold at a comprehension. -/
structure SafeLoop (context : Context σ) (regime : Regime σ) (span : Span) (binder : String)
    (guard : Option Expr) : Prop where
  items : ∀ v, regime.value v →
    Settled (fun items => ∀ item ∈ items, regime.value item) regime.failure
      (context.siteOf span) v.items
  enter : ∀ s item, regime.state s → regime.value item →
    regime.inside { s with scope := s.scope.push.bind binder item }
  leave : ∀ s s', regime.state s → regime.inside s' → regime.state { s' with scope := s.scope }
  guard : ∀ g ∈ guard, ∀ v, regime.value v →
    Settled (fun _ => True) regime.failure (context.siteOf g.span) v.truth
  list : ∀ vs : List Value, (∀ v ∈ vs, regime.value v) →
    Settled (fun _ => regime.value (.list vs)) regime.failure .unknown
      (Value.withinLimit context.limits .arrayLength vs.length)

/-- What has to hold at a node for its evaluation to keep a regime, if the evaluation of its parts
does. -/
def SafeAt (context : Context σ) (regime : Regime σ) : Expr → Prop
  | .program _ _ => regime.value (.number 0.0)
  | .number _ x => regime.value (.number x)
  | .string _ s => regime.value (.string s)
  | .boolean _ b => regime.value (.boolean b)
  | .array _ _ => ∀ vs : List Value, (∀ v ∈ vs, regime.value v) →
      Settled (fun _ => regime.value (.list vs)) regime.failure .unknown
        (Value.withinLimit context.limits .arrayLength vs.length)
  | .identifier span name => ∀ s, regime.state s → match s.scope.lookup? name with
      | some v => regime.value v
      | none =>
        regime.failure (.error ((Cause.undefinedVariable name).atSite (context.siteOf span)))
  | .binary span operator _ _ => ∀ a b, regime.value a → regime.value b →
      Settled regime.value regime.failure (context.siteOf span)
        (Value.applyBinary context.limits operator a b)
  | .unary span operator _ => ∀ a, regime.value a →
      Settled regime.value regime.failure (context.siteOf span) (Value.applyUnary operator a)
  | .call span name _ =>
      (∀ known, regime.failure
        (.error ((Cause.undefinedFunction name known).atSite (context.siteOf span)))) ∧
      ∀ run, context.callee? name = some (.function run) → ∀ args, (∀ v ∈ args, regime.value v) →
        Keeps regime.state regime.value regime.failure (invoke (context.siteOf span) name run args)
  | .assign _ name _ =>
      (name ∈ context.external → ∀ s, regime.state s →
        regime.value ((s.scope.root.find? name).getD .null) ∧
        regime.state { s with
          scope := s.scope.bind name ((s.scope.root.find? name).getD .null)
          events := .externalOverrideApplied name :: s.events }) ∧
      (name ∉ context.external → ∀ s v, regime.state s → regime.value v →
        regime.state { s with scope := s.scope.bind name v })
  | .conditional span _ _ _ => ∀ v, regime.value v →
      Settled (fun _ => True) regime.failure (context.siteOf span) v.truth
  | .comprehension span binder _ guard _ => SafeLoop context regime span binder guard
  | .index span _ _ => ∀ a b, regime.value a → regime.value b →
      Settled regime.value regime.failure (context.siteOf span) (a.element b)
  | .range span _ _ inclusive => ∀ a b, regime.value a → regime.value b →
      Settled regime.value regime.failure (context.siteOf span)
        (Value.buildRange context.limits a b inclusive)
  | .foreign item => regime.failure (.fault item.fault)

section Lists

variable {context : Context σ} {I : State σ → Prop} {Good : Value → Prop} {Bad : Failure → Prop}

/-- A list of parts keeps what its parts keep. -/
theorem evalAll_keeps {es : List Expr} (h : ∀ e ∈ es, Keeps I Good Bad (e.eval context)) :
    Keeps I (fun vs => ∀ v ∈ vs, Good v) Bad (evalAll context es) := by
  induction es with
  | nil =>
    rw [evalAll]
    exact .pure (by simp)
  | cons e es ih =>
    rw [evalAll]
    refine (h e List.mem_cons_self).bind fun v hv => ?_
    refine (ih fun e he => h e (List.mem_cons_of_mem _ he)).bind fun vs hvs => .pure ?_
    exact List.forall_mem_cons.mpr ⟨hv, hvs⟩

/-- Statements keep what each of them keeps. -/
theorem evalLast_keeps {es : List Expr} (h : ∀ e ∈ es, Keeps I Good Bad (e.eval context))
    {result : Value} (hresult : Good result) : Keeps I Good Bad (evalLast context result es) := by
  induction es generalizing result with
  | nil =>
    rw [evalLast]
    exact .pure hresult
  | cons e es ih =>
    rw [evalLast]
    exact (h e List.mem_cons_self).bind fun v hv =>
      ih (fun e he => h e (List.mem_cons_of_mem _ he)) hv

end Lists

section Loops

variable {context : Context σ} {regime : Regime σ} {span : Span} {binder : String}
  {guard : Option Expr} {body : Expr} (hloop : SafeLoop context regime span binder guard)
  (hturn : Keeps regime.inside (fun yielded => ∀ v ∈ yielded, regime.value v) regime.failure
    (turn context guard body))
include hloop hturn

/-- A loop over items keeps a regime if a turn does inside. -/
theorem collect_keeps {items : List Value} (hitems : ∀ item ∈ items, regime.value item) :
    Keeps regime.state (fun vs => ∀ v ∈ vs, regime.value v) regime.failure
      (Run.collect (fun item => Run.inScope binder item (turn context guard body)) [] items) := by
  refine .collect (fun item hitem => ?_) (by simp)
  rw [inScope_turn]
  exact .restoring (fun s hs => hloop.enter s item hs (hitems item hitem)) hloop.leave hturn

/-- A comprehension keeps a regime if its iterable does, and a turn inside. -/
theorem loop_keeps {iterable : Expr}
    (hiterable : Keeps regime.state regime.value regime.failure (iterable.eval context)) :
    Keeps regime.state regime.value regime.failure
      ((Expr.comprehension span binder iterable guard body).eval context) := by
  rw [eval_comprehension]
  refine hiterable.bind fun source hsource => ?_
  refine (Keeps.lift (hloop.items source hsource)).bind fun items hgood => ?_
  refine (collect_keeps hloop hturn hgood).bind fun results hresults => ?_
  exact (Keeps.lift (hloop.list results hresults)).bind fun _ hvalue => .pure hvalue

end Loops

/-- An evaluation keeps a regime that is safe at every node: outside of comprehensions for the whole
regime, and everywhere for its inner part. -/
theorem eval_keeps {context : Context σ} {regime : Regime σ} {e : Expr}
    (houter : ∀ node ∈ e.outer, SafeAt context regime node)
    (hinner : e.Everywhere (SafeAt context regime.inner)) :
    Keeps regime.state regime.value regime.failure (e.eval context) := by
  -- The regime is general in the induction, so that the body of a comprehension is a case of its
  -- inner part.
  induction e using byParts generalizing regime with
  | number | string | boolean =>
    rw [eval]
    exact .pure (houter _ (mem_outer_self _))
  | foreign item =>
    rw [eval]
    exact .throw (houter _ (mem_outer_self _))
  | identifier span name =>
    intro s hs
    have hnode := houter _ (mem_outer_self _) s hs
    rw [eval_identifier]
    cases hlookup : s.scope.lookup? name with
    | some v =>
      rw [hlookup] at hnode
      exact ⟨hnode, hs⟩
    | none =>
      rw [hlookup] at hnode
      exact ⟨hnode, hs⟩
  | program span es ih =>
    rw [eval]
    exact evalLast_keeps (fun e he => ih e he (forall_outer_part houter he) (hinner.part he))
      (houter _ (mem_outer_self _))
  | array span es ih =>
    have hnode := houter _ (mem_outer_self _)
    rw [eval]
    refine (evalAll_keeps fun e he => ih e he (forall_outer_part houter he) (hinner.part he)).bind
      fun vs hvs => ?_
    exact (Keeps.lift (hnode vs hvs)).bind fun _ hvalue => .pure hvalue
  | call span name es ih =>
    obtain ⟨hundefined, hinvoke⟩ := houter _ (mem_outer_self _)
    rw [eval]
    cases hcallee : context.callee? name with
    | none => exact .throw (hundefined false)
    | some callee =>
      cases callee with
      | notCallable => exact .throw (hundefined true)
      | function run =>
        refine (evalAll_keeps fun e he => ih e he (forall_outer_part houter he)
          (hinner.part he)).bind
          fun args hargs => ?_
        exact hinvoke run hcallee args hargs
  | unary span operator a ih =>
    have hnode := houter _ (mem_outer_self _)
    rw [eval]
    exact (ih (forall_outer_part houter (by simp [outerParts, children]))
      (hinner.part (by simp [children]))).bind fun v hv => .lift (hnode v hv)
  | assign span name value ih =>
    obtain ⟨hexternal, hown⟩ := houter _ (mem_outer_self _)
    rw [eval]
    by_cases hname : context.external.contains name = true
    · rw [if_pos hname]
      intro s hs
      exact hexternal (List.contains_iff_mem.mp hname) s hs
    · rw [if_neg hname]
      refine (ih (forall_outer_part houter (by simp [outerParts, children]))
        (hinner.part (by simp [children]))).bind fun v hv s hs => ?_
      exact ⟨hv, hown (mt List.contains_iff_mem.mpr hname) s v hs hv⟩
  | conditional span c x y hc hx hy =>
    have hnode := houter _ (mem_outer_self _)
    rw [eval]
    refine (hc (forall_outer_part houter (by simp [outerParts, children]))
      (hinner.part (by simp [children]))).bind fun v hv => ?_
    refine (Keeps.lift (hnode v hv)).bind fun holds _ => ?_
    cases holds with
    | true =>
      exact hx (forall_outer_part houter (by simp [outerParts, children]))
        (hinner.part (by simp [children]))
    | false =>
      exact hy (forall_outer_part houter (by simp [outerParts, children]))
        (hinner.part (by simp [children]))
  | comprehension span binder iterable guard body hi hg hb =>
    have hloop : SafeLoop context regime span binder guard := houter _ (mem_outer_self _)
    have hiterable := hi (forall_outer_part houter (by simp [outerParts]))
      (hinner.part (by simp [children]))
    -- Inside, the outer nodes of a part are among all its nodes.
    have hbody : Keeps regime.inside regime.value regime.failure (body.eval context) :=
      @hb regime.inner
      (fun node hnode => hinner.part (by simp [children]) node (outer_subset_nodes body node hnode))
      (hinner.part (by simp [children]))
    refine loop_keeps hloop ?_ hiterable
    cases guard with
    | none => exact hbody.bind fun v hv => .pure (by simpa using hv)
    | some g =>
      have hg' : Keeps regime.inside regime.value regime.failure (g.eval context) :=
        @hg g rfl regime.inner
        (fun node hnode => hinner.part (by simp [children]) node (outer_subset_nodes g node hnode))
        (hinner.part (by simp [children]))
      refine hg'.bind fun v hv => ?_
      refine (Keeps.lift (hloop.guard g rfl v hv)).bind fun holds _ => ?_
      cases holds with
      | true => exact hbody.bind fun v hv => .pure (by simpa using hv)
      | false => exact .pure (by simp)
  | binary span operator x y hx hy | index span x y hx hy | range span x y inclusive hx hy =>
    have hnode := houter _ (mem_outer_self _)
    rw [eval]
    refine (hx (forall_outer_part houter (by simp [outerParts, children]))
      (hinner.part (by simp [children]))).bind fun a ha => ?_
    exact (hy (forall_outer_part houter (by simp [outerParts, children]))
      (hinner.part (by simp [children]))).bind fun b hb => .lift (hnode a b ha hb)

/-! ## What holds of scopes alone -/

/-- The regime of a property of scopes. -/
def scopeRegime (P Q : Scope → Prop) : Regime σ where
  state s := P s.scope
  inside s := Q s.scope
  value _ := True
  failure _ := True

/-- Where every value and every failure will do, all outcomes are as expected. -/
theorem settled_of_forall {α : Type} {Good : α → Prop} {Bad : Failure → Prop} (hgood : ∀ a, Good a)
    (hbad : ∀ failure, Bad failure) (site : Site) (result : Except Refusal α) :
    Settled Good Bad site result := by
  cases result with
  | ok a => exact hgood a
  | error refusal => exact hbad _

/-- Binding the target of an assignment keeps a property of scopes; a name that the host supplies is
bound to the value that it has in the root. -/
def Rebindable (context : Context σ) (P : Scope → Prop) (node : Expr) : Prop :=
  ∀ name ∈ node.target?, ∀ scope v,
    (name ∈ context.external → v = (scope.root.find? name).getD .null) → P scope →
      P (scope.bind name v)

/-- Only assignments and comprehensions touch the scope. -/
theorem safeAt_scope {context : Context σ} {P Q : Scope → Prop} {node : Expr}
    (hassign : Rebindable context P node)
    (henter : ∀ scope binder item, P scope → Q (scope.push.bind binder item)) :
    SafeAt context (scopeRegime P Q) node := by
  have hsettled : ∀ {α : Type} {Good : α → Prop} (hgood : ∀ a, Good a) (site : Site)
      (result : Except Refusal α), Settled Good (scopeRegime P Q : Regime σ).failure site result :=
    fun hgood site result => settled_of_forall hgood (fun _ => trivial) site result
  cases node with
  | program | number | string | boolean | foreign => trivial
  | identifier span name =>
    intro s _
    cases s.scope.lookup? name <;> trivial
  | array => exact fun _ _ => hsettled (fun _ => trivial) _ _
  | unary => exact fun _ _ => hsettled (fun _ => trivial) _ _
  | call span name args =>
    refine ⟨fun _ => trivial, fun run _ args _ => ?_⟩
    exact .invoke (fun _ _ hs => hs) (fun _ _ hs => hs) (fun _ _ _ _ _ => trivial)
      (fun _ _ _ => trivial)
      fun _ => trivial
  | assign span name value =>
    refine ⟨fun hname s hs => ⟨trivial, ?_⟩, fun hname s v hs _ => ?_⟩
    · exact hassign name rfl s.scope _ (fun _ => rfl) hs
    · exact hassign name rfl s.scope v (fun h => absurd h hname) hs
  | conditional => exact fun _ _ => hsettled (fun _ => trivial) _ _
  | comprehension span binder iterable guard body =>
    exact {
      items := fun _ _ => hsettled (fun _ _ _ => trivial) _ _
      enter := fun s item hs _ => henter s.scope binder item hs
      leave := fun s s' hs _ => hs
      guard := fun _ _ _ _ => hsettled (fun _ => trivial) _ _
      list := fun _ _ => hsettled (fun _ => trivial) _ _ }
  | binary | index | range => exact fun _ _ _ _ => hsettled (fun _ => trivial) _ _

/-- What binding keeps of a scope is kept by evaluation, whether it succeeds or fails. -/
theorem scope_kept {context : Context σ} (P Q : Scope → Prop) {e : Expr}
    (houter : ∀ node ∈ e.outer, Rebindable context P node)
    (hinner : e.Everywhere (Rebindable context Q)) (henter : ∀ scope binder item, P scope →
      Q (scope.push.bind binder item))
    (hagain : ∀ scope binder item, Q scope → Q (scope.push.bind binder item))
    {s : State σ} (hs : P s.scope) : P (Evaluation.continueWith context e s).2.scope := by
  have hkeeps : Keeps (scopeRegime P Q).state (scopeRegime P Q : Regime σ).value
      (scopeRegime P Q : Regime σ).failure (e.eval context) :=
    eval_keeps (fun node hnode => safeAt_scope (houter node hnode) henter)
      fun node hnode =>
        (safeAt_scope (hinner node hnode) hagain : SafeAt context (scopeRegime Q Q) node)
  have hafter := hkeeps s hs
  unfold Evaluation.continueWith
  cases hrun : e.eval context s with
  | ok v after =>
    rw [hrun] at hafter
    exact hafter.2
  | error failure after =>
    rw [hrun] at hafter
    exact hafter.2

end Expr

end Formulary
