import Formulary.Proofs.Assigned
import Formulary.Proofs.Escape

/-!
# Names that a formula mentions

A host may supply any number of variables, and a formula sees those that it mentions: the names that
it reads (`Expr.identifiers`) and the names that it assigns (`Expr.assignedNames`), for an
assignment asks whether the host supplies its name.  Two runs in contexts that agree on these names
come to the same (`Evaluation.run_of_mentioned`).

`Run.Concur known x y` compares two runs from states that agree on the names that are `known`: they
return one value or fail with one failure, and agree again.  Inner scopes are the same in both at
every moment, since only a run itself fills them.
-/

set_option autoImplicit false

namespace Formulary

variable {σ : Type}

/-- States that differ at most in what their roots have for names that are not `known`. -/
structure State.AgreeOn (known : String → Prop) (s t : State σ) : Prop where
  inner : s.scope.inner = t.scope.inner
  root : ∀ name, known name → s.scope.root.find? name = t.scope.root.find? name
  host : s.host = t.host
  calls : s.calls = t.calls
  events : s.events = t.events

namespace State.AgreeOn

variable {known : String → Prop} {s t : State σ}

/-- States that agree have the same value for a known name. -/
theorem lookup? (h : s.AgreeOn known t) {name : String} (hname : known name) :
    s.scope.lookup? name = t.scope.lookup? name := by
  rw [Scope.lookup?, Scope.lookup?, h.inner, h.root name hname]

/-- States that agree do so after the same binding. -/
theorem bind (h : s.AgreeOn known t) (name : String) (v : Value) :
    AgreeOn known { s with scope := s.scope.bind name v }
      { t with scope := t.scope.bind name v } where
  inner := by
    have hinner := h.inner
    unfold Scope.bind
    cases hs : s.scope.inner <;> rw [hs] at hinner <;> rw [← hinner]
  root other hother := by rw [Scope.root_bind, Scope.root_bind, h.inner, h.root other hother]
  host := h.host
  calls := h.calls
  events := h.events

/-- States that agree do so in a new table. -/
theorem push (h : s.AgreeOn known t) :
    AgreeOn known { s with scope := s.scope.push } { t with scope := t.scope.push } :=
  { h with inner := congrArg (Bindings.empty :: ·) h.inner }

/-- States that agree do so when a scope is left. -/
theorem pop (h : s.AgreeOn known t) :
    AgreeOn known { s with scope := s.scope.pop } { t with scope := t.scope.pop } :=
  { h with inner := congrArg List.tail h.inner }

end State.AgreeOn

/-! ## Runs from states that agree -/

namespace Run

variable {α β : Type}

/-- The same value or the same failure, in states that agree. -/
def Agreed (known : String → Prop) :
    EStateM.Result Failure (State σ) α → EStateM.Result Failure (State σ) α → Prop
  | .ok a s, .ok b t => a = b ∧ s.AgreeOn known t
  | .error failure s, .error failure' t => failure = failure' ∧ s.AgreeOn known t
  | _, _ => False

/-- Two runs come to the same from states that agree on the known names. -/
def Concur (known : String → Prop) (x y : Run σ α) : Prop :=
  ∀ s t, s.AgreeOn known t → Agreed known (x s) (y t)

namespace Concur

variable {known : String → Prop}

/-- Returning a value concurs with itself. -/
theorem pure (a : α) : Concur known (pure a : Run σ α) (pure a) :=
  fun _ _ hst => ⟨rfl, hst⟩

/-- Failing concurs with itself. -/
theorem throw (failure : Failure) : Concur known (throw failure : Run σ α) (throw failure) :=
  fun _ _ hst => ⟨rfl, hst⟩

/-- An operation at a site concurs with itself. -/
theorem lift (site : Site) (result : Except Refusal α) :
    Concur known (Run.lift site result : Run σ α) (Run.lift site result) := by
  cases result with
  | ok a => exact .pure a
  | error refusal => exact .throw _

/-- Runs that concur can be followed by runs that concur. -/
theorem bind {x y : Run σ α} {k l : α → Run σ β} (hxy : Concur known x y)
    (hkl : ∀ a, Concur known (k a) (l a)) : Concur known (x >>= k) (y >>= l) := by
  intro s t hst
  have hfirst := hxy s t hst
  cases hx : x s with
  | ok a s' =>
    cases hy : y t with
    | ok b t' =>
      rw [hx, hy] at hfirst
      obtain ⟨rfl, hst'⟩ := hfirst
      rw [bind_of_ok hx, bind_of_ok hy]
      exact hkl a s' t' hst'
    | error =>
      rw [hx, hy] at hfirst
      exact hfirst.elim
  | error failure s' =>
    cases hy : y t with
    | ok =>
      rw [hx, hy] at hfirst
      exact hfirst.elim
    | error failure' t' =>
      rw [hx, hy] at hfirst
      rw [bind_of_error hx, bind_of_error hy]
      exact hfirst

/-- Writing an event down concurs with itself. -/
theorem emit (event : Event) : Concur known (Run.emit event : Run σ Unit) (Run.emit event) :=
  fun _ _ hst => ⟨rfl, { hst with events := congrArg (event :: ·) hst.events }⟩

/-- Binding a name concurs with itself. -/
theorem bindName (name : String) (v : Value) :
    Concur known (Run.bind name v : Run σ Unit) (Run.bind name v) :=
  fun _ _ hst => ⟨rfl, hst.bind name v⟩

/-- Runs that concur do so in a scope with the same binding. -/
theorem inScope (name : String) (v : Value) {x y : Run σ α} (h : Concur known x y) :
    Concur known (Run.inScope name v x) (Run.inScope name v y) := by
  intro s t hst
  have hinside := h _ _ (hst.push.bind name v)
  unfold Run.inScope
  cases hx : x { s with scope := s.scope.push.bind name v } <;>
    cases hy : y { t with scope := t.scope.push.bind name v } <;> rw [hx, hy] at hinside
  case ok.ok a s' b t' => exact ⟨hinside.1, hinside.2.pop⟩
  case error.error f s' g t' => exact ⟨hinside.1, hinside.2.pop⟩
  all_goals exact hinside.elim

/-- Loops over the same items concur if their turns do. -/
theorem collect {step step' : Value → Run σ (Option Value)}
    (h : ∀ item, Concur known (step item) (step' item)) (items found : List Value) :
    Concur known (Run.collect step found items) (Run.collect step' found items) := by
  induction items generalizing found with
  | nil => exact .pure _
  | cons item items ih => exact (h item).bind fun yielded => ih _

/-- Answering a reply concurs with itself. -/
theorem answer (site : Site) (name : String) (reply : Reply) :
    Concur known (Run.answer site name reply : Run σ Value) (Run.answer site name reply) := by
  cases reply with
  | raised e => exact .throw _
  | failed text => exact (emit _).bind fun _ => .throw _
  | returned v =>
    unfold Run.answer
    cases hv : v.normalize with
    | ok w => simpa only [hv] using .pure w
    | error fault => simpa only [hv] using .throw _

/-- Calling a function of the host concurs with itself. -/
theorem invoke (site : Site) (name : String) (run : List Value → σ → Reply × σ)
    (args : List Value) :
    Concur known (Run.invoke site name run args) (Run.invoke site name run args) := by
  intro s t hst
  rw [invoke_apply, invoke_apply, ← hst.host]
  exact answer site name _ _ _
    { hst with host := rfl, calls := congrArg (⟨name, args⟩ :: ·) hst.calls }

end Concur

end Run

/-! ## Evaluation in two contexts -/

/-- A context in which the host supplies other variables. -/
def Context.supplying (context : Context σ) (supplied : List (String × Value)) : Context σ :=
  { context with supplied := supplied }

/-- A context with the same functions, limits and source differs in what the host supplies alone. -/
theorem Context.eq_supplying {context context' : Context σ}
    (hcallee : context.callee? = context'.callee?) (hlimits : context.limits = context'.limits)
    (hsource : context.source = context'.source) :
    context' = context.supplying context'.supplied := by
  rw [supplying, hcallee, hlimits, hsource]

namespace Expr

open Run

/-- The name that a node reads or assigns is known. -/
def NameKnown (known : String → Prop) (node : Expr) : Prop :=
  ∀ name, node.reference? = some name ∨ node.target? = some name → known name

variable {context : Context σ} {supplied : List (String × Value)} {known : String → Prop}

/-- Lists of parts concur if the parts do. -/
theorem evalAll_concur {es : List Expr}
    (h : ∀ e ∈ es, Concur known (e.eval context) (e.eval (context.supplying supplied))) :
    Concur known (evalAll context es) (evalAll (context.supplying supplied) es) := by
  induction es with
  | nil => exact .pure []
  | cons e es ih =>
    rw [evalAll, evalAll]
    refine (h e List.mem_cons_self).bind fun v => ?_
    exact (ih fun e he => h e (List.mem_cons_of_mem _ he)).bind fun vs => .pure (v :: vs)

/-- Identifiers with a known name concur. -/
theorem identifier_concur {name : String} (hname : known name) (span : Span) :
    Concur known ((Expr.identifier span name).eval context)
      ((Expr.identifier span name).eval (context.supplying supplied)) := by
  intro s t hst
  rw [eval_identifier, eval_identifier, ← hst.lookup? hname]
  cases s.scope.lookup? name with
  | some v => exact ⟨rfl, hst⟩
  | none => exact ⟨rfl, hst⟩

/-- Calls concur if their arguments do. -/
theorem call_concur (span : Span) (name : String) {es : List Expr}
    (h : ∀ e ∈ es, Concur known (e.eval context) (e.eval (context.supplying supplied))) :
    Concur known ((Expr.call span name es).eval context)
      ((Expr.call span name es).eval (context.supplying supplied)) := by
  have hcallee : (context.supplying supplied).callee? name = context.callee? name := rfl
  rw [eval, eval, hcallee]
  cases context.callee? name with
  | none => exact .throw _
  | some callee =>
    cases callee with
    | notCallable => exact .throw _
    | function run => exact (evalAll_concur h).bind fun args => .invoke _ name run args

/-- Whether an assignment takes the value of the host is the same in both contexts, and so is that
value. -/
theorem assign_concur {name : String} (hname : known name)
    (hexternal : name ∈ context.external ↔ name ∈ (context.supplying supplied).external)
    (span : Span) {value : Expr}
    (h : Concur known (value.eval context) (value.eval (context.supplying supplied))) :
    Concur known ((Expr.assign span name value).eval context)
      ((Expr.assign span name value).eval (context.supplying supplied)) := by
  rw [eval, eval]
  by_cases hhost : name ∈ context.external
  · rw [if_pos (List.contains_iff_mem.mpr hhost),
      if_pos (List.contains_iff_mem.mpr (hexternal.mp hhost))]
    refine (Concur.emit _).bind fun _ s t hst => ?_
    show Agreed known (.ok _ _) (.ok _ _)
    rw [← hst.root name hname]
    exact ⟨rfl, hst.bind name _⟩
  · rw [if_neg fun hmem => hhost (List.contains_iff_mem.mp hmem),
      if_neg fun hmem => hhost (hexternal.mpr (List.contains_iff_mem.mp hmem))]
    exact h.bind fun v => (Concur.bindName name v).bind fun _ => .pure v

/-- Turns concur if their guards and their bodies do. -/
theorem turn_concur {guard : Option Expr} {body : Expr}
    (hguard : ∀ g, guard = some g → Concur known (g.eval context)
      (g.eval (context.supplying supplied)))
    (hbody : Concur known (body.eval context) (body.eval (context.supplying supplied))) :
    Concur known (turn context guard body) (turn (context.supplying supplied) guard body) := by
  cases guard with
  | none => exact hbody.bind fun v => .pure _
  | some g =>
    refine (hguard g rfl).bind fun v => (Concur.lift _ _).bind fun holds => ?_
    cases holds with
    | true => exact hbody.bind fun v => .pure _
    | false => exact .pure none

/-- A tree is evaluated alike in two contexts that differ in names which it does not mention. -/
theorem eval_concur (hexternal : ∀ name, known name →
      (name ∈ context.external ↔ name ∈ (context.supplying supplied).external))
    {e : Expr} (h : e.Everywhere (NameKnown known)) :
    Concur known (e.eval context) (e.eval (context.supplying supplied)) := by
  induction e using byParts with
  | number | string | boolean =>
    rw [eval, eval]
    exact .pure _
  | foreign =>
    rw [eval, eval]
    exact .throw _
  | identifier span name => exact identifier_concur (h.root name (.inl rfl)) span
  | program span es ih =>
    -- A program is evaluated like a list of trees of which the last value counts.
    rw [eval, eval, evalLast_eq, evalLast_eq]
    exact (evalAll_concur fun e he => ih e he (h.part he)).bind fun vs => .pure _
  | array span es ih =>
    rw [eval, eval]
    refine (evalAll_concur fun e he => ih e he (h.part he)).bind fun vs => ?_
    exact (Concur.lift _ _).bind fun _ => .pure _
  | call span name es ih => exact call_concur span name fun e he => ih e he (h.part he)
  | unary span operator a ih =>
    rw [eval, eval]
    exact (ih (h.part (by simp [children]))).bind fun v => .lift _ _
  | assign span name value ih =>
    have hname : known name := h.root name (.inr rfl)
    exact assign_concur hname (hexternal name hname) span (ih (h.part (by simp [children])))
  | conditional span c x y hc hx hy =>
    rw [eval, eval]
    refine (hc (h.part (by simp [children]))).bind fun v => (Concur.lift _ _).bind fun holds => ?_
    cases holds with
    | true => exact hx (h.part (by simp [children]))
    | false => exact hy (h.part (by simp [children]))
  | comprehension span binder iterable guard body hi hg hb =>
    have hturn : Concur known (turn context guard body)
        (turn (context.supplying supplied) guard body) :=
      turn_concur (fun g hguard => hg g hguard (h.part (by simp [children, hguard])))
        (hb (h.part (by cases guard <;> simp [children])))
    rw [eval_comprehension, eval_comprehension]
    refine (hi (h.part (by cases guard <;> simp [children]))).bind fun source => ?_
    refine (Concur.lift _ _).bind fun items => ?_
    refine (Concur.collect (fun item => hturn.inScope binder item) items []).bind fun results => ?_
    exact (Concur.lift _ _).bind fun _ => .pure _
  | binary _ _ _ _ hx hy | index _ _ _ hx hy | range _ _ _ _ hx hy =>
    rw [eval, eval]
    refine (hx (h.part (by simp [children]))).bind fun a => ?_
    exact (hy (h.part (by simp [children]))).bind fun b => .lift _ _

/-- The identifiers of a tree are the names that it refers to. -/
theorem mem_identifiers {e : Expr} {name : String} :
    name ∈ e.identifiers ↔ name ∈ e.references := by
  rw [identifiers, List.mem_mergeSort, List.mem_eraseDups]

/-- Every name that a node reads or assigns is found by the collectors of names. -/
theorem nameKnown_of_mentions (e : Expr) :
    e.Everywhere (NameKnown fun name => name ∈ e.identifiers ∨ name ∈ e.assignedNames) := by
  rintro node hnode name (hreads | hassigns)
  · exact .inl (mem_identifiers.mpr (List.mem_filterMap.mpr ⟨node, hnode, hreads⟩))
  · exact .inr (List.mem_eraseDups.mpr (List.mem_filterMap.mpr ⟨node, hnode, hassigns⟩))

end Expr

/-! ## What a host supplies -/

namespace Context

/-- Variables that all have a normal form can be bound. -/
theorem bindAll_ok {supplied : List (String × Value)}
    (h : ∀ entry ∈ supplied, ∃ w, entry.2.normalize = .ok w) (table : Bindings) :
    ∃ after, bindAll table supplied = .ok after := by
  induction supplied generalizing table with
  | nil => exact ⟨table, rfl⟩
  | cons entry rest ih =>
    obtain ⟨w, hw⟩ := h entry List.mem_cons_self
    rw [bindAll, hw]
    exact ih (fun entry hentry => h entry (List.mem_cons_of_mem _ hentry)) _

/-- A name for which two hosts supply the same normal value, or none, has the same value at the
start. -/
theorem find?_bindAll_congr {supplied supplied' : List (String × Value)}
    {table after after' : Bindings} (h : bindAll table supplied = .ok after)
    (h' : bindAll table supplied' = .ok after') {name : String}
    (hagree : (supplied.reverse.lookup name).map Value.normalize =
      (supplied'.reverse.lookup name).map Value.normalize) :
    after.find? name = after'.find? name := by
  have hfound := find?_bindAll h name
  have hfound' := find?_bindAll h' name
  cases hv : supplied.reverse.lookup name <;> cases hv' : supplied'.reverse.lookup name <;>
    rw [hv] at hfound hagree <;> rw [hv'] at hfound' hagree
  case none.none => rw [hfound, hfound']
  case some.some v v' =>
    obtain ⟨w, hw, hfind⟩ := hfound
    obtain ⟨w', hw', hfind'⟩ := hfound'
    have hsame : v.normalize = v'.normalize := Option.some.inj hagree
    rw [hw, hw'] at hsame
    rw [hfind, hfind', Except.ok.inj hsame]
  all_goals cases hagree

/-- If the variables of the host can be bound, the evaluator begins with them. -/
theorem begin_of_bindAll {context : Context σ} {table : Bindings}
    (h : bindAll .empty context.supplied = .ok table) (host : σ) :
    Evaluator.begin context host = .ok ⟨⟨[], table⟩, host, [], []⟩ := by
  rw [Evaluator.begin, globals, h]
  rfl

end Context

namespace Evaluation

/-- If evaluations agree, the results are the same and the states that are left agree. -/
theorem continueWith_agreed {known : String → Prop} {context context' : Context σ} {e : Expr}
    {s t : State σ} (h : Run.Agreed known (e.eval context s) (e.eval context' t)) :
    (continueWith context e s).1 = (continueWith context' e t).1 ∧
      (continueWith context e s).2.AgreeOn known (continueWith context' e t).2 := by
  unfold continueWith
  cases hs : e.eval context s <;> cases ht : e.eval context' t <;> rw [hs, ht] at h
  case ok.ok => exact ⟨congrArg Except.ok h.1, h.2⟩
  case error.error => exact ⟨congrArg Except.error h.1, h.2⟩
  all_goals exact h.elim

/-- What an evaluation comes to depends only on the names that the tree mentions.  Two contexts have
the same functions, limits and source, all their variables have normal forms, and for each name that
the tree reads or assigns both supply the same normal value, or neither supplies one.  Then the tree
has the same value in both, or fails with the same failure, after the same calls. -/
theorem run_of_mentioned {e : Expr} {context context' : Context σ}
    (hcallee : context.callee? = context'.callee?) (hlimits : context.limits = context'.limits)
    (hsource : context.source = context'.source) (hnormal : ∀ entry ∈ context.supplied, ∃ w,
      entry.2.normalize = .ok w)
    (hnormal' : ∀ entry ∈ context'.supplied, ∃ w, entry.2.normalize = .ok w)
    (hagree : ∀ name, name ∈ e.identifiers ∨ name ∈ e.assignedNames →
      (context.supplied.reverse.lookup name).map Value.normalize =
        (context'.supplied.reverse.lookup name).map Value.normalize) (host : σ) :
    (run (.tree e) context host).result = (run (.tree e) context' host).result ∧
    (run (.tree e) context host).calls = (run (.tree e) context' host).calls ∧
    (run (.tree e) context host).events = (run (.tree e) context' host).events ∧
    (run (.tree e) context host).state.map State.host = (run (.tree e) context' host).state.map
    State.host := by
  obtain ⟨supplied, rfl⟩ : ∃ supplied, context' = context.supplying supplied :=
    ⟨_, Context.eq_supplying hcallee hlimits hsource⟩
  obtain ⟨table, htable⟩ := Context.bindAll_ok hnormal .empty
  obtain ⟨table', htable'⟩ := Context.bindAll_ok hnormal' .empty
  have hexternal : ∀ name, name ∈ e.identifiers ∨ name ∈ e.assignedNames →
      (name ∈ context.external ↔ name ∈ (context.supplying supplied).external) := by
    intro name hname
    have hsome := congrArg Option.isSome (hagree name hname)
    rw [Option.isSome_map, Option.isSome_map] at hsome
    rw [Context.mem_external_iff, Context.mem_external_iff, ← Option.isSome_iff_exists, ←
      Option.isSome_iff_exists, hsome]
  -- At the start the scopes have no inner tables, and the roots agree on the names that are
  -- mentioned.
  have hconcur := Expr.eval_concur hexternal e.nameKnown_of_mentions ⟨⟨[], table⟩, host, [], []⟩
    ⟨⟨[], table'⟩, host, [], []⟩
    ⟨rfl, fun name hname => Context.find?_bindAll_congr htable htable' (hagree name hname),
      rfl, rfl, rfl⟩
  obtain ⟨hresult, hstates⟩ := continueWith_agreed hconcur
  have hrun := @run_eq _ (.tree e) context _ host _ _ rfl (Context.begin_of_bindAll htable host)
  have hrun' := @run_eq _ (.tree e) (context.supplying supplied) _ host _ _ rfl
    (Context.begin_of_bindAll htable' host)
  rw [hrun, hrun']
  refine ⟨hresult, congrArg List.reverse hstates.calls, congrArg List.reverse hstates.events, ?_⟩
  exact congrArg some hstates.host

/-- A variable that is not mentioned can have any value: the formula assigns `x`, which keeps the
host's value, and calls a function with its characters. -/
theorem run_of_mentioned_unmentioned :
    let callee? : String → Option (Callee Unit) := fun name =>
      if name = "f" then some
        (.function fun args host => (.returned (.list (args ++ args)), host)) else none
    let e : Expr := .program .none [.assign .none "x" (.identifier .none "y"),
      .call .none "f" [.comprehension .none "i" (.identifier .none "x") none
        (.identifier .none "i")]]
    let context : Context Unit :=
      ⟨callee?, [("x", .string "ab"), ("secret", .boolean true)], .standard, none⟩
    let context' : Context Unit :=
      ⟨callee?, [("secret", .string "s"), ("x", .string "ab")], .standard, none⟩
    e.references = ["y", "x", "i"] ∧ e.assignedNames = ["x"] ∧
    (run (.tree e) context ()).calls = [⟨"f", [.list [.string "a", .string "b"]]⟩] ∧
    (run (.tree e) context ()).result = (run (.tree e) context' ()).result ∧
    (run (.tree e) context ()).calls = (run (.tree e) context' ()).calls ∧
    (run (.tree e) context ()).events = (run (.tree e) context' ()).events ∧
    (run (.tree e) context ()).state.map State.host = (run (.tree e) context' ()).state.map
      State.host := by
  intro callee? e context context'
  have hreads : e.references = ["y", "x", "i"] := by decide +kernel
  have hassigns : e.assignedNames = ["x"] := by decide +kernel
  have hnormal : ∀ entry ∈ context.supplied, ∃ w, entry.2.normalize = .ok w := by
    simp [context, Value.normalize]
  have hnormal' : ∀ entry ∈ context'.supplied, ∃ w, entry.2.normalize = .ok w := by
    simp [context', Value.normalize]
  refine ⟨hreads, hassigns, rfl,
    @run_of_mentioned _ e context context' rfl rfl rfl hnormal hnormal' ?_ ()⟩
  intro name hname
  rw [Expr.mem_identifiers, hreads, hassigns] at hname
  simp only [List.mem_cons, List.not_mem_nil, or_false] at hname
  rcases hname with (rfl | rfl | rfl) | rfl <;> rfl

end Evaluation

end Formulary
