import Formulary.Proofs.LibraryUnrolling

/-!
# Lazy ranges

A formula cannot tell an exact range from the list that it stands for.  `Run.Alike` compares two
runs that start in states which are the same once exact ranges are unrolled: they end in such
states, with values of that kind or with one failure.  Every construct of the language respects it
(`Expr.eval_alike`), given that the functions of the host do, and those of the library do
(`Context.library_alike`).

One function of the library is out of the comparison, since its reply depends on a clock.  `Alike`
says nothing of runs that have called a function whose name is exempt; that this has happened is
seen in the log of calls, from which nothing is ever removed.
-/

set_option autoImplicit false

namespace Formulary

variable {σ : Type}

/-! ## States -/

/-- A table with its values unrolled. -/
def Bindings.unrolled (table : Bindings) : Bindings :=
  ⟨table.entries.map (Prod.map id Value.unrolled)⟩

/-- A scope with its values unrolled. -/
def Scope.unrolled (scope : Scope) : Scope :=
  ⟨scope.inner.map Bindings.unrolled, scope.root.unrolled⟩

/-- A call with its arguments unrolled. -/
def Call.unrolled (call : Call) : Call :=
  ⟨call.name, call.arguments.map Value.unrolled⟩

/-- A state with the values in it unrolled. -/
def State.unrolled (s : State σ) : State σ :=
  ⟨s.scope.unrolled, s.host, s.calls.map Call.unrolled, s.events⟩

namespace Bindings

/-- Finding a name in an unrolled table finds the unrolled value. -/
theorem find?_unrolled (table : Bindings) (name : String) :
    table.unrolled.find? name = (table.find? name).map Value.unrolled := by
  obtain ⟨entries⟩ := table
  show (entries.map (Prod.map id Value.unrolled)).lookup name =
    (entries.lookup name).map Value.unrolled
  induction entries with
  | nil => rfl
  | cons entry entries ih =>
    obtain ⟨other, v⟩ := entry
    rw [List.map_cons, Prod.map_apply, id_eq, List.lookup_cons, List.lookup_cons, ih]
    cases name == other <;> rfl

/-- Inserting into a table commutes with unrolling. -/
theorem insert_unrolled (table : Bindings) (name : String) (v : Value) :
    (table.insert name v).unrolled = table.unrolled.insert name v.unrolled := by
  obtain ⟨entries⟩ := table
  refine congrArg Bindings.mk ?_
  show (insertInto name v entries).map (Prod.map id Value.unrolled) =
    insertInto name v.unrolled (entries.map (Prod.map id Value.unrolled))
  induction entries with
  | nil => rfl
  | cons entry entries ih =>
    obtain ⟨other, w⟩ := entry
    rw [List.map_cons, Prod.map_apply, id_eq, insertInto, insertInto]
    by_cases h : other = name
    · rw [if_pos h, if_pos h]
      rfl
    · rw [if_neg h, if_neg h, List.map_cons, ih]
      rfl

end Bindings

namespace Scope

/-- Looking a name up in an unrolled scope finds the unrolled value. -/
theorem lookup?_unrolled (scope : Scope) (name : String) :
    scope.unrolled.lookup? name = (scope.lookup? name).map Value.unrolled := by
  have hinner : (scope.inner.map Bindings.unrolled).findSome? (·.find? name) =
      (scope.inner.findSome? (·.find? name)).map Value.unrolled := by
    rw [List.findSome?_map, List.map_findSome?]
    refine congrArg (List.findSome? · scope.inner) ?_
    funext table
    exact table.find?_unrolled name
  show ((scope.inner.map Bindings.unrolled).findSome? (·.find? name)).orElse
    (fun _ => scope.root.unrolled.find? name) = _
  rw [hinner, Bindings.find?_unrolled]
  unfold lookup?
  cases scope.inner.findSome? (·.find? name) <;> rfl

/-- Binding a name commutes with unrolling. -/
theorem bind_unrolled (scope : Scope) (name : String) (v : Value) :
    (scope.bind name v).unrolled = scope.unrolled.bind name v.unrolled := by
  obtain ⟨inner, root⟩ := scope
  cases inner with
  | nil => exact congrArg (Scope.mk []) (root.insert_unrolled name v)
  | cons table outer =>
    exact congrArg (fun table => Scope.mk (table :: outer.map Bindings.unrolled) root.unrolled)
      (table.insert_unrolled name v)

/-- Leaving a scope commutes with unrolling. -/
theorem pop_unrolled (scope : Scope) : scope.pop.unrolled = scope.unrolled.pop := by
  obtain ⟨inner, root⟩ := scope
  cases inner <;> rfl

end Scope

namespace State

variable {s t : State σ}

/-- States that unrolling makes the same have scopes that unrolling makes the same. -/
theorem scope_of_unrolled (h : s.unrolled = t.unrolled) : s.scope.unrolled = t.scope.unrolled :=
  congrArg State.scope h

/-- States that unrolling makes the same stay so if their scopes are exchanged for such scopes. -/
theorem unrolled_of_scope (h : s.unrolled = t.unrolled) {scope scope' : Scope}
    (hscope : scope.unrolled = scope'.unrolled) :
    State.unrolled { s with scope := scope } = State.unrolled { t with scope := scope' } := by
  obtain ⟨-, hhost, hcalls, hevents⟩ := State.mk.inj h
  unfold unrolled
  rw [hscope, hhost, hcalls, hevents]

/-- Binding a name to values that unrolling makes the same. -/
theorem unrolled_bind (h : s.unrolled = t.unrolled) (name : String) {v w : Value}
    (hvw : v.unrolled = w.unrolled) :
    State.unrolled { s with scope := s.scope.bind name v } =
      State.unrolled { t with scope := t.scope.bind name w } := by
  apply unrolled_of_scope h
  rw [Scope.bind_unrolled, Scope.bind_unrolled, scope_of_unrolled h, hvw]

/-- Opening a table commutes with unrolling. -/
theorem unrolled_push (h : s.unrolled = t.unrolled) :
    State.unrolled { s with scope := s.scope.push } = State.unrolled
      { t with scope := t.scope.push } :=
  congrArg (fun s : State σ => { s with scope := s.scope.push }) h

/-- Closing a table commutes with unrolling. -/
theorem unrolled_pop (h : s.unrolled = t.unrolled) :
    State.unrolled { s with scope := s.scope.pop } = State.unrolled
      { t with scope := t.scope.pop } := by
  apply unrolled_of_scope h
  rw [Scope.pop_unrolled, Scope.pop_unrolled, scope_of_unrolled h]

/-- A function whose name is exempt has been called. -/
def Called (exempt : String → Prop) (s : State σ) : Prop :=
  ∃ call ∈ s.calls, exempt call.name

end State

/-! ## Runs -/

namespace Run

variable {α β γ δ : Type} {exempt : String → Prop} {f : α → β} {g : γ → δ}

/-- What a run comes to, with its state unrolled. -/
def image (f : α → β) : EStateM.Result Failure (State σ) α → EStateM.Result Failure (State σ) β
  | .ok a s => .ok (f a) s.unrolled
  | .error failure s => .error failure s.unrolled

/-- What has the image of a value is a value with the same image. -/
theorem exists_of_image_ok {a : α} {s : State σ} {r : EStateM.Result Failure (State σ) α}
    (h : image f (.ok a s) = image f r) :
    ∃ b t, r = .ok b t ∧ f a = f b ∧ s.unrolled = t.unrolled := by
  cases r with
  | ok b t =>
    obtain ⟨hab, hst⟩ := EStateM.Result.ok.inj h
    exact ⟨b, t, rfl, hab, hst⟩
  | error failure t => cases h

/-- What has the image of a failure is the same failure. -/
theorem exists_of_image_error {failure : Failure} {s : State σ}
    {r : EStateM.Result Failure (State σ) α} (h : image f (.error failure s) = image f r) :
    ∃ t, r = .error failure t ∧ s.unrolled = t.unrolled := by
  cases r with
  | ok b t => cases h
  | error failure' t =>
    obtain ⟨rfl, hst⟩ := EStateM.Result.error.inj h
    exact ⟨t, rfl, hst⟩

/-- Two runs from states that unrolling makes the same do the same up to unrolling, unless an exempt
function is called. -/
structure Alike (exempt : String → Prop) (f : α → β) (x y : Run σ α) : Prop where
  keeps : ∀ s, s.Called exempt → (after (x s)).Called exempt
  same : ∀ s t, s.unrolled = t.unrolled → (after (x s)).Called exempt ∨
    image f (x s) = image f (y t)

namespace Alike

/-- Returning values with the same image goes alike. -/
theorem pure {a b : α} (h : f a = f b) : Alike exempt f (pure a : Run σ α) (pure b) where
  keeps _ hs := hs
  same s t hst := by
    refine .inr ?_
    show EStateM.Result.ok (f a) s.unrolled = .ok (f b) t.unrolled
    rw [h, hst]

/-- Failing with the same failure goes alike. -/
theorem throw (failure : Failure) : Alike exempt f (throw failure : Run σ α) (throw failure) where
  keeps _ hs := hs
  same _ _ hst := .inr (congrArg (EStateM.Result.error failure) hst)

/-- Operations that are the same up to unrolling go alike. -/
theorem lift {x y : Except Refusal α} (h : SameBy f x y) (site : Site) :
    Alike exempt f (lift site x : Run σ α) (lift site y) := by
  rcases h.cases with ⟨a, b, rfl, rfl, hab⟩ | ⟨refusal, rfl, rfl⟩
  · exact .pure hab
  · exact .throw _

/-- Runs that go alike can be followed by runs that go alike from values with the same image. -/
theorem bind {x y : Run σ α} {k l : α → Run σ γ} (hxy : Alike exempt f x y)
    (hkl : ∀ a b, f a = f b → Alike exempt g (k a) (l b)) : Alike exempt g (x >>= k) (y >>= l) where
  keeps s hs := by
    have hafter := hxy.keeps s hs
    cases hx : x s with
    | ok a s' =>
      rw [hx] at hafter
      rw [bind_of_ok hx]
      exact (hkl a a rfl).keeps s' hafter
    | error failure s' =>
      rw [hx] at hafter
      rw [bind_of_error hx]
      exact hafter
  same s t hst := by
    have hfirst := hxy.same s t hst
    cases hx : x s with
    | ok a s' =>
      rw [hx] at hfirst
      rw [bind_of_ok hx]
      rcases hfirst with hcalled | himage
      · exact .inl ((hkl a a rfl).keeps s' hcalled)
      · obtain ⟨b, t', hy, hab, hst'⟩ := exists_of_image_ok himage
        rw [bind_of_ok hy]
        exact (hkl a b hab).same s' t' hst'
    | error failure s' =>
      rw [hx] at hfirst
      rw [bind_of_error hx]
      refine hfirst.imp id fun himage => ?_
      obtain ⟨t', hy, hst'⟩ := exists_of_image_error himage
      rw [bind_of_error hy]
      exact congrArg (EStateM.Result.error failure) hst'

/-- A change of the state that commutes with unrolling and leaves the log of calls alone. -/
theorem modify {u w : State σ → State σ} (hcalls : ∀ s, (u s).calls = s.calls)
    (h : ∀ s t, s.unrolled = t.unrolled → (u s).unrolled = (w t).unrolled) :
    Alike exempt id (modify u : Run σ Unit) (modify w) where
  keeps s hs := by
    obtain ⟨call, hmem, hname⟩ := hs
    exact ⟨call, (hcalls s).symm ▸ hmem, hname⟩
  same s t hst := .inr (congrArg (EStateM.Result.ok ()) (h s t hst))

/-- Runs that look at their states go alike if what follows does from states that unrolling makes
the same. -/
theorem get {k l : State σ → Run σ α} (h : ∀ s t, s.unrolled = t.unrolled →
    Alike exempt f (k s) (l t)) :
    Alike exempt f (get >>= k) (get >>= l) where
  keeps s hs := (h s s rfl).keeps s hs
  same s t hst := (h s t hst).same s t hst

/-- Writing an event down goes alike. -/
theorem emit (event : Event) : Alike exempt id (emit event : Run σ Unit) (emit event) := by
  refine .modify (fun _ => rfl) fun s t hst => ?_
  exact congrArg (fun s : State σ => { s with events := event :: s.events }) hst

/-- Binding a name to values that unrolling makes the same goes alike. -/
theorem bindName (name : String) {v w : Value} (h : v.unrolled = w.unrolled) :
    Alike exempt id (Run.bind name v : Run σ Unit) (Run.bind name w) :=
  .modify (fun _ => rfl) fun _ _ hst => State.unrolled_bind hst name h

/-- Runs that go alike do so in scopes where a name is bound to values that unrolling makes the
same. -/
theorem inScope (name : String) {v w : Value} (hvw : v.unrolled = w.unrolled) {x y : Run σ α}
    (h : Alike exempt f x y) : Alike exempt f (inScope name v x) (inScope name w y) where
  keeps s hs := by
    have hafter := h.keeps { s with scope := s.scope.push.bind name v } hs
    unfold Run.inScope
    cases hx : x { s with scope := s.scope.push.bind name v } <;> rw [hx] at hafter <;> exact hafter
  same s t hst := by
    have hinside := h.same _ _ (State.unrolled_bind (State.unrolled_push hst) name hvw)
    unfold Run.inScope
    dsimp only at hinside
    cases hx : x { s with scope := s.scope.push.bind name v } with
    | ok a s' =>
      rw [hx] at hinside
      refine hinside.imp id fun himage => ?_
      obtain ⟨b, t', hy, hab, hst'⟩ := exists_of_image_ok himage
      rw [hy]
      exact congrArg₂ EStateM.Result.ok hab (State.unrolled_pop hst')
    | error failure s' =>
      rw [hx] at hinside
      refine hinside.imp id fun himage => ?_
      obtain ⟨t', hy, hst'⟩ := exists_of_image_error himage
      rw [hy]
      exact congrArg (EStateM.Result.error failure) (State.unrolled_pop hst')

/-- Loops over items of the same kind; what has been found so far is of the same kind as well. -/
theorem collect {step step' : Value → Run σ (Option Value)}
    (h : ∀ v w, v.unrolled = w.unrolled → Alike exempt (Option.map Value.unrolled)
      (step v) (step' w))
    {items items' found found' : List Value}
    (hitems : items.map Value.unrolled = items'.map Value.unrolled)
    (hfound : found.map Value.unrolled = found'.map Value.unrolled) :
    Alike exempt (List.map Value.unrolled) (collect step found items)
      (collect step' found' items') := by
  induction items generalizing items' found found' with
  | nil =>
    obtain rfl : items' = [] := List.map_eq_nil_iff.mp hitems.symm
    refine .pure ?_
    rw [List.map_reverse, List.map_reverse, hfound]
  | cons v items ih =>
    obtain ⟨w, items', rfl, hw, hrest⟩ := List.map_eq_cons_iff.mp hitems.symm
    refine (h v w hw.symm).bind fun a b hab => ih hrest.symm ?_
    rw [List.map_append, List.map_append, ← Option.toList_map, ← Option.toList_map, hab, hfound]

end Alike

end Run

/-! ## Functions -/

/-- A reply with what it returns unrolled. -/
def Reply.unrolled : Reply → Reply
  | .returned v => .returned v.unrolled
  | reply => reply

/-- Functions that give the same replies to the same arguments, up to unrolling. -/
def Callee.Blind (run run' : List Value → σ → Reply × σ) : Prop :=
  ∀ args args' host, args.map Value.unrolled = args'.map Value.unrolled →
    (run args host).1.unrolled = (run' args' host).1.unrolled ∧
      (run args host).2 = (run' args' host).2

/-- What a name stands for in one context and in another. -/
inductive Callee.Alike (exempt : Prop) : Option (Callee σ) → Option (Callee σ) → Prop
  | missing : Alike exempt none none
  | notCallable : Alike exempt (some .notCallable) (some .notCallable)
  | function {run run' : List Value → σ → Reply × σ} (h : exempt ∨ Callee.Blind run run') :
      Alike exempt (some (.function run)) (some (.function run'))

namespace Run.Alike

variable {exempt : String → Prop}

/-- A value that a function returns is answered with its normal form, or with the failure of the
function. -/
theorem answer_returned (site : Site) (name : String) (v : Value) :
    (Run.answer site name (.returned v) : Run σ Value) = Run.lift site
      (v.normalize.mapError fun fault =>
      .cause (.functionFailed name ("returned unsupported value (" ++ fault.message ++ ")"))) := by
  rw [Run.answer]
  cases v.normalize <;> rfl

/-- Replies that unrolling makes the same are answered alike. -/
theorem answer (site : Site) (name : String) {reply reply' : Reply}
    (h : reply.unrolled = reply'.unrolled) :
    Alike exempt Value.unrolled (answer site name reply : Run σ Value)
      (answer site name reply') := by
  cases reply with
  | raised e =>
    cases reply' with
    | raised e' =>
      obtain rfl : e = e' := Reply.raised.inj h
      exact .throw _
    | failed text' => cases h
    | returned v' => cases h
  | failed text =>
    cases reply' with
    | raised e' => cases h
    | failed text' =>
      obtain rfl : text = text' := Reply.failed.inj h
      exact (Alike.emit _).bind fun _ _ _ => .throw _
    | returned v' => cases h
  | returned v =>
    cases reply' with
    | raised e' => cases h
    | failed text' => cases h
    | returned v' =>
      have hnormal : SameBy Value.unrolled v.normalize v'.normalize :=
        .transfer Value.normalize_unrolled (Reply.returned.inj h)
      rw [answer_returned, answer_returned]
      exact .lift (hnormal.mapError _) site

/-- A function that was called stays in the log. -/
theorem called_answer (site : Site) (name : String) (reply : Reply) {s : State σ}
    (hs : s.Called exempt) :
    (after (Run.answer site name reply s)).Called exempt :=
  (answer site name rfl).keeps s hs

/-- Calls of a blind or exempt function with arguments that unrolling makes the same go alike. -/
theorem invoke (site : Site) {name : String} {run run' : List Value → σ → Reply × σ}
    (h : exempt name ∨ Callee.Blind run run') {args args' : List Value}
    (hargs : args.map Value.unrolled = args'.map Value.unrolled) :
    Alike exempt Value.unrolled (invoke site name run args) (invoke site name run' args') where
  keeps s hs := by
    obtain ⟨call, hmem, hname⟩ := hs
    rw [invoke_apply]
    exact called_answer site name _ ⟨call, List.mem_cons_of_mem _ hmem, hname⟩
  same s t hst := by
    rw [invoke_apply, invoke_apply]
    rcases h with hexempt | hblind
    · exact .inl (called_answer site name _ ⟨_, List.mem_cons_self, hexempt⟩)
    · obtain ⟨hscope, hhost, hcalls, hevents⟩ := State.mk.inj hst
      obtain ⟨hreply, hhost'⟩ := hblind args args' s.host hargs
      rw [← hhost, ← hhost']
      refine (answer site name hreply).same _ _ ?_
      unfold State.unrolled
      rw [List.map_cons, List.map_cons, hscope, hcalls, hevents]
      unfold Call.unrolled
      rw [hargs]

/-- A condition selects the same branch. -/
theorem branch (site : Site) {v w : Value} (hvw : v.unrolled = w.unrolled) {α β : Type} {f : α → β}
    {x x' y y' : Run σ α} (hx : Alike exempt f x x') (hy : Alike exempt f y y') :
    Alike exempt f (do
      let holds ← Run.lift site v.truth
      if holds then x else y) (do
      let holds ← Run.lift site w.truth
      if holds then x' else y') := by
  have htruth : v.truth = w.truth := by rw [← v.truth_unrolled, hvw, w.truth_unrolled]
  have hlift : Alike exempt id (Run.lift site v.truth : Run σ Bool) (Run.lift site w.truth) :=
    .lift (.of_eq htruth) site
  refine hlift.bind fun holds holds' hholds => ?_
  obtain rfl : holds = holds' := hholds
  cases holds with
  | true => exact hx
  | false => exact hy

/-- An array is made of what was collected. -/
theorem list (limits : Limits) {vs ws : List Value}
    (h : vs.map Value.unrolled = ws.map Value.unrolled) :
    Alike exempt Value.unrolled (do
      Run.lift .unknown (Value.withinLimit limits .arrayLength vs.length)
      return .list vs : Run σ Value) (do
      Run.lift .unknown (Value.withinLimit limits .arrayLength ws.length)
      return .list ws) := by
  have hlength : vs.length = ws.length := by simpa using congrArg List.length h
  have hlift : Alike exempt id
      (Run.lift .unknown (Value.withinLimit limits .arrayLength vs.length) : Run σ Unit)
      (Run.lift .unknown (Value.withinLimit limits .arrayLength ws.length)) := by
    rw [hlength]
    exact .lift (.of_eq rfl) _
  refine hlift.bind fun _ _ _ => .pure ?_
  rw [Value.unrolled_list, Value.unrolled_list, h]

end Run.Alike

/-! ## Trees -/

/-- Contexts that differ in exact ranges and in exempt functions only. -/
structure Context.Alike (exempt : String → Prop) (context context' : Context σ) : Prop where
  limits : context.limits = context'.limits
  source : context.source = context'.source
  supplied : context.supplied.map (Prod.map id Value.unrolled) = context'.supplied.map
    (Prod.map id Value.unrolled)
  callee : ∀ name, Callee.Alike (exempt name) (context.callee? name) (context'.callee? name)

namespace Context.Alike

variable {exempt : String → Prop} {context context' : Context σ}

/-- Alike contexts give a span the same site. -/
theorem siteOf (h : context.Alike exempt context') (span : Span) :
    context.siteOf span = context'.siteOf span := by
  unfold Context.siteOf
  rw [h.source]

/-- Alike contexts have the same names of the host. -/
theorem external (h : context.Alike exempt context') : context.external = context'.external := by
  have hnames := congrArg (List.map Prod.fst) h.supplied
  rw [List.map_map, List.map_map] at hnames
  exact hnames

end Context.Alike

namespace Expr

open Run

variable {exempt : String → Prop} {context context' : Context σ}

section Lists

variable {es : List Expr} (h : ∀ e ∈ es, Run.Alike exempt Value.unrolled (e.eval context)
  (e.eval context'))
include h

/-- Lists of parts go alike if the parts do. -/
theorem evalAll_alike :
    Run.Alike exempt (List.map Value.unrolled) (evalAll context es) (evalAll context' es) := by
  induction es with
  | nil =>
    rw [evalAll, evalAll]
    exact .pure rfl
  | cons e es ih =>
    rw [evalAll, evalAll]
    refine (h e List.mem_cons_self).bind fun v w hvw => ?_
    refine (ih fun e he => h e (List.mem_cons_of_mem _ he)).bind fun vs ws hvs => .pure ?_
    rw [List.map_cons, List.map_cons, hvw, hvs]

/-- Statements go alike if each of them does. -/
theorem evalLast_alike (result : Value) :
    Run.Alike exempt Value.unrolled (evalLast context result es) (evalLast context' result es) := by
  rw [evalLast_eq, evalLast_eq]
  refine (evalAll_alike h).bind fun vs ws hvs => .pure ?_
  calc (vs.getLastD result).unrolled
      = (vs.map Value.unrolled).getLastD result.unrolled := List.getLastD_map.symm
    _ = (ws.map Value.unrolled).getLastD result.unrolled := by rw [hvs]
    _ = (ws.getLastD result).unrolled := List.getLastD_map

end Lists

/-- Identifiers go alike. -/
theorem identifier_alike (hcontext : context.Alike exempt context') (span : Span) (name : String) :
    Run.Alike exempt Value.unrolled ((identifier span name).eval context)
      ((identifier span name).eval context') where
  keeps s hs := by
    rw [eval_identifier]
    cases s.scope.lookup? name <;> exact hs
  same s t hst := by
    have hvalue : (s.scope.lookup? name).map Value.unrolled =
        (t.scope.lookup? name).map Value.unrolled := by
      rw [← Scope.lookup?_unrolled, ← Scope.lookup?_unrolled, State.scope_of_unrolled hst]
    rw [eval_identifier, eval_identifier, hcontext.siteOf]
    cases hs : s.scope.lookup? name with
    | some v =>
      rw [hs] at hvalue
      obtain ⟨w, ht, hvw⟩ := Option.map_eq_some_iff.mp hvalue.symm
      rw [ht]
      exact (Run.Alike.pure hvw.symm).same s t hst
    | none =>
      rw [hs] at hvalue
      rw [Option.map_eq_none_iff.mp hvalue.symm]
      exact (Run.Alike.throw _).same s t hst

/-- Calls go alike if their arguments do. -/
theorem call_alike (hcontext : context.Alike exempt context') (span : Span) (name : String)
    {es : List Expr} (h : ∀ e ∈ es, Run.Alike exempt Value.unrolled (e.eval context)
      (e.eval context')) :
    Run.Alike exempt Value.unrolled ((call span name es).eval context)
      ((call span name es).eval context') := by
  rw [eval, eval, hcontext.siteOf]
  have hcallee := hcontext.callee name
  generalize context.callee? name = callee at hcallee
  generalize context'.callee? name = callee' at hcallee
  cases hcallee with
  | missing | notCallable => exact .throw _
  | function hrun => exact (evalAll_alike h).bind fun args args' hargs => .invoke _ hrun hargs

/-- Assignments go alike if their values do. -/
theorem assign_alike (hcontext : context.Alike exempt context') (span : Span) (name : String)
    {value : Expr} (h : Run.Alike exempt Value.unrolled (value.eval context)
      (value.eval context')) :
    Run.Alike exempt Value.unrolled ((assign span name value).eval context)
      ((assign span name value).eval context') := by
  have hbind : ∀ v w : Value, v.unrolled = w.unrolled → Run.Alike exempt Value.unrolled (do
      Run.bind name v
      pure v : Run σ Value) (do
      Run.bind name w
      pure w) := by
    intro v w hvw
    exact (Run.Alike.bindName name hvw).bind fun _ _ _ => .pure hvw
  rw [eval, eval, hcontext.external]
  by_cases hname : context'.external.contains name = true
  · rw [if_pos hname, if_pos hname]
    refine (Run.Alike.emit _).bind fun _ _ _ => .get fun s t hst => hbind _ _ ?_
    have hroot : s.scope.root.unrolled = t.scope.root.unrolled :=
      congrArg Scope.root (State.scope_of_unrolled hst)
    have hvalue : (s.scope.root.find? name).map Value.unrolled =
        (t.scope.root.find? name).map Value.unrolled := by
      rw [← Bindings.find?_unrolled, ← Bindings.find?_unrolled, hroot]
    have hnull := congrArg (Option.getD · (Value.unrolled .null)) hvalue
    simpa only [Option.getD_map] using hnull
  · rw [if_neg hname, if_neg hname]
    exact h.bind hbind

/-- Turns go alike if their guards and their bodies do. -/
theorem turn_alike (hcontext : context.Alike exempt context') {guard : Option Expr} {body : Expr}
    (hguard : ∀ g, guard = some g → Run.Alike exempt Value.unrolled (g.eval context)
      (g.eval context'))
    (hbody : Run.Alike exempt Value.unrolled (body.eval context) (body.eval context')) :
    Run.Alike exempt (Option.map Value.unrolled) (turn context guard body)
      (turn context' guard body) := by
  have hyield : Run.Alike exempt (Option.map Value.unrolled) (do
      let v ← body.eval context
      pure (some v)) (do
      let v ← body.eval context'
      pure (some v)) :=
    hbody.bind fun v w hvw => .pure (congrArg some hvw)
  cases guard with
  | none => exact hyield
  | some g =>
    rw [turn, turn, hcontext.siteOf]
    exact (hguard g rfl).bind fun v w hvw => .branch _ hvw hyield (.pure rfl)

/-- Evaluation in contexts that differ in exact ranges only does the same up to unrolling.  The
cases are those of the constructors, each a chain of steps that do. -/
theorem eval_alike (hcontext : context.Alike exempt context') (e : Expr) :
    Run.Alike exempt Value.unrolled (e.eval context) (e.eval context') := by
  induction e using byParts with
  | number | string | boolean =>
    rw [eval, eval]
    exact .pure rfl
  | foreign =>
    rw [eval, eval]
    exact .throw _
  | identifier span name => exact identifier_alike hcontext span name
  | program span es ih =>
    rw [eval, eval]
    exact evalLast_alike ih _
  | array span es ih =>
    rw [eval, eval, hcontext.limits]
    exact (evalAll_alike ih).bind fun vs ws hvs => .list _ hvs
  | call span name es ih => exact call_alike hcontext span name ih
  | unary span operator a ih =>
    rw [eval, eval, hcontext.siteOf]
    refine ih.bind fun v w hvw => .lift (.of_eq ?_) _
    rw [← Value.applyUnary_unrolled, hvw, Value.applyUnary_unrolled]
  | assign span name value ih => exact assign_alike hcontext span name ih
  | conditional span c x y hc hx hy =>
    rw [eval, eval, hcontext.siteOf]
    exact hc.bind fun v w hvw => .branch _ hvw hx hy
  | comprehension span binder iterable guard body hi hg hb =>
    rw [eval_comprehension, eval_comprehension, hcontext.siteOf, hcontext.limits]
    refine hi.bind fun source source' hsource => ?_
    refine (Run.Alike.lift (.transfer Value.items_unrolled hsource) _).bind
      fun items items' hitems => ?_
    -- The items are alike one by one, so the binder may hold a range on one side and a list on the
    -- other.
    have hturn : ∀ v w : Value, v.unrolled = w.unrolled →
        Run.Alike exempt (Option.map Value.unrolled)
        (inScope binder v (turn context guard body))
          (inScope binder w (turn context' guard body)) := by
      intro v w hvw
      exact .inScope binder hvw (turn_alike hcontext hg hb)
    exact (Run.Alike.collect hturn hitems rfl).bind fun results results' hresults =>
      .list _ hresults
  | binary span operator x y hx hy =>
    rw [eval, eval, hcontext.siteOf, hcontext.limits]
    refine hx.bind fun a a' ha => hy.bind fun b b' hb => ?_
    exact .lift (.transfer₂ (Value.applyBinary_unrolled _ operator) ha hb) _
  | index span x y hx hy =>
    rw [eval, eval, hcontext.siteOf]
    exact hx.bind fun a a' ha => hy.bind fun b b' hb =>
      .lift (.transfer₂ Value.element_unrolled ha hb) _
  | range span x y inclusive hx hy =>
    rw [eval, eval, hcontext.siteOf, hcontext.limits]
    refine hx.bind fun a a' ha => hy.bind fun b b' hb => .lift (.of_eq ?_) _
    rw [← Value.buildRange_unrolled, ha, hb, Value.buildRange_unrolled]

end Expr

/-! ## Contexts -/

/-- Results that are the same up to unrolling make replies that are. -/
theorem Reply.ofResult_unrolled {x y : Except Refusal Value} (h : SameBy Value.unrolled x y) :
    (Reply.ofResult x).unrolled = (Reply.ofResult y).unrolled := by
  rcases h.cases with ⟨v, w, rfl, rfl, hvw⟩ | ⟨refusal, rfl, rfl⟩
  · exact congrArg Reply.returned hvw
  · rfl

namespace Context

/-- What a name stands for in the library, with one clock and with another. -/
theorem library_alike (clock clock' : Timestamp) (name : String) :
    Callee.Alike (name = "now") (withLibrary clock (fun _ => none) name : Option (Callee σ))
      (withLibrary clock' (fun _ => none) name) := by
  show Callee.Alike _ ((Library.find? clock name).map Library.Function.callee)
    ((Library.find? clock' name).map Library.Function.callee)
  by_cases hname : name = "now"
  · subst hname
    exact .function (.inl rfl)
  · rw [← Library.find?_of_ne_now hname clock clock']
    cases hfind : Library.find? clock name with
    | none => exact .missing
    | some f =>
      refine .function (.inr fun args args' host hargs => ⟨?_, rfl⟩)
      exact Reply.ofResult_unrolled (.transfer (Library.blind_of_find? hfind) hargs)

/-- Variables that unrolling makes the same are bound to tables that unrolling makes the same. -/
theorem bindAll_unrolled {table table' : Bindings} (htable : table.unrolled = table'.unrolled)
    {supplied supplied' : List (String × Value)}
    (h : supplied.map (Prod.map id Value.unrolled) = supplied'.map (Prod.map id Value.unrolled)) :
    SameBy Bindings.unrolled (bindAll table supplied) (bindAll table' supplied') := by
  induction supplied generalizing table table' supplied' with
  | nil =>
    obtain rfl : supplied' = [] := List.map_eq_nil_iff.mp h.symm
    exact .ok htable
  | cons entry supplied ih =>
    obtain ⟨⟨name', v'⟩, supplied', rfl, hentry, hrest⟩ := List.map_eq_cons_iff.mp h.symm
    obtain ⟨name, v⟩ := entry
    obtain ⟨hname, hv⟩ := Prod.mk.inj hentry
    obtain rfl : name' = name := hname
    rw [bindAll, bindAll]
    refine SameBy.bind (.transfer Value.normalize_unrolled hv.symm) fun w w' hw => ih ?_ hrest.symm
    rw [Bindings.insert_unrolled, Bindings.insert_unrolled, htable, hw]

end Context

/-- In alike contexts evaluators begin with states that unrolling makes the same. -/
theorem Context.Alike.begin {exempt : String → Prop} {context context' : Context σ}
    (h : context.Alike exempt context') (host : σ) :
    SameBy State.unrolled (Evaluator.begin context host) (Evaluator.begin context' host) := by
  refine ((Context.bindAll_unrolled rfl h.supplied).mapError _).map fun table table' htable => ?_
  unfold State.unrolled Scope.unrolled
  rw [htable]

/-! ## Formulas -/

namespace Evaluation

variable {exempt : String → Prop} {context context' : Context σ}

/-- Runs of a tree in alike contexts have the same result and the same bindings up to unrolling, if
no exempt function is called. -/
theorem run_alike (hcontext : context.Alike exempt context') (host : σ) (t : Expr)
    (hcalls : ∀ call ∈ (run (.tree t) context host).calls, ¬ exempt call.name) :
    SameBy Value.unrolled (run (.tree t) context host).result (run (.tree t) context' host).result ∧
      (run (.tree t) context host).bindings.unrolled =
        (run (.tree t) context' host).bindings.unrolled := by
  rcases (hcontext.begin host).cases with ⟨s, s', hs, hs', hstate⟩ | ⟨e, hs, hs'⟩
  · rw [run_eq rfl hs] at hcalls ⊢
    rw [run_eq rfl hs']
    unfold continueWith at hcalls ⊢
    have hsame := (Expr.eval_alike hcontext t).same s s' hstate
    cases heval : t.eval context s with
    | ok v after =>
      rw [heval] at hcalls hsame
      rcases hsame with ⟨call, hmem, hname⟩ | himage
      · exact absurd hname (hcalls call (List.mem_reverse.mpr hmem))
      · obtain ⟨w, after', heval', hvw, hafter⟩ := Run.exists_of_image_ok himage
        rw [heval']
        exact ⟨.ok hvw, congrArg (fun s => s.scope.root) hafter⟩
    | error failure after =>
      rw [heval] at hcalls hsame
      rcases hsame with ⟨call, hmem, hname⟩ | himage
      · exact absurd hname (hcalls call (List.mem_reverse.mpr hmem))
      · obtain ⟨after', heval', hafter⟩ := Run.exists_of_image_error himage
        rw [heval']
        exact ⟨.of_eq rfl, congrArg (fun s => s.scope.root) hafter⟩
  · have hrun : ∀ context : Context σ, Evaluator.begin context host = .error e →
        run (.tree t) context host = ⟨.error (.error e), none⟩ := by
      intro context hbegin
      unfold run
      dsimp only [prepare]
      rw [hbegin]
    rw [hrun context hs, hrun context' hs']
    exact ⟨.of_eq rfl, rfl⟩

/-- Ranges cannot be told from the lists that they stand for.  If the variables of two contexts are
the same once exact ranges are unrolled, and there are no functions or those of the library, of
which `now` is not called, then a tree evaluates to the same value once all ranges are unrolled, or
to the same failure, and leaves the same bindings once all ranges are unrolled. -/
theorem run_ranges_as_lists (context context' : Context σ) (host : σ) (t : Expr)
    (hlimits : context.limits = context'.limits) (hsource : context.source = context'.source)
    (hsupplied : context.supplied.map (Prod.map id (Value.unroll IntRange.isExact)) =
      context'.supplied.map (Prod.map id (Value.unroll IntRange.isExact)))
    (hfunctions : (context.callee? = fun _ => none) ∧ (context'.callee? = fun _ => none) ∨
      ∃ clock clock', context.callee? = Context.withLibrary clock (fun _ => none) ∧
        context'.callee? = Context.withLibrary clock' (fun _ => none) ∧
        ∀ call ∈ (run (.tree t) context host).calls, call.name ≠ "now") :
    SameBy (Value.unroll fun _ => true) (run (.tree t) context host).result
    (run (.tree t) context' host).result ∧
    (run (.tree t) context host).bindings.entries.map (Prod.map id (Value.unroll fun _ => true)) =
      (run (.tree t) context' host).bindings.entries.map
      (Prod.map id (Value.unroll fun _ => true)) := by
  have hexact : SameBy Value.unrolled (run (.tree t) context host).result
      (run (.tree t) context' host).result ∧
      (run (.tree t) context host).bindings.unrolled =
        (run (.tree t) context' host).bindings.unrolled := by
    rcases hfunctions with ⟨hnone, hnone'⟩ | ⟨clock, clock', hlibrary, hlibrary', hcalls⟩
    · have hcontext : context.Alike (fun _ => False) context' := by
        refine ⟨hlimits, hsource, hsupplied, fun name => ?_⟩
        rw [hnone, hnone']
        exact .missing
      exact run_alike hcontext host t fun _ _ => id
    · have hcontext : context.Alike (· = "now") context' := by
        refine ⟨hlimits, hsource, hsupplied, fun name => ?_⟩
        rw [hlibrary, hlibrary']
        exact Context.library_alike clock clock' name
      exact run_alike hcontext host t hcalls
  obtain ⟨hresult, hbindings⟩ := hexact
  constructor
  · rcases hresult.cases with ⟨v, w, hv, hw, hvw⟩ | ⟨failure, hfailure, hfailure'⟩
    · rw [hv, hw]
      refine .ok ?_
      rw [← v.unroll_unrolled, hvw, w.unroll_unrolled]
    · rw [hfailure, hfailure']
      exact .of_eq rfl
  · have hentries :=
      congrArg (fun table => table.entries.map (Prod.map id (Value.unroll fun _ => true))) hbindings
    have hgo : ∀ table : Bindings, table.unrolled.entries.map
        (Prod.map id (Value.unroll fun _ => true)) =
        table.entries.map (Prod.map id (Value.unroll fun _ => true)) := by
      intro table
      show (table.entries.map _).map _ = _
      rw [List.map_map]
      refine List.map_congr_left fun entry _ => ?_
      exact congrArg (Prod.mk entry.1) entry.2.unroll_unrolled
    simpa only [hgo] using hentries

/-- A range that counts down inside a tuple, and the list that it stands for in its place: the kinds
of the elements are the same, and the tuple itself comes back as a list, with the range or the list
in it. -/
theorem run_ranges_as_lists_counting_down :
    let t : Expr := .program .none
      [.assign .none "kinds" (.comprehension .none "x" (.identifier .none "xs") none
        (.call .none "type" [.identifier .none "x"])), .identifier .none "xs"]
    let range : IntRange := ⟨3, 0, -1, by decide⟩
    let numbers : List Value := [Value.ofExact 3, Value.ofExact 2, Value.ofExact 1]
    let context : Context Unit :=
      ⟨Context.withLibrary ⟨0⟩ fun _ => none, [("xs", .tuple [.range range, .string "a"])],
        .standard, none⟩
    let context' : Context Unit :=
      ⟨Context.withLibrary ⟨1⟩ fun _ => none, [("xs", .tuple [.list numbers, .string "a"])],
        .standard, none⟩
    (∀ call ∈ (run (.tree t) context ()).calls, call.name ≠ "now") ∧
    (run (.tree t) context ()).result = .ok (.list [.range range, .string "a"]) ∧
    (run (.tree t) context' ()).result = .ok (.list [.list numbers, .string "a"]) ∧
    SameBy (Value.unroll fun _ => true) (run (.tree t) context ()).result
      (run (.tree t) context' ()).result ∧
    (run (.tree t) context ()).bindings.entries.map (Prod.map id (Value.unroll fun _ => true)) =
      (run (.tree t) context' ()).bindings.entries.map
        (Prod.map id (Value.unroll fun _ => true)) := by
  intro t range numbers context context'
  have hcalls : ∀ call ∈ (run (.tree t) context ()).calls, call.name ≠ "now" := by
    have hlog : (run (.tree t) context ()).calls =
        [⟨"type", [.range range]⟩, ⟨"type", [.string "a"]⟩] := rfl
    rw [hlog]
    simp
  have hsupplied : context.supplied.map (Prod.map id (Value.unroll IntRange.isExact)) =
      context'.supplied.map (Prod.map id (Value.unroll IntRange.isExact)) := by
    have hrange : Value.unrolled (.range range) = .list numbers := Value.unrolled_range range
    have hlist : Value.unrolled (.list numbers) = .list numbers := Value.unrolled_list numbers
    show [("xs", Value.unrolled (.tuple [.range range, .string "a"]))] =
      [("xs", Value.unrolled (.tuple [.list numbers, .string "a"]))]
    simp only [Value.unrolled_tuple, List.map_cons, hrange, hlist]
  refine ⟨hcalls, rfl, rfl, ?_⟩
  exact run_ranges_as_lists context context' () t rfl rfl hsupplied
    (.inr ⟨⟨0⟩, ⟨1⟩, rfl, rfl, hcalls⟩)

end Evaluation

end Formulary
