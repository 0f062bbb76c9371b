import Formulary.Proofs.Frame
import Mathlib.Data.List.Forall2

/-!
# Simulating one evaluation by another

`Tracks strict R x y` compares two runs that start in states related by `R`.  If both succeed, they
return the same value and end in related states; a run `y` that tracks `x` succeeds whenever `x`
does.  The comparison is `strict` if failures count as well: then one run fails exactly if the other
does, with failures that differ in their positions only, and in related states.  Without strictness
nothing is said where `x` fails.

Every construct of the language respects tracking: a node tracks another of the same kind if its
parts do.  The rules ask of `R` only what the construct does to a state, so the same rules serve for
equal states, for states that agree on some names, and for states in which a name has a known value.
-/

set_option autoImplicit false

namespace Formulary

/-- Failures that differ at most in their positions. -/
def Failure.Alike : Failure → Failure → Prop
  | .error e, .error e' => e.cause = e'.cause ∧ e.site.source = e'.site.source
  | .fault f, .fault f' => f = f'
  | _, _ => False

/-- A failure differs from itself in nothing. -/
theorem Failure.Alike.refl (failure : Failure) : failure.Alike failure := by
  cases failure <;> simp [Alike]

/-- Failures that differ at most in their positions from a third one do so from one another. -/
theorem Failure.Alike.trans {f g h : Failure} (hfg : f.Alike g) (hgh : g.Alike h) : f.Alike h := by
  cases f <;> cases g <;> cases h <;> simp_all [Alike]

/-- A refusal that is placed at two sites of a source gives failures that differ at most in their
positions. -/
theorem Refusal.atSite_alike (refusal : Refusal) {site site' : Site}
    (h : site.source = site'.source) :
    (refusal.atSite site).Alike (refusal.atSite site') := by
  cases refusal with
  | fault f => rfl
  | cause c =>
    cases c with
    | limitExceeded => exact ⟨rfl, rfl⟩
    | _ => exact ⟨rfl, h⟩

/-- An error that is located at two sites of a source gives failures that differ at most in their
positions. -/
theorem Error.locatedAt_alike (e : Error) {site site' : Site} (h : site.source = site'.source) :
    (Failure.error (e.locatedAt site)).Alike (.error (e.locatedAt site')) := by
  unfold Error.locatedAt
  cases e.site.position with
  | some _ => exact ⟨rfl, rfl⟩
  | none => exact ⟨rfl, h⟩

namespace Run

variable {σ α β : Type}

/-- What two runs come to, compared. -/
def Matched (strict : Prop) (R : State σ → State σ → Prop) :
    EStateM.Result Failure (State σ) α → EStateM.Result Failure (State σ) α → Prop
  | .ok a s, .ok b t => a = b ∧ R s t
  | .error failure s, .error failure' t => strict → failure.Alike failure' ∧ R s t
  | .error _ _, .ok _ _ => ¬ strict
  | .ok _ _, .error _ _ => False

/-- The second run does what the first does, from related states. -/
def Tracks (strict : Prop) (R : State σ → State σ → Prop) (x y : Run σ α) : Prop :=
  ∀ s t, R s t → Matched strict R (x s) (y t)

/-- Inside a fresh scope that binds a name, `Q` compares states that `R` compares outside. -/
structure Nested (R Q : State σ → State σ → Prop) (name : String) : Prop where
  enter : ∀ {s t} (v : Value), R s t →
    Q { s with scope := s.scope.push.bind name v } { t with scope := t.scope.push.bind name v }
  leave : ∀ {s t s' t'}, R s t → Q s' t' →
    R { s' with scope := s.scope } { t' with scope := t.scope }

/-- Equal states stay equal in scopes with the same binding, and when these are left. -/
theorem nested_eq (name : String) : Nested (Eq : State σ → State σ → Prop) Eq name where
  enter _ h := by rw [h]
  leave h h' := by rw [h, h']

section Rules

variable {strict : Prop} {R : State σ → State σ → Prop}

/-- Returning a value tracks itself. -/
theorem Tracks.pure (a : α) : Tracks strict R (pure a) (pure a) := by
  intro s t h
  exact ⟨rfl, h⟩

/-- Failures that differ at most in their positions track one another. -/
theorem Tracks.throw {failure failure' : Failure} (h : failure.Alike failure') :
    Tracks strict R (throw failure : Run σ α) (throw failure') := by
  intro s t hst _
  exact ⟨h, hst⟩

/-- A run tracks another if both its steps do. -/
theorem Tracks.bind {x y : Run σ α} {k l : α → Run σ β} (hxy : Tracks strict R x y)
    (hkl : ∀ a, Tracks strict R (k a) (l a)) : Tracks strict R (x >>= k) (y >>= l) := by
  intro s t hst
  have hfirst := hxy s t hst
  show Matched strict R (EStateM.bind x k s) (EStateM.bind y l t)
  unfold EStateM.bind
  cases hx : x s with
  | ok a s' =>
    cases hy : y t with
    | ok b t' =>
      rw [hx, hy] at hfirst
      obtain ⟨rfl, hst'⟩ := hfirst
      exact hkl a s' t' hst'
    | error => rw [hx, hy] at hfirst; exact hfirst.elim
  | error failure s' =>
    cases hy : y t with
    | error failure' t' => rw [hx, hy] at hfirst; exact hfirst
    | ok b t' =>
      rw [hx, hy] at hfirst
      -- Nothing is asked of `l` here: without strictness every outcome will do.
      show Matched strict R (.error failure s') (l b t')
      cases l b t' with
      | ok => exact hfirst
      | error => exact fun hstrict => absurd hstrict hfirst

/-- An operation at one site tracks the same operation at another site of the source. -/
theorem Tracks.lift (result : Except Refusal α) {site site' : Site}
    (h : site.source = site'.source) :
    Tracks strict R (lift site result : Run σ α) (lift site' result) := by
  cases result with
  | ok a => exact .pure a
  | error refusal => exact .throw (refusal.atSite_alike h)

/-- An operation at one span tracks the same operation at another span. -/
theorem Tracks.liftAt (context : Context σ) (span span' : Span) (result : Except Refusal α) :
    Tracks strict R (Run.lift (context.siteOf span) result)
      (Run.lift (context.siteOf span') result) :=
  .lift result rfl

/-- A failure at one site tracks the failure of the same cause at another site of the source. -/
theorem Tracks.fail (cause : Cause) {site site' : Site} (h : site.source = site'.source) :
    Tracks strict R (fail cause site : Run σ α) (fail cause site') :=
  .throw (Refusal.atSite_alike (.cause cause) h)

/-- Runs in a fresh scope are compared by a relation of their own. -/
theorem Tracks.restoring {Q : State σ → State σ → Prop} {name : String}
    (hQ : Nested R Q name) (v : Value) {x y : Run σ α} (h : Tracks strict Q x y) :
    Tracks strict R (restoring name v x) (restoring name v y) := by
  intro s t hst
  have hinner := h _ _ (hQ.enter v hst)
  unfold Run.restoring
  cases hx : x { s with scope := s.scope.push.bind name v } with
  | ok a s' =>
    cases hy : y { t with scope := t.scope.push.bind name v } with
    | ok b t' =>
      rw [hx, hy] at hinner
      exact ⟨hinner.1, hQ.leave hst hinner.2⟩
    | error => rw [hx, hy] at hinner; exact hinner.elim
  | error failure s' =>
    cases hy : y { t with scope := t.scope.push.bind name v } with
    | ok => rw [hx, hy] at hinner; exact hinner
    | error failure' t' =>
      rw [hx, hy] at hinner
      exact fun hstrict => ⟨(hinner hstrict).1, hQ.leave hst (hinner hstrict).2⟩

/-- A loop tracks another over the same items if its turns do. -/
theorem Tracks.collect {step step' : Value → Run σ (Option Value)}
    (h : ∀ item, Tracks strict R (step item) (step' item)) (items found : List Value) :
    Tracks strict R (collect step found items) (collect step' found items) := by
  induction items generalizing found with
  | nil => exact .pure _
  | cons item items ih => exact (h item).bind fun yielded => ih _

end Rules

/-- Every run tracks itself from equal states. -/
theorem Tracks.refl {strict : Prop} (x : Run σ α) : Tracks strict Eq x x := by
  rintro s _ rfl
  cases x s with
  | ok a s' => exact ⟨rfl, rfl⟩
  | error failure s' => exact fun _ => ⟨.refl failure, rfl⟩

/-- A run that tracks another from the same states can take its place. -/
theorem Tracks.trans {strict : Prop} {R : State σ → State σ → Prop} {x y z : Run σ α}
    (hxy : Tracks strict R x y) (hyz : Tracks strict Eq y z) : Tracks strict R x z := by
  intro s t hst
  have hfirst := hxy s t hst
  have hsecond := hyz t t rfl
  cases hx : x s <;> cases hy : y t <;> cases hz : z t <;>
    simp only [hx, hy, hz, Matched] at hfirst hsecond ⊢
  · exact ⟨hfirst.1.trans hsecond.1, hsecond.2 ▸ hfirst.2⟩
  · exact hfirst
  · exact hsecond
  · intro hstrict
    obtain ⟨halike, hstate⟩ := hsecond hstrict
    exact ⟨(hfirst hstrict).1.trans halike, hstate ▸ (hfirst hstrict).2⟩

/-- Where the first run succeeds, so does the second. -/
theorem Tracks.ok {strict : Prop} {R : State σ → State σ → Prop} {x y : Run σ α}
    (h : Tracks strict R x y) {s t s' : State σ} (hst : R s t) {a : α} (hx : x s = .ok a s') :
    ∃ t', y t = .ok a t' ∧ R s' t' := by
  have hmatched := h s t hst
  cases hy : y t with
  | ok b t' =>
    rw [hx, hy] at hmatched
    obtain ⟨rfl, hst'⟩ := hmatched
    exact ⟨t', rfl, hst'⟩
  | error =>
    rw [hx, hy] at hmatched
    exact hmatched.elim

/-- Where the second run succeeds, so does the first, if failures count. -/
theorem Tracks.ok_of_ok {R : State σ → State σ → Prop} {x y : Run σ α} (h : Tracks True R x y)
    {s t t' : State σ} (hst : R s t) {a : α} (hy : y t = .ok a t') :
    ∃ s', x s = .ok a s' ∧ R s' t' := by
  have hmatched := h s t hst
  cases hx : x s with
  | ok b s' =>
    rw [hx, hy] at hmatched
    obtain ⟨rfl, hst'⟩ := hmatched
    exact ⟨s', rfl, hst'⟩
  | error =>
    rw [hx, hy] at hmatched
    exact absurd trivial hmatched

/-- Where the second run fails, so does the first, if failures count. -/
theorem Tracks.error_of_error {R : State σ → State σ → Prop} {x y : Run σ α} (h : Tracks True R x y)
    {s t t' : State σ} (hst : R s t) {failure : Failure} (hy : y t = .error failure t') :
    ∃ failure' s', x s = .error failure' s' ∧ R s' t' := by
  have hmatched := h s t hst
  cases hx : x s with
  | ok =>
    rw [hx, hy] at hmatched
    exact hmatched.elim
  | error failure' s' =>
    rw [hx, hy] at hmatched
    exact ⟨failure', s', rfl, (hmatched trivial).2⟩

/-- States related by one of several relations. -/
theorem Tracks.exists {strict : Prop} {ι : Type} {R : ι → State σ → State σ → Prop} {x y : Run σ α}
    (h : ∀ i, Tracks strict (R i) x y) : Tracks strict (fun s t => ∃ i, R i s t) x y := by
  rintro s t ⟨i, hst⟩
  have hmatched := h i s t hst
  cases hx : x s <;> cases hy : y t <;> simp only [hx, hy, Matched] at hmatched ⊢
  · exact ⟨hmatched.1, i, hmatched.2⟩
  · exact hmatched
  · exact fun hstrict => ⟨(hmatched hstrict).1, i, (hmatched hstrict).2⟩

/-- What a relation of states must keep for calls of the host to be compared. -/
structure Steady (R : State σ → State σ → Prop) : Prop where
  host : ∀ {s t}, R s t → s.host = t.host
  called : ∀ {s t} (host : σ) (call : Call), R s t →
    R { s with host := host, calls := call :: s.calls }
      { t with host := host, calls := call :: t.calls }
  logged : ∀ {s t} (event : Event), R s t →
    R { s with events := event :: s.events } { t with events := event :: t.events }

/-- Equal states stay equal through calls of the host. -/
theorem steady_eq : Steady (Eq : State σ → State σ → Prop) where
  host h := by rw [h]
  called _ _ h := by rw [h]
  logged _ h := by rw [h]

section Steps

variable {strict : Prop} {R : State σ → State σ → Prop}

/-- Writing an event down tracks itself. -/
theorem Tracks.emit (hR : Steady R) (event : Event) :
    Tracks strict R (emit event) (emit event) := by
  intro s t h
  exact ⟨rfl, hR.logged event h⟩

/-- Binding a name tracks itself if the relation of states is kept by it. -/
theorem Tracks.bindName {name : String} {v : Value}
    (h : ∀ s t, R s t → R { s with scope := s.scope.bind name v }
      { t with scope := t.scope.bind name v }) :
    Tracks strict R (Run.bind name v : Run σ Unit) (Run.bind name v) := by
  intro s t hst
  exact ⟨rfl, h s t hst⟩

/-- The answer to a reply at one site tracks that at another site of the source. -/
theorem Tracks.answer (hR : Steady R) {site site' : Site} (h : site.source = site'.source)
    (name : String) (reply : Reply) :
    Tracks strict R (answer site name reply : Run σ Value) (answer site' name reply) := by
  cases reply with
  | raised e => exact .throw (Error.locatedAt_alike e h)
  | failed text => exact (Tracks.emit hR _).bind fun _ => .fail _ h
  | returned v =>
    unfold Run.answer
    cases hv : v.normalize with
    | ok w => simpa only [hv] using .pure w
    | error fault => simpa only [hv] using .fail _ h

/-- A call at one site tracks the same call at another site of the source. -/
theorem Tracks.invoke (hR : Steady R) {site site' : Site} (h : site.source = site'.source)
    {name : String} {run : List Value → σ → Reply × σ} {args : List Value} :
    Tracks strict R (invoke site name run args) (invoke site' name run args) := by
  intro s t hst
  rw [invoke_apply, invoke_apply, ← hR.host hst]
  exact Tracks.answer hR h name _ _ _ (hR.called _ _ hst)

end Steps

end Run

namespace Expr

open Run

variable {σ : Type}

/-- Evaluating the second tree tracks evaluating the first. -/
def Simulates (context : Context σ) (strict : Prop) (R : State σ → State σ → Prop)
    (e e' : Expr) : Prop :=
  Tracks strict R (e.eval context) (e'.eval context)

namespace Simulates

variable {context : Context σ} {strict : Prop} {R : State σ → State σ → Prop}

/-- Lists of parts simulate one another if the parts do. -/
theorem evalAll {es es' : List Expr} (h : List.Forall₂ (Simulates context strict R) es es') :
    Tracks strict R (evalAll context es) (evalAll context es') := by
  induction h with
  | nil => exact .pure []
  | cons hhead _ ih =>
    rw [Expr.evalAll, Expr.evalAll]
    exact Tracks.bind hhead fun v => ih.bind fun vs => .pure (v :: vs)

/-- Statements simulate one another if each of them does. -/
theorem evalLast {es es' : List Expr} (h : List.Forall₂ (Simulates context strict R) es es')
    (result : Value) :
    Tracks strict R (evalLast context result es) (evalLast context result es') := by
  induction h generalizing result with
  | nil => exact .pure result
  | cons hhead _ ih =>
    rw [Expr.evalLast, Expr.evalLast]
    exact Tracks.bind hhead fun v => ih v

/-- Programs simulate one another if their statements do. -/
theorem program {es es' : List Expr} (h : List.Forall₂ (Simulates context strict R) es es')
    (span span' : Span) : Simulates context strict R (.program span es) (.program span' es') := by
  exact evalLast h _

/-- Arrays simulate one another if their elements do. -/
theorem array {es es' : List Expr} (h : List.Forall₂ (Simulates context strict R) es es')
    (span span' : Span) : Simulates context strict R (.array span es) (.array span' es') := by
  exact (evalAll h).bind fun values => (Tracks.lift _ rfl).bind fun _ => .pure _

/-- Binary operations simulate one another if their operands do. -/
theorem binary {l l' r r' : Expr} (hl : Simulates context strict R l l')
    (hr : Simulates context strict R r r') (span span' : Span) (operator : BinaryOp) :
    Simulates context strict R (.binary span operator l r) (.binary span' operator l' r') := by
  exact Tracks.bind hl fun a => Tracks.bind hr fun b => .lift _ rfl

/-- Unary operations simulate one another if their operands do. -/
theorem unary {e e' : Expr} (h : Simulates context strict R e e') (span span' : Span)
    (operator : UnaryOp) :
    Simulates context strict R (.unary span operator e) (.unary span' operator e') := by
  exact Tracks.bind h fun a => .lift _ rfl

/-- Calls simulate one another if their arguments do. -/
theorem call (hR : Steady R) {es es' : List Expr}
    (h : List.Forall₂ (Simulates context strict R) es es') (span span' : Span) (name : String) :
    Simulates context strict R (.call span name es) (.call span' name es') := by
  unfold Simulates
  rw [eval, eval]
  cases context.callee? name with
  | none => exact .fail _ rfl
  | some callee =>
    cases callee with
    | notCallable => exact .fail _ rfl
    | function run =>
      refine (evalAll h).bind fun args => ?_
      apply Tracks.invoke hR
      rfl

/-- Assignments simulate one another if their values do and the relation of states is kept by the
binding. -/
theorem assign (hR : Steady R) {e e' : Expr} (h : Simulates context strict R e e') {name : String}
    (hbind : ∀ v s t, R s t →
      R { s with scope := s.scope.bind name v } { t with scope := t.scope.bind name v })
    (hroot : name ∈ context.external → ∀ s t, R s t →
      (s.scope.root.find? name).getD .null = (t.scope.root.find? name).getD .null)
    (span span' : Span) :
    Simulates context strict R (.assign span name e) (.assign span' name e') := by
  unfold Simulates
  rw [eval, eval]
  by_cases hexternal : context.external.contains name = true
  · rw [if_pos hexternal, if_pos hexternal]
    refine (Tracks.emit hR _).bind fun _ => ?_
    intro s t hst
    have hvalue := hroot (List.contains_iff_mem.mp hexternal) s t hst
    show Matched strict R (.ok _ _) (.ok _ _)
    rw [← hvalue]
    exact ⟨rfl, hbind _ s t hst⟩
  · rw [if_neg hexternal, if_neg hexternal]
    exact Tracks.bind h fun v => (Tracks.bindName (hbind v)).bind fun _ => .pure v

/-- Conditionals simulate one another if their parts do. -/
theorem conditional {c c' a a' b b' : Expr} (hc : Simulates context strict R c c')
    (ha : Simulates context strict R a a') (hb : Simulates context strict R b b')
    (span span' : Span) :
    Simulates context strict R (.conditional span c a b) (.conditional span' c' a' b') := by
  refine Tracks.bind hc fun v => (Tracks.liftAt context _ _ _).bind fun holds => ?_
  cases holds with
  | true => exact ha
  | false => exact hb

/-- Indices simulate one another if their parts do. -/
theorem index {a a' b b' : Expr} (ha : Simulates context strict R a a')
    (hb : Simulates context strict R b b') (span span' : Span) :
    Simulates context strict R (.index span a b) (.index span' a' b') := by
  exact Tracks.bind ha fun a => Tracks.bind hb fun b => .lift _ rfl

/-- Ranges simulate one another if their bounds do. -/
theorem range {a a' b b' : Expr} (ha : Simulates context strict R a a')
    (hb : Simulates context strict R b b') (span span' : Span) (inclusive : Bool) :
    Simulates context strict R (.range span a b inclusive) (.range span' a' b' inclusive) := by
  exact Tracks.bind ha fun a => Tracks.bind hb fun b => .lift _ rfl

section Comprehensions

variable {Q : State σ → State σ → Prop} {binder : String} (hQ : Nested R Q binder)
  {i i' g g' b b' : Expr} (hi : Simulates context strict R i i')
  (hg : Simulates context strict Q g g') (hb : Simulates context strict Q b b')
include hQ hi hb

/-- Comprehensions without a guard simulate one another if their iterables do, and their bodies
inside the scope. -/
theorem comprehension (span span' : Span) : Simulates context strict R
    (.comprehension span binder i none b) (.comprehension span' binder i' none b') := by
  unfold Simulates
  rw [eval_comprehension_restoring, eval_comprehension_restoring]
  refine Tracks.bind hi fun source => (Tracks.liftAt context _ _ _).bind fun items => ?_
  refine Tracks.bind (.collect (fun item => .restoring hQ item ?_) items []) fun results =>
    (Tracks.lift _ rfl).bind fun _ => .pure _
  exact Tracks.bind hb fun v => .pure (some v)

include hg in
/-- Comprehensions with a guard simulate one another if their iterables do, and their guards and
bodies inside the scope. -/
theorem guarded (span span' : Span) : Simulates context strict R
    (.comprehension span binder i (some g) b) (.comprehension span' binder i' (some g') b') := by
  unfold Simulates
  rw [eval_comprehension_restoring, eval_comprehension_restoring]
  refine Tracks.bind hi fun source => (Tracks.liftAt context _ _ _).bind fun items => ?_
  refine Tracks.bind (.collect (fun item => .restoring hQ item ?_) items []) fun results =>
    (Tracks.lift _ rfl).bind fun _ => .pure _
  refine Tracks.bind hg fun v => (Tracks.liftAt context _ _ _).bind fun holds => ?_
  cases holds with
  | true => exact Tracks.bind hb fun v => .pure (some v)
  | false => exact .pure none

end Comprehensions

end Simulates

end Expr

end Formulary
