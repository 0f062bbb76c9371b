import Formulary.Proofs.Course

/-!
# Wider limits

Evaluation checks limits where arrays and ranges are made.  Under wider limits it does what it does
under narrower ones, unless a check of the narrower ones stops it (`Expr.eval_widened`).  `Admits`
says this of two computations, and each construct respects it.
-/

set_option autoImplicit false

namespace Formulary

/-- The failure of a check.  It has no site, so that it is none of those that a function of the host
raises. -/
def Limits.Stops (limits : Limits) (failure : Failure) : Prop :=
  ∃ kind amount, limits.bound kind < amount ∧
    failure = .error ⟨limits.exceeded kind amount, .unknown⟩

/-- The second operation does what the first does, unless a check refuses the first. -/
def Limits.Admits {α : Type} (limits : Limits) (x y : Except Refusal α) : Prop :=
  x = y ∨ ∃ kind amount, limits.bound kind < amount ∧
    x = .error (.cause (limits.exceeded kind amount))

/-- The second run does what the first does, unless a check stops the first. -/
def Run.Admits {σ α : Type} (limits : Limits) (x y : Run σ α) : Prop :=
  ∀ s, x s = y s ∨ ∃ failure s', x s = .error failure s' ∧ limits.Stops failure

/-! ## Operations -/

namespace Limits.Admits

variable {α β : Type} {limits limits' : Limits}

/-- An operation does what it does. -/
theorem refl (x : Except Refusal α) : limits.Admits x x :=
  .inl rfl

/-- An operation under wider limits does the same if both its steps do. -/
theorem bind {x y : Except Refusal α} {k l : α → Except Refusal β} (hxy : limits.Admits x y)
    (hkl : ∀ a, limits.Admits (k a) (l a)) : limits.Admits (x >>= k) (y >>= l) := by
  rcases hxy with rfl | ⟨kind, amount, hover, rfl⟩
  · cases x with
    | ok a => exact hkl a
    | error refusal => exact .refl _
  · exact .inr ⟨kind, amount, hover, rfl⟩

/-- An amount within a limit is within a wider one. -/
theorem withinLimit (h : limits ≤ limits') (kind : LimitKind) (amount : Int) :
    limits.Admits (Value.withinLimit limits kind amount)
      (Value.withinLimit limits' kind amount) := by
  unfold Value.withinLimit Limits.check
  by_cases hover : limits.bound kind < amount
  · rw [if_pos hover]
    exact .inr ⟨kind, amount, hover, rfl⟩
  · have hwider := h kind
    rw [if_neg hover, if_neg (by omega)]
    exact .refl _

/-- Addition does the same under wider limits. -/
theorem add (h : limits ≤ limits') (a b : Value) :
    limits.Admits (Value.add limits a b) (Value.add limits' a b) := by
  unfold Value.add
  cases a.view with
  | array s =>
    cases b.view with
    | array t =>
      refine (refl _).bind fun m => (refl _).bind fun n => ?_
      exact (withinLimit h _ _).bind fun _ => refl _
    | _ => exact refl _
  | _ => cases b.view <;> exact refl _

/-- A binary operation does the same under wider limits. -/
theorem applyBinary (h : limits ≤ limits') (operator : BinaryOp) (a b : Value) :
    limits.Admits (Value.applyBinary limits operator a b)
      (Value.applyBinary limits' operator a b) := by
  cases operator with
  | add => exact add h a b
  | _ => exact refl _

/-- Building a range does the same under wider limits. -/
theorem buildRange (h : limits ≤ limits') (a b : Value) (inclusive : Bool) :
    limits.Admits (Value.buildRange limits a b inclusive)
      (Value.buildRange limits' a b inclusive) := by
  refine (refl _).bind fun first => (refl _).bind fun last => ?_
  by_cases hinverted : last < first
  · rw [if_pos hinverted, if_pos hinverted]
    exact refl _
  · rw [if_neg hinverted, if_neg hinverted]
    exact (withinLimit h _ _).bind fun _ => refl _

end Limits.Admits

/-! ## Runs -/

namespace Run.Admits

variable {σ α β : Type} {limits : Limits}

/-- A run does what it does. -/
theorem refl (x : Run σ α) : Run.Admits limits x x :=
  fun _ => .inl rfl

/-- A run under wider limits does the same if both its steps do. -/
theorem bind {x y : Run σ α} {k l : α → Run σ β} (hxy : Run.Admits limits x y)
    (hkl : ∀ a, Run.Admits limits (k a) (l a)) : Run.Admits limits (x >>= k) (y >>= l) := by
  intro s
  rcases hxy s with hsame | ⟨failure, s', hx, hstops⟩
  · cases hx : x s with
    | ok a s' =>
      rw [bind_of_ok hx, bind_of_ok (hsame.symm.trans hx)]
      exact hkl a s'
    | error failure s' =>
      rw [bind_of_error hx, bind_of_error (hsame.symm.trans hx)]
      exact .inl rfl
  · exact .inr ⟨failure, s', bind_of_error hx k, hstops⟩

/-- Operations that do the same under wider limits do so at a site. -/
theorem lift {x y : Except Refusal α} (h : limits.Admits x y) (site : Site) :
    Run.Admits limits (Run.lift site x : Run σ α) (Run.lift site y) := by
  intro s
  rcases h with rfl | ⟨kind, amount, hover, rfl⟩
  · exact .inl rfl
  · exact .inr ⟨_, s, rfl, kind, amount, hover, rfl⟩

/-- Runs that do the same under wider limits do so in a scope. -/
theorem inScope (name : String) (v : Value) {x y : Run σ α} (h : Run.Admits limits x y) :
    Run.Admits limits (Run.inScope name v x) (Run.inScope name v y) := by
  intro s
  unfold Run.inScope
  rcases h { s with scope := s.scope.push.bind name v } with hsame | ⟨failure, s', hx, hstops⟩
  · rw [hsame]
    exact .inl rfl
  · rw [hx]
    exact .inr ⟨failure, _, rfl, hstops⟩

/-- Loops over the same items do the same under wider limits if their turns do. -/
theorem collect {step step' : Value → Run σ (Option Value)}
    (h : ∀ item, Run.Admits limits (step item) (step' item)) (items found : List Value) :
    Run.Admits limits (Run.collect step found items) (Run.collect step' found items) := by
  induction items generalizing found with
  | nil => exact refl _
  | cons item items ih => exact (h item).bind fun yielded => ih _

/-- Where the first run succeeds, the second does the same. -/
theorem ok {x y : Run σ α} (h : Run.Admits limits x y) {s s' : State σ} {a : α}
    (hx : x s = .ok a s') :
    y s = .ok a s' := by
  rcases h s with hsame | ⟨failure, s'', herror, -⟩
  · exact hsame.symm.trans hx
  · rw [hx] at herror
    cases herror

end Run.Admits

/-! ## Trees -/

namespace Expr

open Run

variable {σ : Type} {context : Context σ} {limits : Limits}

section Lists

variable {es : List Expr}
  (h : ∀ e ∈ es, Run.Admits context.limits (e.eval context)
    (e.eval { context with limits := limits }))
include h

/-- A list of parts does the same under wider limits if the parts do. -/
theorem evalAll_widened :
    Run.Admits context.limits (evalAll context es)
      (evalAll { context with limits := limits } es) := by
  induction es with
  | nil => exact .refl _
  | cons e es ih =>
    rw [evalAll, evalAll]
    refine (h e List.mem_cons_self).bind fun v => ?_
    exact (ih fun e he => h e (List.mem_cons_of_mem _ he)).bind fun vs => .refl _

/-- Statements do the same under wider limits if each of them does. -/
theorem evalLast_widened (result : Value) :
    Run.Admits context.limits (evalLast context result es)
      (evalLast { context with limits := limits } result es) := by
  rw [evalLast_eq, evalLast_eq]
  exact (evalAll_widened h).bind fun vs => .refl _

end Lists

/-- Under wider limits a tree is evaluated as under narrower ones, unless a check of these stops
it. -/
theorem eval_widened (hwider : context.limits ≤ limits) (e : Expr) :
    Run.Admits context.limits (e.eval context) (e.eval { context with limits := limits }) := by
  -- Limits are read where a list, a concatenation or a range is made; every other step is the same
  -- in both runs.
  induction e using byParts with
  | number | string | boolean | identifier | foreign =>
    rw [eval, eval]
    exact .refl _
  | program span es ih =>
    rw [eval, eval]
    exact evalLast_widened ih _
  | array span es ih =>
    rw [eval, eval]
    refine (evalAll_widened ih).bind fun vs => ?_
    exact (Run.Admits.lift (.withinLimit hwider _ _) _).bind fun _ => .refl _
  | call span name es ih =>
    rw [eval, eval]
    cases context.callee? name with
    | none => exact .refl _
    | some callee =>
      cases callee with
      | notCallable => exact .refl _
      | function run => exact (evalAll_widened ih).bind fun args => .refl _
  | unary span operator a ih =>
    rw [eval, eval]
    exact ih.bind fun v => .refl _
  | assign span name value ih =>
    have hexternal : Context.external { context with limits := limits } = context.external := rfl
    rw [eval, eval, hexternal]
    by_cases hname : context.external.contains name = true
    · rw [if_pos hname, if_pos hname]
      exact .refl _
    · rw [if_neg hname, if_neg hname]
      exact ih.bind fun v => .refl _
  | conditional span c x y hc hx hy =>
    rw [eval, eval]
    refine hc.bind fun v => (Run.Admits.refl _).bind fun holds => ?_
    cases holds with
    | true => exact hx
    | false => exact hy
  | comprehension span binder iterable guard body hi hg hb =>
    have hturn : Run.Admits context.limits (turn context guard body)
        (turn { context with limits := limits } guard body) := by
      cases guard with
      | none => exact hb.bind fun v => .refl _
      | some g =>
        refine (hg g rfl).bind fun v => (Run.Admits.refl _).bind fun holds => ?_
        cases holds with
        | true => exact hb.bind fun v => .refl _
        | false => exact .refl _
    rw [eval_comprehension, eval_comprehension]
    refine hi.bind fun source => (Run.Admits.refl _).bind fun items => ?_
    refine (Run.Admits.collect (fun item => .inScope binder item hturn) items []).bind
      fun results => ?_
    exact (Run.Admits.lift (.withinLimit hwider _ _) _).bind fun _ => .refl _
  | binary span operator x y hx hy =>
    rw [eval, eval]
    exact hx.bind fun a => hy.bind fun b => .lift (.applyBinary hwider operator a b) _
  | index span x y hx hy =>
    rw [eval, eval]
    exact hx.bind fun a => hy.bind fun b => .refl _
  | range span x y inclusive hx hy =>
    rw [eval, eval]
    exact hx.bind fun a => hy.bind fun b => .lift (.buildRange hwider a b inclusive) _

end Expr

end Formulary
