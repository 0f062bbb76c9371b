import Formulary.Proofs.Invariant

/-!
# The course of an evaluation

`Expr.Enters` says which parts of a node its evaluation comes to, and in which states: the operands
one after the other, the branch that a condition selects, and the guard and the body of a
comprehension once for each element.  `Expr.Visits` goes on from part to part.  A visited node that
fails makes the whole evaluation fail in the same way (`Expr.Visits.fails`), so what can be said of
the failures of single nodes can be said of formulas.  And what evaluation keeps holds in every
state on the way (`Expr.Visits.keeps`).
-/

set_option autoImplicit false

namespace Formulary

variable {σ : Type}

namespace Run

variable {step : Value → Run σ (Option Value)} {items found collected : List Value}
  {s s' s'' : State σ} {failure : Failure}

/-- A run over items fails if it comes to an item at which the step fails. -/
theorem collect_of_error {before after : List Value} {item : Value}
    (hbefore : collect step found before s = .ok collected s')
    (hitem : step item s' = .error failure s'') :
    collect step found (before ++ item :: after) s = .error failure s'' := by
  induction before generalizing found s with
  | nil =>
    obtain ⟨-, rfl⟩ := EStateM.Result.ok.inj hbefore
    exact bind_of_error hitem _
  | cons other before ih =>
    obtain ⟨yielded, s₁, hother, hrest⟩ := bind_eq_ok hbefore
    rw [List.cons_append, collect, bind_of_ok hother]
    exact ih hrest

/-- If a run over items fails, it has come to an item at which the step fails. -/
theorem exists_of_collect_error (h : collect step found items s = .error failure s'') :
    ∃ before item after collected s', items = before ++ item :: after ∧
      collect step found before s = .ok collected s' ∧ step item s' = .error failure s'' := by
  induction items generalizing found s with
  | nil => cases h
  | cons item items ih =>
    rcases bind_eq_error h with hitem | ⟨yielded, s₁, hitem, hrest⟩
    · exact ⟨[], item, items, found.reverse, s, rfl, rfl, hitem⟩
    · obtain ⟨before, other, after, collected, s', rfl, hbefore, hother⟩ := ih hrest
      refine ⟨item :: before, other, after, collected, s', rfl, ?_, hother⟩
      rw [collect, bind_of_ok hitem]
      exact hbefore

/-- A failure inside a scope is the failure of the whole, and the scope is left. -/
theorem inScope_of_error {α : Type} {x : Run σ α} {name : String} {v : Value}
    (h : x { s with scope := s.scope.push.bind name v } = .error failure s') :
    inScope name v x s = .error failure { s' with scope := s'.scope.pop } := by
  unfold inScope
  rw [h]

/-- If a computation in a scope fails, it fails inside of the scope. -/
theorem exists_of_inScope_error {α : Type} {x : Run σ α} {name : String} {v : Value}
    (h : inScope name v x s = .error failure s'') :
    ∃ s', x { s with scope := s.scope.push.bind name v } = .error failure s' := by
  unfold inScope at h
  cases hx : x { s with scope := s.scope.push.bind name v } with
  | ok a s' =>
    rw [hx] at h
    cases h
  | error failure' s' =>
    rw [hx] at h
    obtain ⟨rfl, -⟩ := EStateM.Result.error.inj h
    exact ⟨s', rfl⟩

end Run

namespace Expr

open Run

variable {context : Context σ}

/-! ## Lists of parts -/

section Lists

variable {es : List Expr} {part : Expr} {s s' s'' : State σ} {failure : Failure}

/-- If a part fails after those in front of it have been evaluated, the list of parts fails. -/
theorem evalAll_of_error {before after : List Expr} {vs : List Value}
    (hbefore : evalAll context before s = .ok vs s')
    (hpart : part.eval context s' = .error failure s'') :
    evalAll context (before ++ part :: after) s = .error failure s'' := by
  induction before generalizing s vs with
  | nil =>
    rw [evalAll] at hbefore
    obtain ⟨-, rfl⟩ := EStateM.Result.ok.inj hbefore
    rw [List.nil_append, evalAll, bind_of_error hpart]
  | cons e before ih =>
    rw [evalAll] at hbefore
    obtain ⟨v, s₁, he, hrest⟩ := bind_eq_ok hbefore
    obtain ⟨ws, s₂, hws, hpure⟩ := bind_eq_ok hrest
    obtain ⟨-, rfl⟩ := EStateM.Result.ok.inj hpure
    rw [List.cons_append, evalAll, bind_of_ok he, bind_of_error (ih hws)]

/-- A list of parts fails at one of them, after those in front of it have been evaluated. -/
theorem exists_of_evalAll_error (h : evalAll context es s = .error failure s'') :
    ∃ before part after vs s', es = before ++ part :: after ∧ evalAll context before s = .ok vs s' ∧
      part.eval context s' = .error failure s'' := by
  induction es generalizing s with
  | nil =>
    rw [evalAll] at h
    cases h
  | cons e es ih =>
    rw [evalAll] at h
    rcases bind_eq_error h with he | ⟨v, s₁, he, hrest⟩
    · exact ⟨[], e, es, [], s, rfl, by rw [evalAll]; rfl, he⟩
    · rcases bind_eq_error hrest with hes | ⟨vs, s₂, -, hpure⟩
      · obtain ⟨before, part, after, vs, s', rfl, hbefore, hpart⟩ := ih hes
        refine ⟨e :: before, part, after, v :: vs, s', rfl, ?_, hpart⟩
        rw [evalAll, bind_of_ok he, bind_of_ok hbefore]
        rfl
      · cases hpure

/-- Statements are evaluated as elements are; only the last value is kept. -/
theorem evalLast_eq (result : Value) (es : List Expr) :
    evalLast context result es = (do
      let vs ← evalAll context es
      pure (vs.getLastD result)) := by
  induction es generalizing result with
  | nil =>
    rw [evalLast, evalAll]
    rfl
  | cons e es ih =>
    rw [evalLast, evalAll, bind_assoc]
    congr 1
    funext v
    rw [ih, bind_assoc]
    congr 1
    funext vs
    rw [pure_bind, List.getLastD_cons]

end Lists

/-! ## From a node to its parts -/

/-- A comprehension that is evaluated from a state comes to a turn, in a scope where an element is
bound. -/
inductive Begins (context : Context σ) (s : State σ) (binder : String) (iterable : Expr)
    (guard : Option Expr) (body : Expr) : State σ → Prop
  | intro {source : Value} {before after found : List Value} {item : Value} {s₁ s₂ : State σ} :
      iterable.eval context s = .ok source s₁ → source.items = .ok (before ++ item :: after) →
      Run.collect (fun item => Run.inScope binder item (turn context guard body)) [] before s₁ =
        .ok found s₂ →
      Begins context s binder iterable guard body
        { s₂ with scope := s₂.scope.push.bind binder item }

/-- The evaluation of a node from a state comes to the evaluation of a part from another state. -/
inductive Enters (context : Context σ) (s : State σ) : Expr → Expr → State σ → Prop
  | statement {span : Span} {before after : List Expr} {part : Expr} {vs : List Value}
        {s₁ : State σ} :
      evalAll context before s = .ok vs s₁ →
      Enters context s (.program span (before ++ part :: after)) part s₁
  | element {span : Span} {before after : List Expr} {part : Expr} {vs : List Value}
        {s₁ : State σ} :
      evalAll context before s = .ok vs s₁ →
      Enters context s (.array span (before ++ part :: after)) part s₁
  | argument {span : Span} {name : String} {before after : List Expr} {part : Expr}
        {vs : List Value} {s₁ : State σ} {run : List Value → σ → Reply × σ} :
      context.callee? name = some (.function run) → evalAll context before s = .ok vs s₁ →
      Enters context s (.call span name (before ++ part :: after)) part s₁
  | left {span : Span} {operator : BinaryOp} {l r : Expr} :
      Enters context s (.binary span operator l r) l s
  | right {span : Span} {operator : BinaryOp} {l r : Expr} {a : Value} {s₁ : State σ} :
      l.eval context s = .ok a s₁ → Enters context s (.binary span operator l r) r s₁
  | operand {span : Span} {operator : UnaryOp} {e : Expr} :
      Enters context s (.unary span operator e) e s
  | value {span : Span} {name : String} {e : Expr} :
      name ∉ context.external → Enters context s (.assign span name e) e s
  | condition {span : Span} {c x y : Expr} : Enters context s (.conditional span c x y) c s
  | consequent {span : Span} {c x y : Expr} {a : Value} {s₁ : State σ} :
      c.eval context s = .ok a s₁ → a.truth = .ok true →
      Enters context s (.conditional span c x y) x s₁
  | alternate {span : Span} {c x y : Expr} {a : Value} {s₁ : State σ} :
      c.eval context s = .ok a s₁ → a.truth = .ok false →
      Enters context s (.conditional span c x y) y s₁
  | iterable {span : Span} {binder : String} {i body : Expr} {guard : Option Expr} :
      Enters context s (.comprehension span binder i guard body) i s
  | guard {span : Span} {binder : String} {i g body : Expr} {s₁ : State σ} :
      Begins context s binder i (some g) body s₁ →
      Enters context s (.comprehension span binder i (some g) body) g s₁
  | body {span : Span} {binder : String} {i body : Expr} {s₁ : State σ} :
      Begins context s binder i none body s₁ →
      Enters context s (.comprehension span binder i none body) body s₁
  | guarded {span : Span} {binder : String} {i g body : Expr} {a : Value} {s₁ s₂ : State σ} :
      Begins context s binder i (some g) body s₁ →
      g.eval context s₁ = .ok a s₂ → a.truth = .ok true →
      Enters context s (.comprehension span binder i (some g) body) body s₂
  | object {span : Span} {x y : Expr} : Enters context s (.index span x y) x s
  | offset {span : Span} {x y : Expr} {a : Value} {s₁ : State σ} :
      x.eval context s = .ok a s₁ → Enters context s (.index span x y) y s₁
  | first {span : Span} {x y : Expr} {inclusive : Bool} :
      Enters context s (.range span x y inclusive) x s
  | last {span : Span} {x y : Expr} {inclusive : Bool} {a : Value} {s₁ : State σ} :
      x.eval context s = .ok a s₁ → Enters context s (.range span x y inclusive) y s₁

/-- The evaluation of a tree from a state comes to the evaluation of a node from another state. -/
inductive Visits (context : Context σ) : Expr → State σ → Expr → State σ → Prop
  | root {e : Expr} {s : State σ} : Visits context e s e s
  | part {e part node : Expr} {s s₁ s₂ : State σ} :
      Enters context s e part s₁ → Visits context part s₁ node s₂ → Visits context e s node s₂

/-- What the evaluation of a node comes to is one of its parts. -/
theorem Enters.mem_children {e part : Expr} {s s₁ : State σ} (h : Enters context s e part s₁) :
    part ∈ e.children := by
  cases h <;> simp [children]

/-- What the evaluation of a tree comes to is one of its nodes. -/
theorem Visits.mem_nodes {e node : Expr} {s s₁ : State σ} (h : e.Visits context s node s₁) :
    node ∈ e.nodes := by
  induction h with
  | root =>
    rw [nodes_eq]
    exact List.mem_cons_self
  | part henters _ ih =>
    rw [nodes_eq]
    exact List.mem_cons_of_mem _ (List.mem_flatMap.mpr ⟨_, henters.mem_children, ih⟩)

/-! ## Failures of parts -/

/-- If a turn that a comprehension comes to fails, the comprehension fails. -/
theorem Begins.fails {s s₁ s₂ : State σ} {binder : String} {iterable body : Expr}
    {guard : Option Expr} {failure : Failure} (h : Begins context s binder iterable guard body s₁)
    (hturn : turn context guard body s₁ = .error failure s₂) (span : Span) :
    ∃ s', (Expr.comprehension span binder iterable guard body).eval context s =
      .error failure s' := by
  cases h with
  | intro hiterable hitems hbefore =>
    apply Exists.intro
    rw [eval_comprehension, bind_of_ok hiterable, hitems]
    exact bind_of_error (collect_of_error hbefore (inScope_of_error hturn)) _

/-- If a part that is entered fails, the node fails in the same way. -/
theorem Enters.fails {e part : Expr} {s s₁ s₂ : State σ} {failure : Failure}
    (h : Enters context s e part s₁) (hpart : part.eval context s₁ = .error failure s₂) :
    ∃ s', e.eval context s = .error failure s' := by
  cases h with
  | statement hbefore =>
    exact ⟨s₂, by rw [eval, evalLast_eq, bind_of_error (evalAll_of_error hbefore hpart)]⟩
  | element hbefore => exact ⟨s₂, by rw [eval, bind_of_error (evalAll_of_error hbefore hpart)]⟩
  | argument hcallee hbefore =>
    refine ⟨s₂, ?_⟩
    rw [eval, hcallee]
    exact bind_of_error (evalAll_of_error hbefore hpart) _
  | left | operand | condition | object | first => exact ⟨s₂, by rw [eval, bind_of_error hpart]⟩
  | right hfirst | offset hfirst | last hfirst =>
    exact ⟨s₂, by rw [eval, bind_of_ok hfirst, bind_of_error hpart]⟩
  | value hname =>
    refine ⟨s₂, ?_⟩
    rw [eval, if_neg fun h => hname (List.contains_iff_mem.mp h), bind_of_error hpart]
  | consequent hcondition htruth =>
    refine ⟨s₂, ?_⟩
    rw [eval, bind_of_ok hcondition, htruth]
    exact hpart
  | alternate hcondition htruth =>
    refine ⟨s₂, ?_⟩
    rw [eval, bind_of_ok hcondition, htruth]
    exact hpart
  | iterable => exact ⟨s₂, by rw [eval_comprehension, bind_of_error hpart]⟩
  | guard hbegins => exact hbegins.fails (bind_of_error hpart _) _
  | body hbegins => exact hbegins.fails (bind_of_error hpart _) _
  | @guarded _ _ _ g _ _ s₁' _ hbegins hguard htruth =>
    have hturn : turn context (some g) part s₁' = .error failure s₂ := by
      rw [turn, bind_of_ok hguard, htruth]
      exact bind_of_error hpart _
    exact hbegins.fails hturn _

/-- If a node that is visited fails, the tree fails in the same way. -/
theorem Visits.fails {e node : Expr} {s s₁ s₂ : State σ} {failure : Failure}
    (h : Visits context e s node s₁) (hnode : node.eval context s₁ = .error failure s₂) :
    ∃ s', e.eval context s = .error failure s' := by
  induction h with
  | root => exact ⟨s₂, hnode⟩
  | part henters _ ih =>
    obtain ⟨s', hpart⟩ := ih hnode
    exact henters.fails hpart

/-! ## What is kept on the way -/

/-- What a run keeps is there after it has succeeded. -/
theorem kept_of_ok {α : Type} {I : State σ → Prop} {Good : α → Prop} {Bad : Failure → Prop}
    {x : Run σ α} {s s' : State σ} {a : α} (hkeeps : Keeps I Good Bad x) (hs : I s)
    (h : x s = .ok a s') : Good a ∧ I s' := by
  have hkept := hkeeps s hs
  rwa [h] at hkept

section Regimes

variable {regime : Regime σ} (huniform : regime.inner = regime)
include huniform

/-- A regime that is the same inside and outside of comprehensions is kept by a tree that is safe
everywhere. -/
theorem eval_keeps_uniform {e : Expr} (he : e.Everywhere (SafeAt context regime)) :
    Keeps regime.state regime.value regime.failure (e.eval context) :=
  eval_keeps (fun node hnode => he node (outer_subset_nodes e node hnode)) (huniform.symm ▸ he)

/-- A turn keeps what its guard and its body keep. -/
theorem turn_keeps {span : Span} {binder : String} {guard : Option Expr} {body : Expr}
    (hloop : SafeLoop context regime span binder guard)
    (hguard : ∀ g ∈ guard, g.Everywhere (SafeAt context regime))
    (hbody : body.Everywhere (SafeAt context regime)) :
    Keeps regime.state (fun yielded => ∀ v ∈ yielded, regime.value v) regime.failure
      (turn context guard body) := by
  have hyield : Keeps regime.state (fun yielded => ∀ v ∈ yielded, regime.value v) regime.failure (do
      let v ← body.eval context
      pure (some v)) :=
    (eval_keeps_uniform huniform hbody).bind fun v hv => .pure (by simpa using hv)
  cases guard with
  | none => exact hyield
  | some g =>
    refine (eval_keeps_uniform huniform (hguard g rfl)).bind fun v hv => ?_
    refine (Keeps.lift (hloop.guard g rfl v hv)).bind fun holds _ => ?_
    cases holds with
    | true => exact hyield
    | false => exact .pure (by simp)

/-- Each turn of a comprehension begins in a state of the regime. -/
theorem Begins.keeps {s s₁ : State σ} {span : Span} {binder : String} {iterable body : Expr}
    {guard : Option Expr} (h : Begins context s binder iterable guard body s₁)
    (he : (Expr.comprehension span binder iterable guard body).Everywhere (SafeAt context regime))
    (hs : regime.state s) : regime.state s₁ := by
  have hinside : regime.inside = regime.state := congrArg Regime.state huniform
  have hloop : SafeLoop context regime span binder guard := he.root
  have hiterable : iterable.Everywhere (SafeAt context regime) := he.part (by simp [children])
  have hbody : body.Everywhere (SafeAt context regime) := he.part (by simp [children])
  have hguard : ∀ g ∈ guard, g.Everywhere (SafeAt context regime) := by
    intro g hg
    exact he.part (by simp [children, Option.mem_def.mp hg])
  have hturn := turn_keeps huniform hloop hguard hbody
  cases h with
  | @intro source before after found item s₁ s₂ hsource hitems hbefore =>
    obtain ⟨hsource, hs₁⟩ := kept_of_ok (eval_keeps_uniform huniform hiterable) hs hsource
    have hgood := hloop.items source hsource
    rw [hitems] at hgood
    have hcollect := collect_keeps hloop (hinside ▸ hturn) fun item hitem =>
      hgood item (List.mem_append_left _ hitem)
    obtain ⟨-, hs₂⟩ := kept_of_ok hcollect hs₁ hbefore
    rw [← hinside]
    exact hloop.enter s₂ item hs₂ (hgood item (List.mem_append_right _ List.mem_cons_self))

/-- The parts of a node are evaluated in states of the regime. -/
theorem Enters.keeps {e part : Expr} {s s₁ : State σ} (h : Enters context s e part s₁)
    (he : e.Everywhere (SafeAt context regime)) (hs : regime.state s) : regime.state s₁ := by
  have hpart : ∀ {part : Expr} {v : Value} {s₁ s₂ : State σ}, part ∈ e.children → regime.state s₁ →
      part.eval context s₁ = .ok v s₂ → regime.state s₂ :=
    fun hmem hs heval => (kept_of_ok (eval_keeps_uniform huniform (he.part hmem)) hs heval).2
  have hparts : ∀ {before : List Expr} {vs : List Value} {s₁ : State σ},
      (∀ part ∈ before, part ∈ e.children) →
      evalAll context before s = .ok vs s₁ → regime.state s₁ :=
    fun hmem heval => (kept_of_ok (evalAll_keeps fun part hpart =>
      eval_keeps_uniform huniform (he.part (hmem part hpart))) hs heval).2
  cases h with
  | statement hbefore | element hbefore | argument _ hbefore =>
    exact hparts (fun part hpart => by simp [children, hpart]) hbefore
  | left | operand | value | condition | iterable | object | first => exact hs
  | right hfirst | offset hfirst | last hfirst => exact hpart (by simp [children]) hs hfirst
  | consequent hcondition | alternate hcondition => exact hpart (by simp [children]) hs hcondition
  | guard hbegins | body hbegins => exact hbegins.keeps huniform he hs
  | guarded hbegins hguard => exact hpart (by simp [children]) (hbegins.keeps huniform he hs) hguard

/-- Where every node keeps the states of a regime, all states on the way to a node are of the
regime. -/
theorem Visits.keeps {e node : Expr} {s s₁ : State σ} (h : Visits context e s node s₁)
    (he : e.Everywhere (SafeAt context regime)) (hs : regime.state s) : regime.state s₁ := by
  induction h with
  | root => exact hs
  | part henters _ ih => exact ih (he.part henters.mem_children) (henters.keeps huniform he hs)

end Regimes

end Expr

end Formulary
