import Formulary.Proofs.Discarding

/-!
# The variables that a simplified program reports

Dropping assignments that nothing reads can change what a name is bound to at the end: if the last
assignment to a name is dropped and an earlier one is kept, because a statement in between reads the
name, the earlier value stays (`Expr.run_simplified_stale`).  This is the only way.  A name that the
simplified program reports is reported by the program as well, and with the same value, unless an
assignment to it is left out; then the simplified program reports what the name was bound to when
the program came to that assignment (`Expr.bindings_of_simplified`).

A statement that is kept binds a name in both runs to the same value, or in neither of them
(`Expr.Agree.eval_root`).  So the two runs can only come to differ where one of them skips an
assignment (`Expr.evalLast_dropDead_root`).
-/

set_option autoImplicit false

namespace Formulary

variable {σ : Type}

/-- What a name is bound to at the top level. -/
def State.top? (s : State σ) (name : String) : Option Value :=
  s.scope.root.find? name

namespace Expr

open Run

variable {context : Context σ}

/-! ## One statement -/

/-- From given states on, each name has come to be bound alike at the top level, or has been left
alone. -/
def Settles (s₀ t₀ s t : State σ) : Prop :=
  ∀ name, s.top? name = t.top? name ∨ (s.top? name = s₀.top? name ∧ t.top? name = t₀.top? name)

/-- Binding a name in states at the same depth settles it, or leaves the top level alone. -/
theorem Settles.bind {s₀ t₀ s t : State σ} (h : Settles s₀ t₀ s t)
    (hlevel : s.scope.inner.length = t.scope.inner.length) (name : String) (v : Value) :
    Settles s₀ t₀ { s with scope := s.scope.bind name v }
      { t with scope := t.scope.bind name v } := by
  intro other
  have hinner : s.scope.inner = [] ↔ t.scope.inner = [] := by
    rw [← List.length_eq_zero_iff, ← List.length_eq_zero_iff, hlevel]
  unfold State.top?
  rw [Scope.root_bind, Scope.root_bind]
  by_cases hname : s.scope.inner = [] ∧ other = name
  · rw [if_pos hname, if_pos ⟨hinner.mp hname.1, hname.2⟩]
    exact .inl rfl
  · rw [if_neg hname, if_neg fun h => hname ⟨hinner.mpr h.1, h.2⟩]
    exact h other

/-- In a fresh scope the top level is out of reach. -/
theorem Settles.push {s₀ t₀ s t : State σ} (h : Settles s₀ t₀ s t) (binder : String) (v : Value) :
    Settles s₀ t₀ { s with scope := s.scope.push.bind binder v }
      { t with scope := t.scope.push.bind binder v } := by
  intro other
  unfold State.top?
  rw [Scope.root_bind, Scope.root_bind, if_neg (by simp [Scope.push]),
    if_neg (by simp [Scope.push])]
  exact h other

/-- A statement that is evaluated in states that agree on the names it reads settles each name or
leaves it alone. -/
theorem Agree.eval_root {names : List String} {e : Expr} (h : ∀ name ∈ e.references, name ∈ names)
    {s t s' : State σ} {v : Value} (hst : Agree context names s t)
    (hrun : e.eval context s = .ok v s') :
    ∃ t', e.eval context t = .ok v t' ∧ Agree context names s' t' ∧ Settles s t s' t' := by
  have hsteady : Steady fun s' t' : State σ => Agree context names s' t' ∧ Settles s t s' t' := {
    host := fun hR => hR.1.host
    called := fun host call hR => ⟨steady_agree.called host call hR.1, hR.2⟩
    logged := fun event hR => ⟨steady_agree.logged event hR.1, hR.2⟩ }
  have hsimulates : Simulates context False
      (fun s' t' => Agree context names s' t' ∧ Settles s t s' t') e e := by
    refine self_simulates (R := fun (_ : Unit) s' t' => Agree context names s' t' ∧
      Settles s t s' t') ?_ ?_ ()
    · intro _ binder
      have hnested : Nested (Agree context names : State σ → State σ → Prop)
          (Agree context names) binder :=
        nested_agree binder
      refine ⟨fun _ => (), ?_, ?_⟩
      · exact fun v hR => ⟨v, hnested.enter v hR.1, hR.2.push binder v⟩
      · exact fun hR ⟨_, hR'⟩ => ⟨hnested.leave hR.1 hR'.1, hR.2⟩
    · intro node hnode _
      cases node with
      | identifier span name =>
        intro s' t' hR
        exact hR.1.lookup name (h name (List.mem_filterMap.mpr ⟨_, hnode, rfl⟩))
      | call => exact hsteady
      | assign span name value =>
        exact ⟨hsteady, fun v s' t' hR => ⟨hR.1.bind name v, hR.2.bind hR.1.level name v⟩,
          fun hname s' t' hR => hR.1.root name hname⟩
      | _ => trivial
  obtain ⟨t', ht', hagree, hsettles⟩ := hsimulates.ok ⟨hst, fun _ => .inr ⟨rfl, rfl⟩⟩ hrun
  exact ⟨t', ht', hagree, hsettles⟩

/-- An assignment without effects in its value leaves the top level alone, its own name apart. -/
theorem root_of_assign {span : Span} {name : String} {value : Expr}
    (heffects : value.hasEffects = false) {s s' : State σ} {w : Value}
    (hrun : (Expr.assign span name value).eval context s = .ok w s') (other : String) :
    s'.top? other = s.top? other ∨ (other = name ∧ (s'.top? other).isSome = true) := by
  have hbind : ∀ {v : Value} {after : State σ}, after.scope = s.scope.bind name v →
      after.top? other = s.top? other ∨ (other = name ∧ (after.top? other).isSome = true) := by
    intro v after hafter
    unfold State.top?
    rw [hafter, Scope.root_bind]
    by_cases hname : s.scope.inner = [] ∧ other = name
    · rw [if_pos hname]
      exact .inr ⟨hname.2, rfl⟩
    · rw [if_neg hname]
      exact .inl rfl
  rw [Expr.eval] at hrun
  by_cases hexternal : context.external.contains name = true
  · rw [if_pos hexternal] at hrun
    cases hrun
    exact hbind rfl
  · rw [if_neg hexternal] at hrun
    obtain ⟨v, s₁, hvalue, hrest⟩ := bind_eq_ok hrun
    obtain rfl := eval_still heffects hvalue
    cases hrest
    exact hbind rfl

/-! ## Several statements -/

/-- Some statements, evaluated from one state to another, come to an assignment that is left out,
and there its name is bound as given; at the end it is bound in any case. -/
def Overtakes (context : Context σ) (es kept : List Expr) (s s' : State σ) (name : String)
    (stale : Option Value) : Prop :=
  (s'.top? name).isSome = true ∧
  ∃ before span value behind vs s₁, es = before ++ .assign span name value :: behind ∧
    LeavesOut kept before name value behind ∧ evalAll context before s = .ok vs s₁ ∧
      s₁.top? name = stale

section Overtaking

variable {es kept kept' : List Expr} {e : Expr} {s s₁ s' : State σ} {name : String}
  {stale : Option Value}

/-- A statement in front only prolongs the way to the one that is left out. -/
theorem Overtakes.cons (h : Overtakes context es kept' s₁ s' name stale) {x : Value}
    (hx : e.eval context s = .ok x s₁)
    (hkept : ∀ {before : List Expr} {value : Expr} {behind : List Expr},
      LeavesOut kept' before name value behind → LeavesOut kept (e :: before) name value behind) :
    Overtakes context (e :: es) kept s s' name stale := by
  obtain ⟨hbound, before, span, value, behind, vs, s₂, rfl, hleaves, hbefore, hstale⟩ := h
  refine ⟨hbound, e :: before, span, value, behind, x :: vs, s₂, rfl, hkept hleaves, ?_, hstale⟩
  rw [evalAll, bind_of_ok hx, bind_of_ok hbefore]
  rfl

end Overtaking

/-- The ways in which a run of some statements and a run of those that are kept can end, for one
name: it is bound alike; both have left it alone; the second has left it alone and the first has
come to an assignment that is left out; or what the second has bound, the first had bound when it
came to such an assignment. -/
inductive Parting (context : Context σ) (es kept : List Expr) (s t s' t' : State σ)
    (name : String) : Prop
  | alike : s'.top? name = t'.top? name → Parting context es kept s t s' t' name
  | untouched : s'.top? name = s.top? name → t'.top? name = t.top? name →
    Parting context es kept s t s' t' name
  | skipped : t'.top? name = t.top? name → Overtakes context es kept s s' name (s.top? name) →
      Parting context es kept s t s' t' name
  | overtaken : Overtakes context es kept s s' name (t'.top? name) →
    Parting context es kept s t s' t' name

section Steps

variable {es kept kept' : List Expr} {e : Expr} {s s₁ s' t t₁ t' : State σ} {name : String}

/-- A statement that is kept in front of others. -/
theorem Parting.cons_kept {x : Value} (hx : e.eval context s = .ok x s₁)
    (hsettles : Settles s t s₁ t₁) (h : Parting context es kept s₁ t₁ s' t' name) :
    Parting context (e :: es) (e :: kept) s t s' t' name := by
  have hcons : ∀ {stale : Option Value}, Overtakes context es kept s₁ s' name stale →
      Overtakes context (e :: es) (e :: kept) s s' name stale :=
    fun hovertakes => hovertakes.cons hx fun hleaves => hleaves.cons_kept e
  cases h with
  | alike hsame => exact .alike hsame
  | untouched hs ht =>
    rcases hsettles name with hsettled | ⟨hs₁, ht₁⟩
    · exact .alike (by rw [hs, ht, hsettled])
    · exact .untouched (hs.trans hs₁) (ht.trans ht₁)
  | skipped ht hovertakes =>
    rcases hsettles name with hsettled | ⟨hs₁, ht₁⟩
    · refine .overtaken (hcons ?_)
      rw [ht, ← hsettled]
      exact hovertakes
    · exact .skipped (ht.trans ht₁) (hcons (hs₁ ▸ hovertakes))
  | overtaken hovertakes => exact .overtaken (hcons hovertakes)

/-- An assignment that is dropped in front of others: it is the first one that is left out, if it
binds the name at all. -/
theorem Parting.cons_dropped {span : Span} {target : String} {value : Expr} {x : Value}
    (heffects : value.hasEffects = false)
    (hx : (Expr.assign span target value).eval context s = .ok x s₁)
    (hleaves : LeavesOut kept [] target value es) (h : Parting context es kept s₁ t s' t' name) :
    Parting context (.assign span target value :: es) kept s t s' t' name := by
  have hcons : ∀ {stale : Option Value}, Overtakes context es kept s₁ s' name stale →
      Overtakes context (.assign span target value :: es) kept s s' name stale :=
    fun hovertakes => hovertakes.cons hx fun hleaves => hleaves.cons_dropped _
  have hhere : name = target → (s'.top? name).isSome = true →
      Overtakes context (.assign span target value :: es) kept s s' name (s.top? name) := by
    rintro rfl hbound
    exact ⟨hbound, [], span, value, es, [], s, rfl, hleaves, rfl, rfl⟩
  cases h with
  | alike hsame => exact .alike hsame
  | untouched hs ht =>
    rcases root_of_assign heffects hx name with halone | ⟨hname, hbound⟩
    · exact .untouched (hs.trans halone) ht
    · exact .skipped ht (hhere hname (hs ▸ hbound))
  | skipped ht hovertakes =>
    rcases root_of_assign heffects hx name with halone | ⟨hname, -⟩
    · exact .skipped ht (hcons (halone ▸ hovertakes))
    · exact .skipped ht (hhere hname hovertakes.1)
  | overtaken hovertakes => exact .overtaken (hcons hovertakes)

end Steps

/-- The statements that are kept end like all of them do, for each name. -/
theorem evalLast_dropDead_root {es kept : List Expr} {live : List String} {log after : List Event}
    (h : dropDead es log = .ok (kept, live) after) (hne : es ≠ []) {result result' w : Value}
    {s t s' : State σ} (hst : Agree context live s t)
    (hrun : evalLast context result es s = .ok w s') :
    ∃ t', evalLast context result' kept t = .ok w t' ∧ Agree context [] s' t' ∧
      ∀ name, Parting context es kept s t s' t' name := by
  induction es generalizing kept live log after result result' s t with
  | nil => exact absurd rfl hne
  | cons e es ih =>
    rw [evalLast] at hrun
    obtain ⟨x, s₁, hx, hbehind⟩ := bind_eq_ok hrun
    cases es with
    | nil =>
      cases h
      obtain ⟨t', ht', hagree, hsettles⟩ := hst.eval_root (fun _ hname => hname) hx
      cases hbehind
      refine ⟨t', ?_, hagree.mono (by simp), fun name => ?_⟩
      · rw [evalLast, bind_of_ok ht']
        rfl
      · rcases hsettles name with hsame | ⟨hs', ht'⟩
        · exact .alike hsame
        · exact .untouched hs' ht'
    | cons e' es =>
      obtain ⟨kept', live', mid, hrest, hcases⟩ := dropDead_cons h
      rcases hcases with ⟨rfl, rfl, -⟩ | ⟨rfl, rfl, span, target, value, rfl, htarget, heffects⟩
      · have hreads : ∀ name ∈ e.references, name ∈ e.references ++ live' :=
          fun _ hname => List.mem_append_left _ hname
        obtain ⟨t₁, ht₁, hagree, hsettles⟩ := hst.eval_root hreads hx
        have hlive := hagree.mono fun name hname => List.mem_append_right e.references hname
        obtain ⟨t', hrun', hagree', hparting⟩ := ih hrest (by simp) hlive hbehind
        refine ⟨t', ?_, hagree', fun name => (hparting name).cons_kept hx hsettles⟩
        rw [evalLast, bind_of_ok ht₁]
        exact hrun'
      · -- The second run stays where it is, for the states agree on the live names all the same.
        obtain ⟨hsublist, rfl⟩ := dropDead_kept hrest
        have hleaves : LeavesOut kept [] target value (e' :: es) := by
          refine ⟨[], kept, rfl, .slnil, hsublist, by simp, heffects, fun e he hmem => htarget ?_⟩
          exact List.mem_flatMap.mpr ⟨e, he, hmem⟩
        obtain ⟨t', hrun', hagree', hparting⟩ :=
          ih hrest (by simp) (hst.after_dead htarget heffects hx) hbehind
        exact ⟨t', hrun', hagree', fun name => (hparting name).cons_dropped heffects hx hleaves⟩

/-! ## Whole trees -/

/-- A name for which the simplified form of a program reports an old value.  The evaluation of the
program comes to a statement that folds to an assignment to the name, which the host does not
supply; what is kept of the folded statements leaves this assignment out, and the old value is the
one that the name has there. -/
inductive Outdated (context : Context σ) (s : State σ) (t o : Expr) (name : String)
    (w : Value) : Prop
  | intro {span target : Span} {value statement : Expr}
      {before behind foldedBefore foldedBehind kept : List Expr} {vs : List Value} {s₁ : State σ} :
      t = .program span (before ++ statement :: behind) →
      List.Forall₂ Folds before foldedBefore → Folds statement (.assign target name value) →
      List.Forall₂ Folds behind foldedBehind → o = ofStatements span kept →
      LeavesOut kept foldedBefore name value foldedBehind → name ∉ context.external →
      evalAll context before s = .ok vs s₁ → s₁.scope.root.find? name = some w →
      Outdated context s t o name w

/-- Statements that succeed do so up to each of them. -/
theorem evalAll_of_evalLast {before behind : List Expr} {result w : Value} {s s' : State σ}
    (h : evalLast context result (before ++ behind) s = .ok w s') :
    ∃ vs s₁, evalAll context before s = .ok vs s₁ := by
  induction before generalizing result s with
  | nil => exact ⟨[], s, by rw [evalAll]; rfl⟩
  | cons e before ih =>
    rw [List.cons_append, evalLast] at h
    obtain ⟨v, s₁, he, hrest⟩ := bind_eq_ok h
    obtain ⟨vs, s₂, hvs⟩ := ih hrest
    refine ⟨v :: vs, s₂, ?_⟩
    rw [evalAll, bind_of_ok he, bind_of_ok hvs]
    rfl

/-- An assignment of a folded program that is left out is one of the program itself, and its
evaluation comes to it in the same state. -/
theorem outdated_of_overtakes {t : Expr} {span : Span} {fs kept : List Expr} {name : String}
    {v w : Value} {s s' s'' : State σ} (hfolds : Folds t (.program span fs))
    (hprograms : t.ProgramsAtRoot) (hrun : t.eval context s = .ok v s'')
    (hname : name ∉ context.external) (h : Overtakes context fs kept s s' name (some w)) :
    Outdated context s t (ofStatements span kept) name w := by
  obtain ⟨-, foldedBefore, target, value, foldedBehind, vs, s₁, rfl, hleaves, hbefore, hstale⟩ := h
  obtain ⟨es, rfl, hparts⟩ := hfolds.of_program hprograms
  obtain ⟨before, statement, behind, rfl, hbefores, hstatement, hbehinds⟩ :=
    exists_of_folds_append hparts
  rw [eval] at hrun
  obtain ⟨vs', s₂, hfront⟩ := evalAll_of_evalLast hrun
  have htracks : Tracks False Eq (evalAll context before) (evalAll context foldedBefore) :=
    Simulates.evalAll (forall₂_of_parts hbefores fun e _ f hf => fold_simulates hf False.elim)
  obtain ⟨_, hfolded, rfl⟩ := htracks.ok rfl hfront
  obtain ⟨-, rfl⟩ := EStateM.Result.ok.inj (hfolded.symm.trans hbefore)
  exact .intro rfl hbefores hstatement hbehinds rfl hleaves hname hfront hstale

/-- What the simplified form of a tree binds at the top level, the tree binds as well, and to the
same value unless that is outdated. -/
theorem eval_simplified_root {t o : Expr} {log after : List Event}
    (hoptimize : optimize t none log = .ok o after) (hprograms : t.ProgramsAtRoot)
    {s s' : State σ} {v : Value} (hrun : t.eval context s = .ok v s') :
    ∃ t', o.eval context s = .ok v t' ∧ ∀ name w, t'.top? name = some w →
      s'.top? name = some w ∨ ((s'.top? name).isSome = true ∧ Outdated context s t o name w) := by
  obtain ⟨folded, hfolds, hcases⟩ := optimize_none_cases hoptimize
  have hsimulates : Simulates context False Eq t folded := fold_simulates hfolds False.elim
  obtain ⟨_, hfolded, rfl⟩ := hsimulates.ok rfl hrun
  rcases hcases with ⟨-, rfl⟩ | ⟨span, fs, kept, live, mid, mid', rfl, rfl, hkept⟩
  · exact ⟨s', hfolded, fun name w hw => .inl hw⟩
  · rw [eval] at hfolded
    rw [eval_ofStatements]
    by_cases hne : fs = []
    · subst hne
      cases hkept
      exact ⟨s', hfolded, fun name w hw => .inl hw⟩
    obtain ⟨t', hkeptRun, hagree, hparting⟩ := evalLast_dropDead_root hkept hne (.refl s) hfolded
    refine ⟨t', hkeptRun, fun name w hw => ?_⟩
    have hoverturned : Overtakes context fs kept s s' name (some w) → s'.top? name = some w ∨
        ((s'.top? name).isSome = true ∧ Outdated context s t (ofStatements span kept) name w) := by
      intro hovertakes
      by_cases hname : name ∈ context.external
      · -- The host's value is the same in both runs.
        have hroot : (s'.top? name).getD .null = (t'.top? name).getD .null := hagree.root name hname
        obtain ⟨w', hw'⟩ := Option.isSome_iff_exists.mp hovertakes.1
        rw [hw, hw'] at hroot
        exact .inl (hw'.trans (congrArg some hroot))
      · exact .inr ⟨hovertakes.1, outdated_of_overtakes hfolds hprograms hrun hname hovertakes⟩
    cases hparting name with
    | alike hsame => exact .inl (hsame.trans hw)
    | untouched hs ht => exact .inl (hs.trans (ht.symm.trans hw))
    | skipped ht hovertakes => exact hoverturned (ht.symm.trans hw ▸ hovertakes)
    | overtaken hovertakes => exact hoverturned (hw ▸ hovertakes)

/-- If a tree in which programs stand at the root only is evaluated to a value, every name that its
simplified form reports is reported for the tree, with the same value; or an assignment to it has
been left out, and the simplified form reports what the name is bound to when the tree's evaluation
comes to that assignment. -/
theorem bindings_of_simplified (context : Context σ) (host : σ) {t o : Expr}
    {log after : List Event} (hoptimize : optimize t none log = .ok o after)
    (hprograms : t.ProgramsAtRoot) {v : Value}
    (hrun : (Evaluation.run (.tree t) context host).result = .ok v) (name : String) (w : Value)
    (hbound : (Evaluation.run (.tree o) context host).bindings.find? name = some w) :
    (Evaluation.run (.tree t) context host).bindings.find? name = some w ∨
    ((Evaluation.run (.tree t) context host).bindings.find? name).isSome = true ∧
      ∃ s, Evaluator.begin context host = .ok s ∧ Outdated context s t o name w := by
  cases hbegin : Evaluator.begin context host with
  | error failure => simp [Evaluation.run, Evaluation.prepare, hbegin] at hrun
  | ok s =>
    have htree : ∀ e : Expr, Evaluation.run (.tree e) context host =
        ⟨(Evaluation.continueWith context e s).1, some (Evaluation.continueWith context e s).2⟩ :=
      fun e => Evaluation.run_eq rfl hbegin
    rw [htree] at hrun hbound ⊢
    cases hvalue : t.eval context s with
    | error failure s' => simp [Evaluation.continueWith, hvalue] at hrun
    | ok v' s' =>
      obtain ⟨t', hsimplified, hreported⟩ := eval_simplified_root hoptimize hprograms hvalue
      have hbefore : Evaluation.continueWith context t s = (.ok v', s') := by
        rw [Evaluation.continueWith, hvalue]
      have hafter : Evaluation.continueWith context o s = (.ok v', t') := by
        rw [Evaluation.continueWith, hsimplified]
      rw [hafter] at hbound
      rw [hbefore]
      rcases hreported name w hbound with hsame | ⟨hsome, houtdated⟩
      · exact .inl hsame
      · exact .inr ⟨hsome, s, rfl, houtdated⟩

section Example

/-- A name is read, and then assigned anew for nothing. -/
def overwriting : Expr :=
  .program .none [.assign .none "x" (.string .none "a"), .identifier .none "x",
    .assign .none "x" (.string .none "b"), .number .none 5.0]

/-- What is left of it. -/
def overwritingSimplified : Expr :=
  .program .none [.assign .none "x" (.string .none "a"), .identifier .none "x", .number .none 5.0]

/-- The second assignment is left out, though the name is bound to another value before it. -/
theorem optimize_overwriting :
    optimize overwriting none [] = .ok overwritingSimplified [.deadAssignmentEliminated "x"] := by
  have hpure : (Expr.string .none "b").hasEffects = false := by
    simp [hasEffects, nodes_eq, children, isEffect]
  have hreads : (Expr.number .none 5.0).references = [] := by
    simp [references, nodes_eq, children, reference?, List.filterMap_cons]
  have hreads' : (Expr.identifier .none "x").references = ["x"] := by
    simp [references, nodes_eq, children, reference?]
  have hlast : dropDead [.number .none 5.0] [] = .ok ([.number .none 5.0], []) [] := by
    rw [dropDead, hreads]
    rfl
  have hdead : dead? [] (.assign .none "x" (.string .none "b")) = some "x" := by
    rw [dead?, hpure]
    rfl
  have hdropped : dropDead [.assign .none "x" (.string .none "b"), .number .none 5.0] [] =
      .ok ([.number .none 5.0], []) [.deadAssignmentEliminated "x"] := dropDead_of_dead hlast hdead
  have hread : dropDead [.identifier .none "x", .assign .none "x" (.string .none "b"),
      .number .none 5.0] [] =
      .ok ([.identifier .none "x", .number .none 5.0], ["x"]) [.deadAssignmentEliminated "x"] := by
    rw [dropDead_of_live hdropped rfl, hreads', List.append_nil]
  have hlive : dead? ["x"] (.assign .none "x" (.string .none "a")) = none := rfl
  have hkept := dropDead_of_live hread hlive
  rw [optimize]
  show (dropDead [.assign .none "x" (.string .none "a"), .identifier .none "x",
    .assign .none "x" (.string .none "b"), .number .none 5.0] >>=
      fun kept => pure (ofStatements _ kept.1)) [] = _
  rw [bind_of_ok hkept]
  rfl

/-- The value that a simplified program reports for a name need not be the last one. -/
theorem run_simplified_stale :
    let context : Context Unit := ⟨fun _ => none, [], .standard, none⟩
    optimize overwriting none [] = .ok overwritingSimplified [.deadAssignmentEliminated "x"] ∧
    (Evaluation.run (.tree overwriting) context ()).result = .ok (.number 5.0) ∧
    (Evaluation.run (.tree overwritingSimplified) context ()).result = .ok (.number 5.0) ∧
    (Evaluation.run (.tree overwritingSimplified) context ()).bindings.find? "x" =
      some (.string "a") ∧
    (Evaluation.run (.tree overwriting) context ()).bindings.find? "x" = some (.string "b") :=
  ⟨optimize_overwriting, rfl, rfl, rfl, rfl⟩

/-- The simplified form reports the value that the name had before the assignment that is left
out. -/
theorem bindings_of_simplified_overwriting :
    let context : Context Unit := ⟨fun _ => none, [], .standard, none⟩
    optimize overwriting none [] = .ok overwritingSimplified [.deadAssignmentEliminated "x"] ∧
    overwriting.ProgramsAtRoot ∧
    (Evaluation.run (.tree overwriting) context ()).result = .ok (.number 5.0) ∧
    (Evaluation.run (.tree overwritingSimplified) context ()).bindings.find? "x" =
      some (.string "a") ∧
    ∃ s, Evaluator.begin context () = .ok s ∧
      Outdated context s overwriting overwritingSimplified "x" (.string "a") := by
  intro context
  have hprograms : overwriting.ProgramsAtRoot := by
    intro part hpart
    simp only [overwriting, children, List.mem_cons, List.not_mem_nil, or_false] at hpart
    rcases hpart with rfl | rfl | rfl | rfl <;> simp [Everywhere, nodes_eq, children]
  have hrun : (Evaluation.run (.tree overwriting) context ()).result = .ok (.number 5.0) := rfl
  have hbound : (Evaluation.run (.tree overwritingSimplified) context ()).bindings.find? "x" =
      some (.string "a") := rfl
  have hlast : (Evaluation.run (.tree overwriting) context ()).bindings.find? "x" =
      some (.string "b") := rfl
  refine ⟨optimize_overwriting, hprograms, hrun, hbound, ?_⟩
  rcases bindings_of_simplified context () optimize_overwriting hprograms hrun "x" _ hbound with
    hsame | ⟨-, houtdated⟩
  · exact absurd (Value.string.inj (Option.some.inj (hlast.symm.trans hsame))) (by decide)
  · exact houtdated

end Example

end Expr

end Formulary
