import Formulary.Proofs.Escape
import Formulary.Proofs.Optimizing
import Formulary.Proofs.Recognition
import Formulary.Proofs.Widening

/-!
# The failures that simplification hides

A simplified program can succeed where the program fails, but in one way only: the program fails in
the value of an assignment that is dropped because nothing reads it (`Expr.run_of_simplified`).
Dropping is followed backwards here: if what is kept of some statements succeeds, then all of them
do, or one that is left out fails (`Expr.evalLast_of_dropDead`).  Folding hides nothing as long as
no array is over its limit; so the whole argument is made under limits that admit all arrays of the
program, and brought back to the limits of the host, which by assumption stop nothing.
-/

set_option autoImplicit false

namespace Formulary

variable {σ : Type}

namespace Expr

open Run

variable {context : Context σ}

/-! ## Programs -/

/-- No program stands below the root of a tree. -/
def ProgramsAtRoot (e : Expr) : Prop :=
  ∀ part ∈ e.children, part.Everywhere fun node => ∀ span es, node ≠ .program span es

/-- A literal is no program. -/
theorem ne_program_of_isLiteral {e : Expr} (h : e.isLiteral = true) (span : Span) (es : List Expr) :
    e ≠ .program span es := by
  rintro rfl
  cases h

/-- A tree without programs does not fold to one. -/
theorem Folds.ne_program {e f : Expr} (h : Folds e f)
    (he : e.Everywhere fun node => ∀ span es, node ≠ .program span es) (span : Span)
    (es : List Expr) :
    f ≠ .program span es := by
  induction e using byParts generalizing f with
  | number | string | boolean => exact ne_program_of_isLiteral (h.literal rfl ▸ rfl) span es
  | identifier => rw [h.identifier]; rintro ⟨⟩
  | foreign => exact h.foreign.elim
  | program span' es' => exact absurd rfl (he.root span' es')
  | array => obtain ⟨_, -, rfl⟩ := h.array; rintro ⟨⟩
  | call => obtain ⟨_, -, rfl⟩ := h.call; rintro ⟨⟩
  | assign => obtain ⟨_, -, rfl⟩ := h.assign; rintro ⟨⟩
  | range => obtain ⟨_, _, -, -, rfl⟩ := h.range; rintro ⟨⟩
  | comprehension _ _ _ guard _ =>
    cases guard with
    | none => obtain ⟨_, _, -, -, rfl⟩ := h.comprehension; rintro ⟨⟩
    | some g => obtain ⟨_, _, _, -, -, -, rfl⟩ := h.guarded; rintro ⟨⟩
  | binary =>
    obtain ⟨_, _, -, -, rfl | ⟨x, y, v, -, -, -, hliteral⟩⟩ := h.binary
    · rintro ⟨⟩
    · have hfolded := isLiteral_of_literal? (literal?_of_ofLiteral? hliteral)
      exact ne_program_of_isLiteral hfolded span es
  | unary =>
    obtain ⟨_, -, rfl | ⟨x, v, -, -, hliteral⟩⟩ := h.unary
    · rintro ⟨⟩
    · have hfolded := isLiteral_of_literal? (literal?_of_ofLiteral? hliteral)
      exact ne_program_of_isLiteral hfolded span es
  | index =>
    obtain ⟨_, _, -, -, rfl | helement⟩ := h.index
    · rintro ⟨⟩
    · exact ne_program_of_isLiteral (isLiteral_of_literalElement? helement) span es
  | conditional _ c x y _ hx hy =>
    obtain ⟨_, -, ⟨-, hf⟩ | ⟨-, hf⟩ | ⟨_, _, -, -, rfl⟩⟩ := h.conditional
    · exact hx hf (he.part (by simp [children]))
    · exact hy hf (he.part (by simp [children]))
    · rintro ⟨⟩

/-- Only a program folds to a program. -/
theorem Folds.of_program {e : Expr} {span : Span} {fs : List Expr} (h : Folds e (.program span fs))
    (he : e.ProgramsAtRoot) : ∃ es, e = .program span es ∧ List.Forall₂ Folds es fs := by
  by_cases hprogram : ∃ span' es, e = .program span' es
  · obtain ⟨span', es, rfl⟩ := hprogram
    obtain ⟨fs', hfolds, heq⟩ := h.program
    obtain ⟨rfl, rfl⟩ := Expr.program.inj heq
    exact ⟨es, rfl, hfolds⟩
  · refine absurd rfl (h.ne_program ((everywhere_iff e).mpr ⟨?_, he⟩) span fs)
    rintro span' es rfl
    exact hprogram ⟨span', es, rfl⟩

/-! ## Statements that are left out -/

/-- What is kept of some statements leaves one out, an assignment in front of others: its value has
neither calls nor assignments, and no statement that is kept behind it reads its name. -/
def LeavesOut (kept before : List Expr) (name : String) (value : Expr)
    (behind : List Expr) : Prop :=
  ∃ keptBefore keptBehind, kept = keptBefore ++ keptBehind ∧ keptBefore.Sublist before ∧
    keptBehind.Sublist behind ∧ behind ≠ [] ∧ value.hasEffects = false ∧
    ∀ e ∈ keptBehind, name ∉ e.references

/-- A statement is left out too if another one is kept in front of it. -/
theorem LeavesOut.cons_kept {kept before behind : List Expr} {name : String} {value : Expr}
    (h : LeavesOut kept before name value behind) (e : Expr) :
    LeavesOut (e :: kept) (e :: before) name value behind := by
  obtain ⟨keptBefore, keptBehind, rfl, hbefore, hrest⟩ := h
  exact ⟨e :: keptBefore, keptBehind, rfl, hbefore.cons_cons e, hrest⟩

/-- A statement is left out too if another one is dropped in front of it. -/
theorem LeavesOut.cons_dropped {kept before behind : List Expr} {name : String} {value : Expr}
    (h : LeavesOut kept before name value behind) (e : Expr) :
    LeavesOut kept (e :: before) name value behind := by
  obtain ⟨keptBefore, keptBehind, rfl, hbefore, hrest⟩ := h
  exact ⟨keptBefore, keptBehind, rfl, hbefore.cons e, hrest⟩

/-- The names that are live are those that the kept statements read. -/
theorem dropDead_kept {es kept : List Expr} {live : List String} {log after : List Event}
    (h : dropDead es log = .ok (kept, live) after) :
    kept.Sublist es ∧ live = kept.flatMap references := by
  induction es generalizing kept live log after with
  | nil =>
    cases h
    exact ⟨.slnil, rfl⟩
  | cons e es ih =>
    cases es with
    | nil =>
      cases h
      exact ⟨.refl _, (List.flatMap_singleton references e).symm⟩
    | cons e' es =>
      obtain ⟨kept', live', mid, hrest, hcases⟩ := dropDead_cons h
      obtain ⟨hsublist, rfl⟩ := ih hrest
      rcases hcases with ⟨rfl, rfl, -⟩ | ⟨rfl, rfl, -⟩
      · exact ⟨hsublist.cons_cons e, List.flatMap_cons.symm⟩
      · exact ⟨hsublist.cons e, rfl⟩

/-- States agree on names in both directions. -/
theorem Agree.symm {names : List String} {s t : State σ} (h : Agree context names s t) :
    Agree context names t s :=
  ⟨h.host.symm, h.calls.symm, fun name hname => (h.lookup name hname).symm,
    fun name hname => (h.root name hname).symm, h.level.symm⟩

/-- An assignment fails only in its value, and only if the host does not supply its name. -/
theorem value_of_assign_error {span : Span} {name : String} {value : Expr} {s s' : State σ}
    {failure : Failure} (h : (Expr.assign span name value).eval context s = .error failure s') :
    name ∉ context.external ∧ value.eval context s = .error failure s' := by
  rw [eval] at h
  by_cases hname : context.external.contains name = true
  · rw [if_pos hname] at h
    cases h
  · rw [if_neg hname] at h
    refine ⟨mt List.contains_iff_mem.mpr hname, ?_⟩
    rcases bind_eq_error h with hvalue | ⟨v, s₁, -, hbind⟩
    · exact hvalue
    · cases hbind

/-- If what is kept of statements succeeds, from a state that agrees with theirs on the names that
are live, then all of them succeed, or their evaluation comes to one that is left out and fails
there. -/
theorem evalLast_of_dropDead {es kept : List Expr} {live : List String} {log after : List Event}
    (h : dropDead es log = .ok (kept, live) after) (hne : es ≠ []) {result result' w : Value}
    {s t t' : State σ} (hst : Agree context live s t)
    (hrun : evalLast context result' kept t = .ok w t') :
    (∃ s', evalLast context result es s = .ok w s') ∨
    ∃ before span name value behind vs s₁ failure s₂, es = before ++
      .assign span name value :: behind ∧
      LeavesOut kept before name value behind ∧ evalAll context before s = .ok vs s₁ ∧
      (Expr.assign span name value).eval context s₁ = .error failure s₂ := by
  induction es generalizing kept live log after result result' s t with
  | nil => exact absurd rfl hne
  | cons e es ih =>
    -- A statement in front that succeeds only prolongs the way to the one that fails.
    have hlonger : ∀ {x : Value} {s₁ : State σ} {kept' : List Expr}, e.eval context s = .ok x s₁ →
        (∀ {before : List Expr} {name : String} {value : Expr} {behind : List Expr},
          LeavesOut kept' before name value behind →
            LeavesOut kept (e :: before) name value behind) →
        ((∃ s', evalLast context x es s₁ = .ok w s') ∨
          ∃ before span name value behind vs s₂ failure s₃, es = before ++
            .assign span name value :: behind ∧
            LeavesOut kept' before name value behind ∧ evalAll context before s₁ = .ok vs s₂ ∧
            (Expr.assign span name value).eval context s₂ = .error failure s₃) →
        (∃ s', evalLast context result (e :: es) s = .ok w s') ∨
          ∃ before span name value behind vs s₂ failure s₃,
            e :: es = before ++ .assign span name value :: behind ∧
            LeavesOut kept before name value behind ∧ evalAll context before s = .ok vs s₂ ∧
            (Expr.assign span name value).eval context s₂ = .error failure s₃ := by
      rintro x s₁ kept' hx hkept
        (⟨s', hbehind⟩ | ⟨before, span, name, value, behind, vs, s₂, failure, s₃,
        rfl, hleaves, hbefore, hfails⟩)
      · refine .inl ⟨s', ?_⟩
        rw [evalLast, bind_of_ok hx]
        exact hbehind
      · refine .inr ⟨e :: before, span, name, value, behind, x :: vs, s₂, failure, s₃, rfl,
          hkept hleaves, ?_, hfails⟩
        rw [evalAll, bind_of_ok hx, bind_of_ok hbefore]
        rfl
    cases es with
    | nil =>
      cases h
      rw [evalLast] at hrun
      obtain ⟨x, t₁, hx, hbehind⟩ := bind_eq_ok hrun
      cases hbehind
      obtain ⟨s₁, hs₁, -⟩ := hst.symm.eval (fun _ hname => hname) hx
      refine .inl ⟨s₁, ?_⟩
      rw [evalLast, bind_of_ok hs₁]
      rfl
    | cons e' es =>
      obtain ⟨kept', live', mid, hrest, hcases⟩ := dropDead_cons h
      rcases hcases with ⟨rfl, rfl, -⟩ | ⟨rfl, rfl, span, name, value, rfl, hname, heffects⟩
      · have hreads : ∀ name ∈ e.references, name ∈ e.references ++ live' :=
          fun _ hname => List.mem_append_left _ hname
        rw [evalLast] at hrun
        obtain ⟨x, t₁, hx, hbehind⟩ := bind_eq_ok hrun
        obtain ⟨s₁, hs₁, hagree⟩ := hst.symm.eval hreads hx
        have hlive := hagree.symm.mono fun name hname => List.mem_append_right e.references hname
        exact hlonger hs₁ (fun hleaves => hleaves.cons_kept e) (ih hrest (by simp) hlive hbehind)
      · -- The statement is left out: if it succeeds it changes nothing that is live, and if it
        -- fails it is the one.
        cases hvalue : (Expr.assign span name value).eval context s with
        | ok w' s₁ =>
          have hagree := hst.after_dead hname heffects hvalue
          exact hlonger hvalue (fun hleaves => hleaves.cons_dropped _)
            (ih hrest (by simp) hagree hrun)
        | error failure s₁ =>
          obtain ⟨hsublist, rfl⟩ := dropDead_kept hrest
          refine .inr ⟨[], span, name, value, e' :: es, [], s, failure, s₁, rfl, ?_, rfl, hvalue⟩
          refine ⟨[], kept, rfl, .slnil, hsublist, by simp, heffects, fun e he hmem => hname ?_⟩
          exact List.mem_flatMap.mpr ⟨e, he, hmem⟩

/-! ## Hidden failures -/

/-- The failure of a program that its simplified form is spared.  The evaluation of the program
comes to a statement that folds to an assignment, to a name that the host does not supply, and fails
there; what is kept of the folded statements leaves this assignment out. -/
inductive Spared (context : Context σ) (s : State σ) (t o : Expr) (failure : Failure) : Prop
  | intro {span target : Span} {name : String} {value statement : Expr}
      {before behind foldedBefore foldedBehind kept : List Expr} {vs : List Value}
        {s₁ s₂ : State σ} :
      t = .program span (before ++ statement :: behind) →
      List.Forall₂ Folds before foldedBefore → Folds statement (.assign target name value) →
      List.Forall₂ Folds behind foldedBehind → o = ofStatements span kept →
      LeavesOut kept foldedBefore name value foldedBehind → name ∉ context.external →
      evalAll context before s = .ok vs s₁ → statement.eval context s₁ = .error failure s₂ →
      Spared context s t o failure

/-- The program fails so. -/
theorem Spared.fails {s : State σ} {t o : Expr} {failure : Failure}
    (h : Spared context s t o failure) :
    ∃ s', t.eval context s = .error failure s' := by
  cases h with
  | intro ht _ _ _ _ _ _ hbefore hfails =>
    subst ht
    exact (Enters.statement hbefore).fails hfails

/-- The statement that folds to a given one, and those around it. -/
theorem exists_of_folds_append {es before behind : List Expr} {f : Expr}
    (h : List.Forall₂ Folds es (before ++ f :: behind)) :
    ∃ before' e behind', es = before' ++ e :: behind' ∧
      List.Forall₂ Folds before' before ∧ Folds e f ∧
      List.Forall₂ Folds behind' behind := by
  induction before generalizing es with
  | nil =>
    obtain ⟨e, behind', he, hbehind, rfl⟩ := List.forall₂_cons_right_iff.mp h
    exact ⟨[], e, behind', rfl, .nil, he, hbehind⟩
  | cons f' before ih =>
    obtain ⟨e', es', he', hes', rfl⟩ := List.forall₂_cons_right_iff.mp h
    obtain ⟨before', e, behind', rfl, hbefore, he, hbehind⟩ := ih hes'
    exact ⟨e' :: before', e, behind', rfl, .cons he' hbefore, he, hbehind⟩

/-- If the simplified form of a tree succeeds, so does the tree, or it fails in what the simplified
form is spared; the limits admit all array literals of the tree. -/
theorem eval_of_simplified {t o : Expr} {log after : List Event}
    (hoptimize : optimize t none log = .ok o after) (hprograms : t.ProgramsAtRoot)
    (hwithin : t.Everywhere (ArrayWithin context.limits)) {s s' : State σ} {v : Value}
    (hrun : o.eval context s = .ok v s') :
    (∃ s', t.eval context s = .ok v s') ∨ ∃ failure, Spared context s t o failure := by
  obtain ⟨folded, hfolds, hcases⟩ := optimize_none_cases hoptimize
  have hsimulates : Simulates context True Eq t folded := fold_simulates hfolds fun _ => hwithin
  rcases hcases with ⟨-, rfl⟩ | ⟨span, fs, kept, live, mid, mid', rfl, rfl, hkept⟩
  · obtain ⟨s₁, hs₁, -⟩ := hsimulates.ok_of_ok rfl hrun
    exact .inl ⟨s₁, hs₁⟩
  · rw [eval_ofStatements] at hrun
    have hall : (∃ s', evalLast context (.number 0.0) fs s = .ok v s') →
        ∃ s', t.eval context s = .ok v s' := by
      rintro ⟨s₁, hs₁⟩
      have hprogram : (Expr.program span fs).eval context s = .ok v s₁ := by
        rw [eval]
        exact hs₁
      obtain ⟨s₂, hs₂, -⟩ := hsimulates.ok_of_ok rfl hprogram
      exact ⟨s₂, hs₂⟩
    by_cases hne : fs = []
    · subst hne
      cases hkept
      exact .inl (hall ⟨s', hrun⟩)
    rcases evalLast_of_dropDead hkept hne (.refl s) hrun with hok |
      ⟨foldedBefore, target, name, value,
      foldedBehind, vs, s₁, failure, s₂, rfl, hleaves, hbefore, hfails⟩
    · exact .inl (hall hok)
    · -- It is a folded statement that fails; so the statement that it comes from fails as well.
      obtain ⟨es, rfl, hparts⟩ := hfolds.of_program hprograms
      obtain ⟨before, statement, behind, rfl, hbefores, hstatement, hbehinds⟩ :=
        exists_of_folds_append hparts
      have hpart : ∀ e ∈ before ++ statement :: behind, ∀ f, Folds e f →
          Simulates context True Eq e f :=
        fun e he f hf => fold_simulates hf fun _ => hwithin.part he
      have hmem : statement ∈ before ++ statement :: behind := by simp
      have hfront : Tracks True Eq (evalAll context before) (evalAll context foldedBefore) := by
        refine Simulates.evalAll (forall₂_of_parts hbefores fun e he f hf => ?_)
        exact hpart e (List.mem_append_left _ he) f hf
      obtain ⟨_, hbefore', rfl⟩ := hfront.ok_of_ok rfl hbefore
      obtain ⟨failure', s₃, hfails', -⟩ :=
        (hpart statement hmem _ hstatement).error_of_error rfl hfails
      refine .inr ⟨failure', ?_⟩
      exact .intro rfl hbefores hstatement hbehinds rfl hleaves (value_of_assign_error hfails).1
        hbefore' hfails'

/-- If some statements fail, they fail with others behind them. -/
theorem evalAll_append_of_error {before : List Expr} {s s' : State σ} {failure : Failure}
    (h : evalAll context before s = .error failure s') (after : List Expr) :
    evalAll context (before ++ after) s = .error failure s' := by
  obtain ⟨front, part, rest, vs, s₁, rfl, hfront, hpart⟩ := exists_of_evalAll_error h
  rw [List.append_assoc, List.cons_append]
  exact evalAll_of_error hfront hpart

/-- What a simplified form is spared under wider limits it is spared under those of the context as
well, if these do not stop the tree. -/
theorem Spared.of_wider {limits : Limits} (hwider : context.limits ≤ limits) {s : State σ}
    {t o : Expr} {failure : Failure} (h : Spared { context with limits := limits } s t o failure)
    (hlimits : ∀ failure s', t.eval context s = .error failure s' →
      ¬ context.limits.Stops failure) :
    Spared context s t o failure := by
  cases h with
  | @intro _ _ _ _ statement before _ _ _ _ vs s₁ s₂ ht hbefores hstatement hbehinds ho hleaves
      hname hbefore hfails =>
    subst ht
    have hfront : evalAll context before s = .ok vs s₁ := by
      rcases evalAll_widened (fun e _ => eval_widened hwider e) s with hsame |
        ⟨failure', s', hstopped, hstops⟩
      · exact hsame.trans hbefore
      · refine absurd hstops (hlimits failure' s' ?_)
        rw [eval, evalLast_eq, bind_of_error (evalAll_append_of_error hstopped _)]
    have hhere : statement.eval context s₁ = .error failure s₂ := by
      rcases eval_widened hwider statement s₁ with hsame | ⟨failure', s', hstopped, hstops⟩
      · exact hsame.trans hfails
      · obtain ⟨s'', hprogram⟩ := (Enters.statement hfront).fails hstopped
        exact absurd hstops (hlimits failure' s'' hprogram)
    exact .intro rfl hbefores hstatement hbehinds ho hleaves hname hfront hhere

end Expr

/-- Limits raised to an amount at least. -/
def Limits.raised (limits : Limits) (amount : Nat) : Limits where
  bound kind := if limits.bound kind < amount then amount else limits.bound kind

/-- Raised limits are no lower than the limits before. -/
theorem Limits.le_raised (limits : Limits) (amount : Nat) : limits ≤ limits.raised amount := by
  intro kind
  show limits.bound kind ≤ if limits.bound kind < amount then (amount : Int) else limits.bound kind
  split <;> omega

/-- Each of the raised limits is at least the amount. -/
theorem Limits.amount_le_raised (limits : Limits) (amount : Nat) (kind : LimitKind) :
    (amount : Int) ≤ (limits.raised amount).bound kind := by
  show (amount : Int) ≤ if limits.bound kind < amount then (amount : Int) else limits.bound kind
  split <;> omega

namespace Expr

/-- Every tree has its array literals within limits that are raised to its weight. -/
theorem arraysWithin_raised (e : Expr) (limits : Limits) :
    e.Everywhere (ArrayWithin (limits.raised e.weight)) := by
  have hlists : e.ListsWithin (limits.raised e.weight) := by
    apply listsWithin_of_weight _ _ e (Nat.le_refl _)
    · exact limits.amount_le_raised _ _
    · exact limits.amount_le_raised _ _
  refine hlists.imp fun node hnode => ?_
  cases node with
  | array => exact hnode
  | _ => trivial

/-- Simplification without names hides no failures but those of the assignments that it drops.  If a
tree is simplified, its simplified form returns a value, and no limit stops the tree, then the tree
returns the same value, or it fails in what its simplified form is spared: in a statement that has
become an assignment without calls, which no statement that is kept behind it reads. -/
theorem run_of_simplified (context : Context σ) (host : σ) {t o : Expr} {log after : List Event}
    (hoptimize : optimize t none log = .ok o after) (hprograms : t.ProgramsAtRoot) {v : Value}
    (hrun : (Evaluation.run (.tree o) context host).result = .ok v)
    (hlimits : ∀ failure, (Evaluation.run (.tree t) context host).result = .error failure →
      ¬ context.limits.Stops failure) :
    (Evaluation.run (.tree t) context host).result = .ok v ∨
    ∃ s failure, Evaluator.begin context host = .ok s ∧
      (Evaluation.run (.tree t) context host).result = .error failure ∧
      Spared context s t o failure := by
  cases hbegin : Evaluator.begin context host with
  | error failure => simp [Evaluation.run, Evaluation.prepare, hbegin] at hrun
  | ok s =>
    have hresult : ∀ e : Expr, (Evaluation.run (.tree e) context host).result =
        (Evaluation.continueWith context e s).1 := fun e => by rw [Evaluation.run_eq rfl hbegin]
    rw [hresult] at hrun ⊢
    have hnotStopped : ∀ failure s', t.eval context s = .error failure s' →
        ¬ context.limits.Stops failure := by
      intro failure s' hfails
      exact hlimits failure (Evaluation.result_of_error rfl hbegin hfails)
    have hwider := context.limits.le_raised t.weight
    have hsimplified : ∃ s', o.eval context s = .ok v s' := by
      cases ho : o.eval context s with
      | ok w s' =>
        rw [Evaluation.continueWith, ho] at hrun
        cases hrun
        exact ⟨s', rfl⟩
      | error failure s' =>
        rw [Evaluation.continueWith, ho] at hrun
        cases hrun
    obtain ⟨s', ho⟩ := hsimplified
    rcases eval_of_simplified hoptimize hprograms (arraysWithin_raised t context.limits)
      ((eval_widened hwider o).ok ho) with ⟨s₁, ht⟩ | ⟨failure, hspared⟩
    · refine .inl ?_
      rcases eval_widened hwider t s with hsame | ⟨failure, s₂, hstopped, hstops⟩
      · rw [Evaluation.continueWith, hsame.trans ht]
      · exact absurd hstops (hnotStopped failure s₂ hstopped)
    · have hhere := hspared.of_wider hwider hnotStopped
      refine .inr ⟨s, failure, rfl, ?_, hhere⟩
      obtain ⟨s₂, hfails⟩ := hhere.fails
      rw [Evaluation.continueWith, hfails]

section Example

/-- An assignment of an undefined name that nothing reads. -/
theorem optimize_unread :
    optimize (.program .none [.assign .none "x" (.identifier .none "y"), .number .none 5.0])
        none [] =
      .ok (.number .none 5.0) [.deadAssignmentEliminated "x"] := by
  have heffects : (Expr.identifier .none "y").hasEffects = false := by
    simp [hasEffects, nodes_eq, children, isEffect]
  have hreads : (Expr.number .none 5.0).references = [] := by
    simp [references, nodes_eq, children, reference?, List.filterMap_cons]
  have hdead : dead? [] (.assign .none "x" (.identifier .none "y")) = some "x" := by
    rw [dead?, heffects]
    rfl
  have hlast : dropDead [.number .none 5.0] [] = .ok ([.number .none 5.0], []) [] := by
    rw [dropDead, hreads]
    rfl
  have hdrop : dropDead [.assign .none "x" (.identifier .none "y"), .number .none 5.0] [] =
      .ok ([.number .none 5.0], []) [.deadAssignmentEliminated "x"] := dropDead_of_dead hlast hdead
  rw [optimize]
  show (dropDead [.assign .none "x" (.identifier .none "y"), .number .none 5.0] >>=
    fun kept => pure (ofStatements _ kept.1)) [] = _
  rw [bind_of_ok hdrop]
  rfl

/-- A simplified formula can succeed where the formula fails. -/
theorem run_simplified_without_failure :
    let context : Context Unit := ⟨fun _ => none, [], .standard, none⟩
    let t : Expr := .program .none [.assign .none "x" (.identifier .none "y"), .number .none 5.0]
    optimize t none [] = .ok (.number .none 5.0) [.deadAssignmentEliminated "x"] ∧
    (Evaluation.run (.tree (.number .none 5.0)) context ()).result = .ok (.number 5.0) ∧
    (Evaluation.run (.tree t) context ()).result =
      .error (.error (Cause.atSite (.undefinedVariable "y") (context.siteOf .none))) :=
  ⟨optimize_unread, rfl, rfl⟩

/-- A reading of an unknown name into a variable that is never read is what the simplified program
is spared. -/
theorem run_of_simplified_unread :
    let context : Context Unit := ⟨fun _ => none, [], .standard, none⟩
    let t : Expr := .program .none [.assign .none "x" (.identifier .none "y"), .number .none 5.0]
    optimize t none [] = .ok (.number .none 5.0) [.deadAssignmentEliminated "x"] ∧
      t.ProgramsAtRoot ∧
    ∃ s failure, Evaluator.begin context () = .ok s ∧
      Spared context s t (.number .none 5.0) failure := by
  intro context t
  have hprograms : t.ProgramsAtRoot := by
    intro part hpart
    rcases List.mem_pair.mp hpart with rfl | rfl
    · simp [Everywhere, nodes_eq, children]
    · simp [Everywhere, nodes_eq, children]
  have hfails : (Evaluation.run (.tree t) context ()).result =
      .error (.error (Cause.atSite (.undefinedVariable "y") (context.siteOf .none))) := rfl
  have hlimits : ∀ failure, (Evaluation.run (.tree t) context ()).result = .error failure →
      ¬ context.limits.Stops failure := by
    rintro failure hfailure ⟨kind, amount, -, rfl⟩
    rw [hfails] at hfailure
    cases hfailure
  refine ⟨optimize_unread, hprograms, ?_⟩
  rcases run_of_simplified context () optimize_unread hprograms rfl hlimits with hok |
    ⟨s, failure, hs, -, hspared⟩
  · cases hok
  · exact ⟨s, failure, hs, hspared⟩

end Example

end Expr

end Formulary
