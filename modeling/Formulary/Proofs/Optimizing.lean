import Formulary.Proofs.Scoping
import Formulary.Simplification.Optimizer

/-!
# Simplifying a formula keeps its successful evaluations

Each of the three steps is compared with the program it was given.  Folding and propagating literals
end in the very state of the program; propagation may rely on it that a propagated name is assigned
once, because neither step adds an assignment.  Dropping dead assignments ends in a state that
agrees with it on what the kept statements read (`evalLast_dropDead`).  For the entry points this
means that the simplified formula returns the same value and calls the same functions with the same
arguments.
-/

set_option autoImplicit false

namespace Formulary.Expr

open Run

variable {σ : Type} {context : Context σ}

/-! ## Propagating literals -/

/-- To propagate a literal is to put it in its place everywhere and then to fold. -/
theorem propagateInto_eq (name : String) (literal : Expr) (es : List Expr) :
    propagateInto name literal es = foldAll (es.map (substitute name literal)) := by
  induction es with
  | nil => rw [propagateInto, List.map_nil, foldAll]
  | cons e es ih => rw [propagateInto, ih, List.map_cons, foldAll]

/-- Putting a literal into statements folds each of them with the literal in the place of the
name. -/
theorem propagateInto_folds {name : String} {literal : Expr} {es fs : List Expr}
    {log after : List Event} (h : propagateInto name literal es log = .ok fs after) :
    List.Forall₂ (fun e f => Folds (substitute name literal e) f) es fs := by
  rw [propagateInto_eq] at h
  exact List.forall₂_map_left_iff.mp (folds_all h)

/-- What can be propagated is an assignment of a literal to an allowed name. -/
theorem propagatable?_eq_some {allowed : String → Bool} {e literal : Expr} {name : String}
    (h : propagatable? allowed e = some (name, literal)) :
    ∃ span, e = .assign span name literal ∧ literal.isLiteral = true ∧ allowed name = true := by
  cases e with
  | assign span name' value =>
    rw [propagatable?] at h
    split at h
    · rename_i hcondition
      rw [Bool.and_eq_true] at hcondition
      cases h
      exact ⟨span, rfl, hcondition⟩
    · cases h
  | _ => cases h

/-- What one step of propagation does to the statements behind it. -/
theorem propagateFrom_cons {allowed : String → Bool} {count : Nat} {e : Expr} {es fs : List Expr}
    {log after : List Event} (h : propagateFrom allowed (count + 1) (e :: es) log = .ok fs after) :
    ∃ later rest mid, propagateFrom allowed count later mid = .ok rest after ∧ fs = e :: rest ∧
      (later = es ∨ ∃ span name literal, e = .assign span name literal ∧ literal.isLiteral = true ∧
        allowed name = true ∧
        List.Forall₂ (fun e f => Folds (substitute name literal e) f) es later) := by
  unfold propagateFrom at h
  cases hliteral : propagatable? allowed e with
  | none =>
    rw [hliteral] at h
    obtain ⟨later, mid, hlater, h⟩ := bind_eq_ok h
    cases hlater
    obtain ⟨rest, mid', hrest, h⟩ := bind_eq_ok h
    cases h
    exact ⟨es, rest, _, hrest, rfl, .inl rfl⟩
  | some found =>
    obtain ⟨name, literal⟩ := found
    obtain ⟨span, rfl, hvalue, hallowed⟩ := propagatable?_eq_some hliteral
    rw [hliteral] at h
    obtain ⟨_, mid, -, h⟩ := bind_eq_ok h
    obtain ⟨later, mid', hlater, h⟩ := bind_eq_ok h
    obtain ⟨rest, mid'', hrest, h⟩ := bind_eq_ok h
    cases h
    exact ⟨later, rest, mid', hrest, rfl,
      .inr ⟨span, name, literal, rfl, hvalue, hallowed, propagateInto_folds hlater⟩⟩

/-- An assignment of a literal binds its name to the literal's value, and nothing else happens. -/
theorem eval_assign_literal {span : Span} {name : String} {literal : Expr} {v : Value}
    (hname : name ∉ context.external) (hliteral : literal.literal? = some v) (s : State σ) :
    (Expr.assign span name literal).eval context s =
      .ok v { s with scope := s.scope.bind name v } := by
  have hcontains : ¬ context.external.contains name = true :=
    fun h => hname (List.contains_iff_mem.mp h)
  rw [eval, if_neg hcontains, eval_literal hliteral]
  rfl

/-- The only feature of an assignment of a literal is its target. -/
theorem features_assign (span : Span) (name : String) {literal : Expr}
    (h : literal.isLiteral = true) :
    (Expr.assign span name literal).features = [.target name] := by
  rw [features_eq]
  simp [feature?, children, features_literal h]

/-- Behind the only assignment of a name nothing assigns it. -/
theorem free_of_once {span : Span} {name : String} {literal : Expr}
    (hliteral : literal.isLiteral = true) {es : List Expr}
    (honce : ((Expr.assign span name literal :: es).flatMap features).count (.target name) ≤ 1) :
    ∀ e ∈ es, .target name ∉ e.features := by
  intro e he hmem
  have hmem' : .target name ∈ es.flatMap features := List.mem_flatMap.mpr ⟨e, he, hmem⟩
  rw [List.flatMap_cons, features_assign span name hliteral, List.singleton_append,
    List.count_cons_self] at honce
  have hpositive := List.count_pos_iff.mpr hmem'
  omega

/-- Behind the assignment of a literal, the statements into which it is put do what they did. -/
theorem evalLast_propagateInto {name : String} {literal : Expr} {v : Value}
    (hliteral : literal.literal? = some v) {es fs : List Expr}
    (hfolds : List.Forall₂ (fun e f => Folds (substitute name literal e) f) es fs)
    (hfree : ∀ e ∈ es, .target name ∉ e.features) {result w : Value} {s s' : State σ}
    (hknown : s.scope.lookup? name = some v) (hrun : evalLast context result es s = .ok w s') :
    evalLast context result fs s = .ok w s' := by
  have hsimulates : List.Forall₂ (Simulates context False (Knows name v)) es fs := by
    refine forall₂_of_parts hfolds fun e he f hf => ?_
    exact Tracks.trans (substitute_simulates hliteral (hfree e he)) (fold_simulates hf False.elim)
  obtain ⟨t', hrun', rfl, -⟩ := (Simulates.evalLast hsimulates result).ok ⟨rfl, hknown⟩ hrun
  exact hrun'

/-- Putting a literal into statements adds no features to them. -/
theorem features_propagateInto {name : String} {literal : Expr}
    (hliteral : literal.isLiteral = true) {es fs : List Expr}
    (hfolds : List.Forall₂ (fun e f => Folds (substitute name literal e) f) es fs) :
    (fs.flatMap features).Sublist (es.flatMap features) := by
  refine sublist_flatMap_features (forall₂_of_parts hfolds fun e _ f hf => ?_)
  rw [← features_substitute hliteral e]
  exact features_fold hf

/-- Propagation keeps the evaluation of statements, if the host supplies no propagated name and no
such name is assigned twice. -/
theorem evalLast_propagateFrom {allowed : String → Bool}
    (hallowed : ∀ name, allowed name = true → name ∉ context.external) {count : Nat}
    {es fs : List Expr} {log after : List Event}
    (h : propagateFrom allowed count es log = .ok fs after)
    (honce : ∀ name, allowed name = true → (es.flatMap features).count (.target name) ≤ 1)
    {result w : Value} {s s' : State σ} (hrun : evalLast context result es s = .ok w s') :
    evalLast context result fs s = .ok w s' := by
  induction count generalizing es fs log result s with
  | zero =>
    cases h
    exact hrun
  | succ count ih =>
    cases es with
    | nil =>
      cases h
      exact hrun
    | cons e es =>
      obtain ⟨later, rest, mid, hrest, rfl, hlater⟩ := propagateFrom_cons h
      rw [evalLast] at hrun
      obtain ⟨x, s₁, hx, hrun⟩ := bind_eq_ok hrun
      -- The statements behind this one do the same, and assign no name more often than before.
      have hbehind : evalLast context x later s₁ = .ok w s' ∧
          (later.flatMap features).Sublist (es.flatMap features) := by
        rcases hlater with rfl | ⟨span, name, literal, rfl, hvalue, hname, hfolds⟩
        · exact ⟨hrun, .refl _⟩
        · obtain ⟨v, hliteral⟩ := exists_literal? hvalue
          rw [eval_assign_literal (hallowed name hname) hliteral] at hx
          obtain ⟨rfl, rfl⟩ := EStateM.Result.ok.inj hx
          refine ⟨evalLast_propagateInto hliteral hfolds ?_ ?_ hrun,
            features_propagateInto hvalue hfolds⟩
          · exact free_of_once hvalue (honce name hname)
          · rw [Scope.lookup?_bind, if_pos rfl]
      rw [evalLast, bind_of_ok hx]
      refine ih hrest (fun name hname => ?_) hbehind.1
      have hcount := honce name hname
      rw [List.flatMap_cons, List.count_append] at hcount
      exact Nat.le_trans (hbehind.2.count_le _) (by omega)

/-- A name is assigned as often as it is among the targets of the statements. -/
theorem count_targets (es : List Expr) (name : String) :
    assignmentCount es name = (es.flatMap features).count (.target name) := by
  have hnodes : ∀ nodes : List Expr,
      (nodes.filterMap target?).count name = (nodes.filterMap feature?).count (.target name) := by
    intro nodes
    induction nodes with
    | nil => rfl
    | cons node nodes ih =>
      cases node <;> simp [List.filterMap_cons, target?, feature?, List.count_cons, ih]
  unfold assignmentCount
  induction es with
  | nil => rfl
  | cons e es ih =>
    rw [List.flatMap_cons, List.flatMap_cons, List.count_append, List.count_append, ih,
      hnodes, features]

/-- If statements have a result, they have the same one, in the same state, after propagation. -/
theorem evalLast_propagate {names : List String} (hnames : ∀ name ∈ context.external, name ∈ names)
    {es fs : List Expr} {log after : List Event} (h : propagate names es log = .ok fs after)
    {result w : Value} {s s' : State σ} (hrun : evalLast context result es s = .ok w s') :
    evalLast context result fs s = .ok w s' := by
  refine evalLast_propagateFrom ?_ h ?_ hrun
  · intro name hname hexternal
    simp only [Bool.and_eq_true, Bool.not_eq_true', beq_iff_eq] at hname
    have hmem := List.contains_iff_mem.mpr (hnames name hexternal)
    rw [hname.1.2] at hmem
    cases hmem
  · intro name hname
    simp only [Bool.and_eq_true, beq_iff_eq] at hname
    exact Nat.le_of_eq (count_targets es name ▸ hname.1.1)

/-! ## Dropping dead assignments -/

/-- A dead statement is an assignment without effects to a name that is not live. -/
theorem dead?_eq_some {live : List String} {e : Expr} {name : String}
    (h : dead? live e = some name) :
    ∃ span value, e = .assign span name value ∧ name ∉ live ∧ value.hasEffects = false := by
  cases e with
  | assign span name' value =>
    rw [dead?] at h
    split at h
    · rename_i hcondition
      cases h
      simp only [Bool.and_eq_true, Bool.not_eq_true', List.contains_eq_mem,
        decide_eq_false_iff_not] at hcondition
      exact ⟨span, value, rfl, hcondition⟩
    · cases h
  | _ => cases h

section Equations

variable {e e' : Expr} {es kept : List Expr} {live : List String} {log mid : List Event}
  (hrest : dropDead (e' :: es) log = .ok (kept, live) mid)
include hrest

/-- A dead statement in front of others is left out, and an event says so. -/
theorem dropDead_of_dead {name : String} (h : dead? live e = some name) :
    dropDead (e :: e' :: es) log = .ok (kept, live) (.deadAssignmentEliminated name :: mid) := by
  rw [dropDead]
  · rw [bind_of_ok hrest]
    simp only [h]
    rfl
  · simp

/-- A live statement in front of others is kept, and the names that it reads become live. -/
theorem dropDead_of_live (h : dead? live e = none) :
    dropDead (e :: e' :: es) log = .ok (e :: kept, e.references ++ live) mid := by
  rw [dropDead]
  · rw [bind_of_ok hrest]
    simp only [h]
    rfl
  · simp

end Equations

/-- A statement in front of others is kept if it is not dead, and what it reads becomes live; or it
is an assignment without effects to a name that is not live. -/
theorem dropDead_cons {e e' : Expr} {es kept : List Expr} {live : List String}
    {log after : List Event} (h : dropDead (e :: e' :: es) log = .ok (kept, live) after) :
    ∃ kept' live' mid, dropDead (e' :: es) log = .ok (kept', live') mid ∧
      ((kept = e :: kept' ∧ live = e.references ++ live' ∧ dead? live' e = none) ∨
        (kept = kept' ∧ live = live' ∧ ∃ span name value, e = .assign span name value ∧
          name ∉ live' ∧ value.hasEffects = false)) := by
  rw [dropDead] at h
  · obtain ⟨⟨kept', live'⟩, mid, hrest, h⟩ := bind_eq_ok h
    refine ⟨kept', live', mid, hrest, ?_⟩
    cases hdead : dead? live' e with
    | none =>
      simp only [hdead] at h
      cases h
      exact .inl ⟨rfl, rfl, rfl⟩
    | some name =>
      simp only [hdead] at h
      obtain ⟨_, mid', -, h⟩ := bind_eq_ok h
      cases h
      obtain ⟨span, value, he, hlive, heffects⟩ := dead?_eq_some hdead
      exact .inr ⟨rfl, rfl, span, name, value, he, hlive, heffects⟩
  · simp

/-- A binding of one state only makes no difference to names that are not its own. -/
theorem Agree.bind_left {names : List String} {name : String} (hname : name ∉ names) {v : Value}
    {s t : State σ} (hst : Agree context names s t)
    (hv : name ∈ context.external → v = (s.scope.root.find? name).getD .null) :
    Agree context names { s with scope := s.scope.bind name v } t where
  host := hst.host
  calls := hst.calls
  lookup := by
    intro other hother
    rw [Scope.lookup?_bind, if_neg, hst.lookup other hother]
    rintro rfl
    exact hname hother
  root := by
    intro other hother
    rw [← hst.root other hother, Scope.root_bind]
    split
    · rename_i hroot
      obtain ⟨-, rfl⟩ := hroot
      exact hv hother
    · rfl
  level := by
    rw [Scope.length_inner_bind, hst.level]

/-- After a dead assignment has been evaluated, the states still agree on the live names. -/
theorem Agree.after_dead {names : List String} {span : Span} {name : String} {value : Expr}
    (hname : name ∉ names) (heffects : value.hasEffects = false) {s t s' : State σ} {w : Value}
    (hst : Agree context names s t)
    (hrun : (Expr.assign span name value).eval context s = .ok w s') :
    Agree context names s' t := by
  rw [Expr.eval] at hrun
  by_cases hexternal : context.external.contains name = true
  · -- The host's value is bound to a name that has it already.
    rw [if_pos hexternal] at hrun
    cases hrun
    have hbound := hst.bind_left hname fun _ => rfl
    exact { hbound with }
  · rw [if_neg hexternal] at hrun
    obtain ⟨v, s₁, hvalue, hbind⟩ := bind_eq_ok hrun
    obtain rfl := eval_still heffects hvalue
    cases hbind
    exact hst.bind_left hname fun h => absurd (List.contains_iff_mem.mpr h) hexternal

/-- The statements that are kept return what all of them return, from a state that agrees with
theirs on the names that are live, and with the same calls. -/
theorem evalLast_dropDead {es kept : List Expr} {live : List String} {log after : List Event}
    (h : dropDead es log = .ok (kept, live) after) (hne : es ≠ []) {result result' w : Value}
    {s t s' : State σ} (hst : Agree context live s t)
    (hrun : evalLast context result es s = .ok w s') :
    ∃ t', evalLast context result' kept t = .ok w t' ∧ s'.host = t'.host ∧ s'.calls = t'.calls := by
  induction es generalizing kept live log after result result' s t with
  | nil => exact absurd rfl hne
  | cons e es ih =>
    rw [evalLast] at hrun
    obtain ⟨x, s₁, hx, hbehind⟩ := bind_eq_ok hrun
    cases es with
    | nil =>
      cases h
      obtain ⟨t', ht', hagree⟩ := hst.eval (fun _ hname => hname) hx
      cases hbehind
      refine ⟨t', ?_, hagree.host, hagree.calls⟩
      rw [evalLast, bind_of_ok ht']
      rfl
    | cons e' es =>
      obtain ⟨kept', live', mid, hrest, hcases⟩ := dropDead_cons h
      rcases hcases with ⟨rfl, rfl, -⟩ | ⟨rfl, rfl, span, name, value, rfl, hname, heffects⟩
      · have hreads : ∀ name ∈ e.references, name ∈ e.references ++ live' :=
          fun _ hname => List.mem_append_left _ hname
        obtain ⟨t₁, ht₁, hagree⟩ := hst.eval hreads hx
        have hlive := hagree.mono fun name hname => List.mem_append_right e.references hname
        obtain ⟨t', hrun', hhost, hcalls⟩ := ih hrest (by simp) hlive hbehind
        refine ⟨t', ?_, hhost, hcalls⟩
        rw [evalLast, bind_of_ok ht₁]
        exact hrun'
      · exact ih hrest (by simp) (hst.after_dead hname heffects hx) hbehind

/-! ## All three steps -/

/-- What a tree is simplified to without names: its folded form, or, if that is a program, what is
left of its statements. -/
theorem optimize_none_cases {e o : Expr} {log after : List Event}
    (h : optimize e none log = .ok o after) :
    ∃ folded, Folds e folded ∧ (((∀ span es, folded ≠ .program span es) ∧ o = folded) ∨
      ∃ span es kept live mid mid', folded = .program span es ∧ o = ofStatements span kept ∧
        dropDead es mid = .ok (kept, live) mid') := by
  obtain ⟨folded, mid, hfold, h⟩ := bind_eq_ok h
  refine ⟨folded, ⟨log, mid, hfold⟩, ?_⟩
  cases folded with
  | program span es =>
    obtain ⟨propagated, mid', hpropagated, h⟩ := bind_eq_ok h
    cases hpropagated
    obtain ⟨⟨kept, live⟩, mid'', hkept, h⟩ := bind_eq_ok h
    cases h
    exact .inr ⟨span, es, kept, live, mid, _, rfl, rfl, hkept⟩
  | _ =>
    cases h
    exact .inl ⟨by simp, rfl⟩

/-- With names, literals are propagated before statements are left out. -/
theorem optimize_cases {e o : Expr} {external : Option (List String)} {log after : List Event}
    (h : optimize e external log = .ok o after) :
    ∃ folded, Folds e folded ∧ (o = folded ∨ ∃ span es propagated kept live mid mid' mid'',
      folded = .program span es ∧ o = ofStatements span kept ∧
      (propagated = es ∨ ∃ names, external = some names ∧ propagate names es mid =
        .ok propagated mid') ∧
      dropDead propagated mid' = .ok (kept, live) mid'') := by
  cases external with
  | none =>
    obtain ⟨folded, hfolds, ⟨-, rfl⟩ | ⟨span, es, kept, live, mid, mid', rfl, rfl, hkept⟩⟩ :=
      optimize_none_cases h
    · exact ⟨_, hfolds, .inl rfl⟩
    · exact ⟨_, hfolds, .inr ⟨span, es, es, kept, live, mid, mid, mid', rfl, rfl, .inl rfl, hkept⟩⟩
  | some names =>
    obtain ⟨folded, mid, hfold, h⟩ := bind_eq_ok h
    refine ⟨folded, ⟨log, mid, hfold⟩, ?_⟩
    cases folded with
    | program span es =>
      obtain ⟨propagated, mid', hpropagated, h⟩ := bind_eq_ok h
      obtain ⟨⟨kept, live⟩, mid'', hkept, h⟩ := bind_eq_ok h
      cases h
      exact .inr ⟨span, es, propagated, kept, live, mid, mid', _, rfl, rfl,
        .inr ⟨names, rfl, hpropagated⟩, hkept⟩
    | _ =>
      cases h
      exact .inl rfl

/-- The tree of several statements is evaluated as the statements one after the other. -/
theorem eval_ofStatements (span : Span) (es : List Expr) :
    (ofStatements span es).eval context = evalLast context (.number 0.0) es := by
  match es with
  | [] => rw [ofStatements, eval]; simp
  | [e] =>
    rw [ofStatements, evalLast]
    exact (bind_pure _).symm
  | e :: e' :: es => rw [ofStatements, eval]; simp

/-- A simplified tree returns what the tree returns, with the same calls. -/
theorem eval_optimize {e o : Expr} {external : Option (List String)} {log after : List Event}
    (h : optimize e external log = .ok o after)
    (hnames : ∀ names, external = some names → ∀ name ∈ context.external, name ∈ names)
    {s s' : State σ} {v : Value} (hrun : e.eval context s = .ok v s') :
    ∃ t', o.eval context s = .ok v t' ∧ s'.host = t'.host ∧ s'.calls = t'.calls := by
  obtain ⟨folded, hfolds, hcases⟩ := optimize_cases h
  have hsimulates : Simulates context False Eq e folded := fold_simulates hfolds False.elim
  obtain ⟨_, hfolded, rfl⟩ := hsimulates.ok rfl hrun
  rcases hcases with rfl | ⟨span, es, propagated, kept, live, mid, mid', mid'', rfl, rfl,
      hpropagated, hkept⟩
  · exact ⟨s', hfolded, rfl, rfl⟩
  · rw [eval] at hfolded
    have hstatements : evalLast context (.number 0.0) propagated s = .ok v s' := by
      rcases hpropagated with rfl | ⟨names, hexternal, hpropagated⟩
      · exact hfolded
      · exact evalLast_propagate (hnames names hexternal) hpropagated hfolded
    rw [eval_ofStatements]
    by_cases hne : propagated = []
    · subst hne
      cases hkept
      exact ⟨s', hstatements, rfl, rfl⟩
    · exact evalLast_dropDead hkept hne (.refl s) hstatements

/-- Simplifying a formula keeps its successful evaluations.  If a tree is simplified, with the names
that the host may supply or without them, and evaluating the tree returns a value, then evaluating
the simplified tree in the same context returns the same value, with the same calls in the same
order, and leaves the host in the same state. -/
theorem run_optimize (context : Context σ) (host : σ) {e o : Expr} {external : Option (List String)}
    {log after : List Event} (hoptimize : optimize e external log = .ok o after)
    (hnames : ∀ names, external = some names → ∀ name ∈ context.external, name ∈ names) {v : Value}
    (hrun : (Evaluation.run (.tree e) context host).result = .ok v) :
    (Evaluation.run (.tree o) context host).result = .ok v ∧
    (Evaluation.run (.tree o) context host).calls = (Evaluation.run (.tree e) context host).calls ∧
    (Evaluation.run (.tree o) context host).state.map (·.host) =
      (Evaluation.run (.tree e) context host).state.map (·.host) := by
  cases hbegin : Evaluator.begin context host with
  | error failure => simp [Evaluation.run, Evaluation.prepare, hbegin] at hrun
  | ok s =>
    have htree : ∀ t : Expr, Evaluation.run (.tree t) context host =
        ⟨(Evaluation.continueWith context t s).1,
          some (Evaluation.continueWith context t s).2⟩ := by
      intro t
      simp [Evaluation.run, Evaluation.prepare, hbegin]
    rw [htree] at hrun
    cases hvalue : e.eval context s with
    | error failure s' => simp [Evaluation.continueWith, hvalue] at hrun
    | ok w s' =>
      obtain rfl : w = v := by simpa [Evaluation.continueWith, hvalue] using hrun
      obtain ⟨t', hsimplified, hhost, hcalls⟩ := eval_optimize hoptimize hnames hvalue
      have hbefore : Evaluation.continueWith context e s = (.ok w, s') := by
        rw [Evaluation.continueWith, hvalue]
      have hafter : Evaluation.continueWith context o s = (.ok w, t') := by
        rw [Evaluation.continueWith, hsimplified]
      rw [htree, htree, hbefore, hafter]
      exact ⟨rfl, congrArg List.reverse hcalls.symm, congrArg some hhost.symm⟩

/-- A function is called with a constant: the constant takes the place of its name, and its
assignment is dropped. -/
theorem run_optimize_of_constant :
    optimize (.program .none [.assign .none "a" (.string .none "u"),
      .call .none "echo" [.identifier .none "a"]]) (some []) [] =
        .ok (.call .none "echo" [.string .none "u"])
          [.deadAssignmentEliminated "a", .constantPropagated "a"] ∧
    (Evaluation.run (.tree (.call .none "echo" [.string .none "u"]))
      (⟨fun _ => some (.function fun args count => (.returned (args.headD .null), count + 1)), [],
        .standard, none⟩ : Context Nat) 0).result = .ok (.string "u") := by
  have hcount : assignmentCount [.assign .none "a" (.string .none "u"),
      .call .none "echo" [.identifier .none "a"]] "a" = 1 := by
    simp [assignmentCount, nodes_eq, children, target?, List.filterMap_cons]
  have hbinders : binders [.assign .none "a" (.string .none "u"),
      .call .none "echo" [.identifier .none "a"]] = [] := by
    simp [binders, nodes_eq, children, binder?, List.filterMap_cons]
  have hpropagate : propagate [] [.assign .none "a" (.string .none "u"),
      .call .none "echo" [.identifier .none "a"]] [] =
        .ok [.assign .none "a" (.string .none "u"), .call .none "echo" [.string .none "u"]]
          [.constantPropagated "a"] := by
    rw [propagate, hbinders, List.length_cons, propagateFrom, propagatable?, hcount]
    rfl
  have hdrop :
      dropDead [.assign .none "a" (.string .none "u"), .call .none "echo" [.string .none "u"]]
      [.constantPropagated "a"] = .ok ([.call .none "echo" [.string .none "u"]], [])
        [.deadAssignmentEliminated "a", .constantPropagated "a"] := by
    have hreads : (Expr.call .none "echo" [.string .none "u"]).references = [] := by
      simp [references, nodes_eq, children, reference?, List.filterMap_cons]
    have heffects : (Expr.string .none "u").hasEffects = false := by
      simp [hasEffects, nodes_eq, children, isEffect]
    have hdead : dead? [] (.assign .none "a" (.string .none "u")) = some "a" := by
      rw [dead?, heffects]
      rfl
    have hlast : dropDead [.call .none "echo" [.string .none "u"]] [.constantPropagated "a"] =
        .ok ([.call .none "echo" [.string .none "u"]], []) [.constantPropagated "a"] := by
      rw [dropDead, hreads]
      rfl
    rw [dropDead]
    · rw [bind_of_ok hlast]
      simp only [hdead]
      rfl
    · simp
  refine ⟨?optimized, (run_optimize _ 0 ?optimized (by simp [Context.external]) ?returned).1⟩
  case optimized =>
    rw [optimize]
    show (propagate [] _ >>= fun propagated =>
      dropDead propagated >>= fun kept => pure (ofStatements _ kept.1)) [] = _
    rw [bind_of_ok hpropagate, bind_of_ok hdrop]
    rfl
  case returned => rfl

end Formulary.Expr
