import Formulary.Proofs.Assigned
import Formulary.Proofs.Escape

/-!
# The variables at the end of an evaluation

A host may ask which variables a formula leaves behind, and which names a formula assigns, without
evaluating it.  The assigned names are listed once each, by their first assignments in the walk over
the tree (`Expr.pairwise_assignedNames`).  Whatever an evaluation binds at the top is a variable of
the host or one of these names; and an evaluation that succeeds has bound all variables of the host
and all names that are assigned at the top (`Evaluation.names_bindings`).  Between the two bounds
lie the assignments inside of other expressions: in a branch that is not taken, under an assignment
that the host overrides, or in a comprehension, whose scope is closed.
-/

set_option autoImplicit false

namespace Formulary

variable {σ : Type}

namespace Expr

/-! ## What an evaluation binds -/

variable {context : Context σ}

/-- An assignment that succeeds has bound its name, to the value of the host or to its own. -/
theorem isSome_of_assign {span : Span} {name : String} {value : Expr} {s s' : State σ} {v : Value}
    (h : (Expr.assign span name value).eval context s = .ok v s') :
    (s'.scope.current.find? name).isSome = true := by
  have hbound : ∀ (scope : Scope) (w : Value),
      ((scope.bind name w).current.find? name).isSome = true := by
    intro scope w
    rw [Scope.current_bind, Bindings.find?_insert, if_pos rfl]
    rfl
  rw [eval] at h
  by_cases hhost : context.external.contains name = true
  · rw [if_pos hhost] at h
    cases h
    exact hbound _ _
  · rw [if_neg hhost] at h
    obtain ⟨w, s₁, -, hrest⟩ := bind_eq_ok h
    cases hrest
    exact hbound _ _

/-- Statements that succeed keep the names that are bound, and have bound those that they assign. -/
theorem evalLast_binds {es : List Expr} {result v : Value} {s s' : State σ}
    (h : evalLast context result es s = .ok v s') :
    (∀ name, (s.scope.current.find? name).isSome = true →
      (s'.scope.current.find? name).isSome = true) ∧
    ∀ span name value, .assign span name value ∈ es →
      (s'.scope.current.find? name).isSome = true := by
  induction es generalizing result s with
  | nil =>
    rw [evalLast] at h
    cases h
    exact ⟨fun _ hname => hname, fun _ _ _ hmem => by cases hmem⟩
  | cons e es ih =>
    rw [evalLast] at h
    obtain ⟨w, s₁, hfirst, hrest⟩ := bind_eq_ok h
    obtain ⟨hkept, hbound⟩ := ih hrest
    have hrebound := eval_rebinds context e s
    unfold Evaluation.continueWith at hrebound
    rw [hfirst] at hrebound
    refine ⟨fun name hname => hkept name (hrebound.isSome_find? hname),
      fun span name value hmem => ?_⟩
    rcases List.mem_cons.mp hmem with rfl | hmem
    · exact hkept name (isSome_of_assign hfirst)
    · exact hbound span name value hmem

/-- After an evaluation that succeeds, the targets of its top-level assignments are bound. -/
theorem isSome_of_topLevel {e : Expr} {s s' : State σ} {v : Value} (h : e.eval context s = .ok v s')
    {span : Span} {name : String} {value : Expr} (hmem : .assign span name value ∈ e.topLevel) :
    (s'.scope.current.find? name).isSome = true := by
  cases e with
  | program _ es =>
    rw [eval] at h
    exact (evalLast_binds h).2 span name value hmem
  | assign =>
    cases List.mem_singleton.mp hmem
    exact isSome_of_assign h
  | _ => cases List.mem_singleton.mp hmem

/-- A tree in which nothing foreign stands has a list of assigned names. -/
theorem assigned_of_proper {e : Expr} (h : e.Proper) : e.assigned = .ok e.assignedNames := by
  rw [assigned_eq, defect?_eq_none h]

/-- The names that a tree binds in its own scope are among its assigned names. -/
theorem ownTargets_subset_assignedNames (e : Expr) {name : String} (h : name ∈ e.ownTargets) :
    name ∈ e.assignedNames := by
  obtain ⟨node, hnode, htarget⟩ := List.mem_filterMap.mp h
  exact List.mem_eraseDups.mpr
    (List.mem_filterMap.mpr ⟨node, outer_subset_nodes e node hnode, htarget⟩)

end Expr

/-- Where no table encloses another, the current one is the root. -/
theorem Scope.current_eq_root {scope : Scope} (h : scope.enclosing = []) :
    scope.current = scope.root := by
  obtain ⟨inner, root⟩ := scope
  cases inner with
  | nil => rfl
  | cons table outer => exact absurd h (by simp [enclosing])

namespace Evaluation

open Formulary.Expr

/-- The names at the top after an evaluation from the start. -/
theorem names_root {context : Context σ} {host : σ} {s : State σ}
    (hbegin : Evaluator.begin context host = .ok s) (e : Expr) :
    (∀ name ∈ context.external, name ∈ (continueWith context e s).2.scope.root.names) ∧
    (∀ name ∈ (continueWith context e s).2.scope.root.names, name ∈ context.external ∨
      name ∈ e.assignedNames) ∧
    ∀ v, (continueWith context e s).1 = .ok v →
      ∀ span name value, .assign span name value ∈ e.topLevel →
      name ∈ (continueWith context e s).2.scope.root.names := by
  obtain ⟨table, htable, rfl⟩ := Evaluator.begin_eq_ok hbegin
  have hrebound := eval_rebinds context e ⟨⟨[], table⟩, host, [], []⟩
  have hnames : ∀ name,
      name ∈ (continueWith context e ⟨⟨[], table⟩, host, [], []⟩).2.scope.root.names ↔
      ((continueWith context e ⟨⟨[], table⟩, host, [], []⟩).2.scope.current.find?
        name).isSome = true := by
    intro name
    rw [Bindings.mem_names_iff, Scope.current_eq_root hrebound.enclosing_eq,
      Option.isSome_iff_exists]
  have hstart : ∀ name, name ∈ context.external ↔ (table.find? name).isSome = true := by
    intro name
    rw [← Context.mem_names_bindAll htable, Bindings.mem_names_iff, Option.isSome_iff_exists]
  refine ⟨fun name hname => ?_, fun name hname => ?_, fun v hv span name value hmem => ?_⟩
  · exact (hnames name).mpr (hrebound.isSome_find? ((hstart name).mp hname))
  · by_cases hown : name ∈ e.ownTargets
    · exact .inr (e.ownTargets_subset_assignedNames hown)
    · have hfind := (hnames name).mp hname
      rw [hrebound.find?_eq hown] at hfind
      exact .inl ((hstart name).mpr hfind)
  · rw [hnames]
    unfold continueWith at hv ⊢
    cases heval : e.eval context ⟨⟨[], table⟩, host, [], []⟩ with
    | error failure after =>
      rw [heval] at hv
      cases hv
    | ok w after => exact isSome_of_topLevel heval hmem

/-- The record of an attempt has the bindings of the evaluation. -/
theorem bindings_of_attempt {evaluation : Evaluation σ} {record : Attempt}
    (h : evaluation.attempt = .ok record) :
    record.bindings = evaluation.bindings := by
  unfold attempt at h
  cases hresult : evaluation.result with
  | ok v =>
    rw [hresult] at h
    cases h
    rfl
  | error failure =>
    rw [hresult] at h
    cases failure with
    | error e =>
      cases h
      rfl
    | fault f => cases h

/-- The list of assigned names bounds the variables at the end.  For a tree in which nothing foreign
stands this list has exactly the names that some node assigns, each once and by its first assignment
in the walk over the tree.  If the evaluation of the tree succeeds, then all variables of the host
and all names that are assigned at the top are bound at the end.  Whether it succeeds or fails,
nothing is bound but variables of the host and assigned names, and the record of an attempt has no
other names either. -/
theorem names_bindings (e : Expr) (he : e.Proper) (context : Context σ) (host : σ) :
    ∃ names, e.assigned = .ok names ∧
      (∀ name, name ∈ names ↔ ∃ span value, .assign span name value ∈ e.nodes) ∧
      (names.Pairwise fun a b => e.firstAssignment a < e.firstAssignment b) ∧
      (∀ v, (run (.tree e) context host).result = .ok v →
        (∀ name ∈ context.external, name ∈ (run (.tree e) context host).bindings.names) ∧
        ∀ span name value, .assign span name value ∈ e.topLevel →
          name ∈ (run (.tree e) context host).bindings.names) ∧
      (∀ name ∈ (run (.tree e) context host).bindings.names,
        name ∈ context.external ∨ name ∈ names) ∧
      ∀ record, (run (.tree e) context host).attempt = .ok record →
        ∀ name ∈ record.bindings.names, name ∈ context.external ∨ name ∈ names := by
  refine ⟨e.assignedNames, assigned_of_proper he, e.mem_assignedNames_iff,
    e.pairwise_assignedNames, ?_⟩
  cases hbegin : Evaluator.begin context host with
  | error fault =>
    have hrun : run (.tree e) context host = ⟨.error (.error fault), none⟩ := by
      simp [run, prepare, hbegin]
    rw [hrun]
    refine ⟨fun v hv => (by cases hv), List.forall_mem_nil _, fun record hrecord => ?_⟩
    rw [bindings_of_attempt hrecord]
    exact List.forall_mem_nil _
  | ok s =>
    obtain ⟨hexternal, hfrom, hassigned⟩ := names_root hbegin e
    rw [@run_eq _ (.tree e) context context host e s rfl hbegin]
    refine ⟨fun v hv => ⟨hexternal, hassigned v hv⟩, hfrom, fun record hrecord => ?_⟩
    rw [bindings_of_attempt hrecord]
    exact hfrom

/-- An assignment inside of another, one that the host overrides with one inside of it, one in the
body of a loop, and a branch that is not taken: of the five names that are assigned, three are bound
at the end. -/
theorem names_bindings_of_nested :
    let e : Expr := .program .none
      [.assign .none "a" (.assign .none "b" (.string .none "s")),
        .assign .none "h" (.assign .none "c" (.boolean .none true)),
        .comprehension .none "x" (.identifier .none "b") none
          (.assign .none "d" (.identifier .none "x")),
        .conditional .none (.boolean .none false) (.assign .none "b" (.boolean .none true))
          (.assign .none "a" (.identifier .none "h"))]
    let context : Context Unit := ⟨fun _ => none, [("h", .string "host")], .standard, none⟩
    e.Proper ∧ e.assigned = .ok ["a", "b", "h", "c", "d"] ∧
    (["a", "b", "h", "c", "d"].Pairwise fun a b => e.firstAssignment a < e.firstAssignment b) ∧
    (run (.tree e) context ()).bindings.names = ["h", "b", "a"] ∧
    (∀ name ∈ context.external, name ∈ (run (.tree e) context ()).bindings.names) ∧
    ∀ name ∈ (run (.tree e) context ()).bindings.names,
      name ∈ context.external ∨ name ∈ ["a", "b", "h", "c", "d"] := by
  intro e context
  have hproper : e.Proper := by
    simp [e, Expr.Proper, Everywhere, nodes_eq, children]
  have hassigned : e.assigned = .ok ["a", "b", "h", "c", "d"] := by
    rw [assigned_of_proper hproper]
    exact congrArg Except.ok (by decide +kernel)
  obtain ⟨names, hnames, -, hpairwise, hsuccess, hfrom, -⟩ := names_bindings e hproper context ()
  obtain rfl := Except.ok.inj (hassigned.symm.trans hnames)
  exact ⟨hproper, hassigned, hpairwise, rfl, (hsuccess _ rfl).1, hfrom⟩

end Evaluation

end Formulary
