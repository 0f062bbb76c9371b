import Formulary.Proofs.Optimizing
import Formulary.Proofs.Snapshot

/-!
# A literal in the place of a name

Where looking up a name gives the value of a literal, the literal can take the place of the name:
reading the name and reading the literal come to the same, in every state that evaluation comes to,
because nothing assigns the name (`Expr.eval_substituted`).  A comprehension that binds the name
itself hides it in its guard and its body, where it stays, but not in what it runs over.  Afterwards
the name is read at no other place (`Expr.ReadsFree`), so that the walk has left no reading out.
-/

set_option autoImplicit false

namespace Formulary.Expr

variable {σ : Type}

/-! ## Readings of a name -/

/-- A tree reads a name outside of the comprehensions that bind it. -/
inductive ReadsFree (name : String) : Expr → Prop
  | identifier (span : Span) : ReadsFree name (.identifier span name)
  | part {e part : Expr} :
      e.binder? = none → part ∈ e.children → ReadsFree name part → ReadsFree name e
  | iterable {span : Span} {binder : String} {i b : Expr} {guard : Option Expr} :
      ReadsFree name i → ReadsFree name (.comprehension span binder i guard b)
  | inside {span : Span} {binder : String} {i b part : Expr} {guard : Option Expr} :
      binder ≠ name → part ∈ guard.toList ++ [b] → ReadsFree name part →
      ReadsFree name (.comprehension span binder i guard b)

section Readings

variable {name : String}

/-- A literal reads no name. -/
theorem not_reads_of_isLiteral {e : Expr} (h : e.isLiteral = true) : ¬ e.ReadsFree name := by
  intro hreads
  cases hreads with
  | part _ hpart _ =>
    cases e with
    | number | string | boolean => cases hpart
    | _ => cases h
  | _ => cases h

/-- A node that binds nothing and is no reading itself does not read a name that its parts do not
read. -/
theorem not_reads_of_parts {e : Expr} (hbinder : e.binder? = none)
    (hname : e.reference? ≠ some name) (h : ∀ part ∈ e.children, ¬ part.ReadsFree name) :
    ¬ e.ReadsFree name := by
  intro hreads
  cases hreads with
  | identifier => exact hname rfl
  | part _ hpart hreads => exact h _ hpart hreads
  | iterable | inside => cases hbinder

/-- A comprehension does not read a name if its iterable does not, nor its guard and its body unless
it binds the name. -/
theorem not_reads_comprehension {span : Span} {binder : String} {i b : Expr} {guard : Option Expr}
    (hi : ¬ i.ReadsFree name) (h : binder ≠ name → ∀ part ∈ guard.toList ++ [b],
      ¬ part.ReadsFree name) :
    ¬ (Expr.comprehension span binder i guard b).ReadsFree name := by
  intro hreads
  cases hreads with
  | part hbinder => cases hbinder
  | iterable hreads => exact hi hreads
  | inside hne hpart hreads => exact h hne _ hpart hreads

/-- With a literal in its place a name is not read any more. -/
theorem not_reads_substitute {literal : Expr} (hliteral : literal.isLiteral = true) (e : Expr) :
    ¬ (substitute name literal e).ReadsFree name := by
  have hlist : ∀ {es : List Expr}, (∀ e ∈ es, ¬ (substitute name literal e).ReadsFree name) →
      ∀ part ∈ substituteAll name literal es, ¬ part.ReadsFree name := by
    intro es hes
    rw [substituteAll_eq_map]
    exact List.forall_mem_map.mpr hes
  induction e using byParts with
  | number | string | boolean => exact not_reads_of_isLiteral rfl
  | foreign item =>
    exact not_reads_of_parts rfl (by simp [substitute, reference?]) (by simp [substitute, children])
  | identifier span other =>
    rw [substitute]
    by_cases hname : other = name
    · rw [if_pos hname]
      exact not_reads_of_isLiteral hliteral
    · rw [if_neg hname]
      exact not_reads_of_parts rfl (by simpa [reference?] using hname) (by simp [children])
  | program span es ih | array span es ih | call span f es ih =>
    rw [substitute]
    exact not_reads_of_parts rfl (by simp [reference?]) (hlist ih)
  | assign span target e ih | unary span operator e ih =>
    rw [substitute]
    exact not_reads_of_parts rfl (by simp [reference?]) (by simp [children, ih])
  | binary span operator x y hx hy | index span x y hx hy | range span x y inclusive hx hy =>
    rw [substitute]
    exact not_reads_of_parts rfl (by simp [reference?]) (by simp [children, hx, hy])
  | conditional span c x y hc hx hy =>
    rw [substitute]
    exact not_reads_of_parts rfl (by simp [reference?]) (by simp [children, hc, hx, hy])
  | comprehension span binder i guard b hi hg hb =>
    -- Where the binder is the name itself, the body is left as it is and reads the binder, not the
    -- name.
    cases guard with
    | none =>
      rw [substitute]
      split
      · rename_i hbinder
        exact not_reads_comprehension hi fun hne => absurd hbinder hne
      · exact not_reads_comprehension hi fun _ => by simp [hb]
    | some g =>
      rw [substitute]
      split
      · rename_i hbinder
        exact not_reads_comprehension hi fun hne => absurd hbinder hne
      · exact not_reads_comprehension hi fun _ => by simp [hb, hg g rfl]

end Readings

/-! ## The walk of a substitution -/

/-- A substitution walks over a tree in which nothing foreign stands. -/
theorem substitutionDefect?_eq_none (name : String) {e : Expr} (he : e.Proper) :
    substitutionDefect? name e = none := by
  have hlist : ∀ es : List Expr, (∀ e ∈ es, substitutionDefect? name e = none) →
      substitutionDefects? name es = none := by
    intro es hes
    induction es with
    | nil => rfl
    | cons e es ih =>
      rw [substitutionDefects?, hes e List.mem_cons_self]
      exact ih fun e he => hes e (List.mem_cons_of_mem _ he)
  induction e using byParts with
  | number | string | boolean | identifier => rfl
  | foreign item => exact absurd rfl (he.root item)
  | program span es ih | array span es ih | call span f es ih =>
    rw [substitutionDefect?]
    exact hlist es fun e hmem => ih e hmem (he.part hmem)
  | assign span target e ih | unary span operator e ih =>
    rw [substitutionDefect?]
    exact ih (he.part (by simp [children]))
  | binary span operator x y hx hy | index span x y hx hy | range span x y inclusive hx hy =>
    rw [substitutionDefect?, hx (he.part (by simp [children])), hy (he.part (by simp [children]))]
    rfl
  | conditional span c x y hc hx hy =>
    rw [substitutionDefect?, hc (he.part (by simp [children])), hx (he.part (by simp [children])),
      hy (he.part (by simp [children]))]
    rfl
  | comprehension span binder i guard b hi hg hb =>
    have hiterable := hi (he.part (by simp [children]))
    have hbody := hb (he.part (by simp [children]))
    cases guard with
    | none =>
      rw [substitutionDefect?, hiterable, hbody, ite_self]
      rfl
    | some g =>
      have hguard := hg g rfl (he.part (by simp [children]))
      rw [substitutionDefect?, hiterable, hbody, hguard, Option.orElse_none,
        Option.orElse_none, ite_self]

/-- A name is among the targets of a tree if and only if it is among its assigned names. -/
theorem target_mem_features_iff (e : Expr) (name : String) :
    .target name ∈ e.features ↔ name ∈ e.assignedNames := by
  rw [mem_assignedNames_iff, features, List.mem_filterMap]
  constructor
  · rintro ⟨node, hnode, hfeature⟩
    cases node with
    | assign span other value =>
      obtain rfl := Feature.target.inj (Option.some.inj hfeature)
      exact ⟨span, value, hnode⟩
    | _ => cases hfeature
  · rintro ⟨span, value, hnode⟩
    exact ⟨_, hnode, rfl⟩

/-! ## Evaluation -/

/-- Results that match in equal states are the same outcome. -/
theorem SameOutcome.of_matched {R : State σ → State σ → Prop} (hR : ∀ s t, R s t → s = t)
    {x y : EStateM.Result Failure (State σ) Value} (h : Run.Matched True R x y) :
    SameOutcome x y := by
  cases x <;> cases y
  · exact ⟨h.1, hR _ _ h.2⟩
  · exact h.elim
  · exact h trivial
  · exact ⟨(h trivial).1, hR _ _ (h trivial).2⟩

/-- Substitution agrees with lookup.  In a tree in which nothing foreign stands, a literal can be
put in the place of a name, which is not read any more then, except in comprehensions that bind it.
If no node of the tree assigns the name and the name has the value of the literal in the current
scope, then evaluating the tree with the literal and evaluating the tree come to the same: the same
value, or failures that differ at most in their positions, with the same calls, the same state of
the host and the same bindings in every scope. -/
theorem eval_substituted (context : Context σ) {e literal : Expr} {name : String} {v : Value}
    (he : e.Proper) (hfree : name ∉ e.assignedNames) (hliteral : literal.literal? = some v)
    {s : State σ} (hknown : s.scope.lookup? name = some v) :
    ∃ e', e.substituted name literal = .ok e' ∧ ¬ e'.ReadsFree name ∧
      SameOutcome (e.eval context s) (e'.eval context s) := by
  refine ⟨substitute name literal e, ?_,
    not_reads_substitute (isLiteral_of_literal? hliteral) e, ?_⟩
  · rw [substituted, substitutionDefect?_eq_none name he]
  · have htarget : .target name ∉ e.features :=
      fun h => hfree ((target_mem_features_iff e name).mp h)
    have hsimulates : Simulates context True (Knows name v) e (substitute name literal e) :=
      substitute_simulates hliteral htarget
    exact .of_matched (fun _ _ h => h.1) (hsimulates s s ⟨rfl, hknown⟩)

/-- A comprehension that runs over the string of its own variable, inside of another scope: the
second call of the function fails, so that both evaluations end in the same failure, after the same
two calls. -/
theorem eval_substituted_of_shadowing :
    let e : Expr := .comprehension .none "x" (.identifier .none "x")
      (some (.binary .none .notEqual (.identifier .none "x") (.string .none "b")))
      (.call .none "f" [.identifier .none "x"])
    let e' : Expr := .comprehension .none "x" (.string ⟨4, 9⟩ "abc")
      (some (.binary .none .notEqual (.identifier .none "x") (.string .none "b")))
      (.call .none "f" [.identifier .none "x"])
    let context : Context Nat := ⟨fun _ => some (.function fun args count =>
      (if count = 1 then .failed "stop" else .returned (.list args), count + 1)), [],
        .standard, none⟩
    let s : State Nat := ⟨⟨[⟨[("x", .string "abc")]⟩], ⟨[("x", .boolean true)]⟩⟩, 0, [], []⟩
    e.Proper ∧ "x" ∉ e.assignedNames ∧ s.scope.lookup? "x" = some (.string "abc") ∧
    e.substituted "x" (.string ⟨4, 9⟩ "abc") = .ok e' ∧ ¬ e'.ReadsFree "x" ∧
    (Evaluation.continueWith context e s).1 =
      .error (.error ⟨.functionFailed "f" "stop", context.siteOf .none⟩) ∧
    SameOutcome (e.eval context s) (e'.eval context s) := by
  intro e e' context s
  have hproper : e.Proper := by
    simp [e, Expr.Proper, Everywhere, nodes_eq, children]
  have hfree : "x" ∉ e.assignedNames := by decide +kernel
  obtain ⟨_, hsubstituted, hreads, hsame⟩ :=
    @eval_substituted Nat context e (.string ⟨4, 9⟩ "abc") "x" _ hproper hfree rfl s rfl
  obtain rfl := Except.ok.inj hsubstituted
  exact ⟨hproper, hfree, rfl, hsubstituted, hreads, rfl, hsame⟩

end Formulary.Expr
