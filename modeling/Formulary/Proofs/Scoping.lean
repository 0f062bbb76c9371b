import Formulary.Proofs.Folding
import Formulary.Simplification.Substitution

/-!
# What an evaluation reads and binds

Three facts about names, each for a relation of states that evaluation keeps.  Where a name is known
to have the value of a literal, the literal can take its place (`substitute_simulates`), as long as
nothing assigns the name; the tree itself changes at that name only (`substitute_byNodes`).  States
that agree on the names a tree reads evaluate it alike (`agree_simulates`), whatever else they bind.
And a tree without calls and assignments leaves the state as it was (`eval_still`).
-/

set_option autoImplicit false

namespace Formulary

namespace Expr

open Run

variable {σ : Type} {context : Context σ} {strict : Prop}

/-- The features of a part are features of the node. -/
theorem mem_features_of_part {e part : Expr} (hpart : part ∈ e.children) {feature : Feature}
    (h : feature ∈ part.features) : feature ∈ e.features := by
  rw [features_eq]
  exact List.mem_append_right _ (List.mem_flatMap.mpr ⟨part, hpart, h⟩)

/-! ## Evaluating one tree in related states -/

/-- A name is read alike where it has the same value or none. -/
theorem identifier_simulates {R : State σ → State σ → Prop} {other : String}
    (h : ∀ s t, R s t → s.scope.lookup? other = t.scope.lookup? other) (span span' : Span) :
    Simulates context strict R (.identifier span other) (.identifier span' other) := by
  intro s t hst
  rw [eval_identifier, eval_identifier, ← h s t hst]
  cases s.scope.lookup? other with
  | some w => exact ⟨rfl, hst⟩
  | none => exact fun _ => ⟨⟨rfl, rfl⟩, hst⟩

/-- Something foreign fails alike from all states. -/
theorem foreign_simulates {R : State σ → State σ → Prop} (item : Foreign) :
    Simulates context strict R (.foreign item) (.foreign item) := by
  unfold Simulates
  rw [eval]
  exact .throw (.refl _)

/-- A literal is evaluated alike from all states. -/
theorem literal_simulates {R : State σ → State σ → Prop} {e : Expr} (h : e.isLiteral = true) :
    Simulates context strict R e e := by
  obtain ⟨v, hv⟩ := exists_literal? h
  unfold Simulates
  rw [eval_literal hv]
  exact .pure v

/-- What a relation of states must do at a node for evaluation to keep it. -/
def KeptAt (context : Context σ) (R : State σ → State σ → Prop) : Expr → Prop
  | .identifier _ name => ∀ s t, R s t → s.scope.lookup? name = t.scope.lookup? name
  | .call .. => Steady R
  | .assign _ name _ => Steady R ∧
      (∀ v s t, R s t →
        R { s with scope := s.scope.bind name v } { t with scope := t.scope.bind name v }) ∧
      (name ∈ context.external → ∀ s t, R s t →
        (s.scope.root.find? name).getD .null = (t.scope.root.find? name).getD .null)
  | _ => True

/-- A relation that is kept at every node is kept by evaluation.  In a comprehension it may change
with the value that is bound, so the statement is about a family of relations. -/
theorem self_simulates {ι : Type} {R : ι → State σ → State σ → Prop}
    (hnested : ∀ i binder, ∃ inside : Value → ι, Nested (R i)
      (fun s t => ∃ v, R (inside v) s t) binder)
    {e : Expr} (h : e.Everywhere fun node => ∀ i, KeptAt context (R i) node) (i : ι) :
    Simulates context strict (R i) e e := by
  induction e using byParts generalizing i with
  | number | string | boolean => exact literal_simulates rfl
  | foreign item => exact foreign_simulates item
  | identifier span name => exact identifier_simulates (h.root i) span span
  | program span es ih =>
    exact .program (List.forall₂_same.mpr fun e he => ih e he (h.part he) i) span span
  | array span es ih =>
    exact .array (List.forall₂_same.mpr fun e he => ih e he (h.part he) i) span span
  | call span f es ih =>
    exact .call (h.root i) (List.forall₂_same.mpr fun e he => ih e he (h.part he) i) span span f
  | binary span operator l r hl hr =>
    exact (hl (h.part (by simp [children])) i).binary (hr (h.part (by simp [children])) i)
      span span operator
  | unary span operator e ih =>
    exact (ih (h.part (by simp [children])) i).unary span span operator
  | assign span name e ih =>
    obtain ⟨hsteady, hbind, hroot⟩ := h.root i
    exact .assign hsteady (ih (h.part (by simp [children])) i) hbind hroot span span
  | conditional span c x y hc hx hy =>
    exact (hc (h.part (by simp [children])) i).conditional (hx (h.part (by simp [children])) i)
      (hy (h.part (by simp [children])) i) span span
  | comprehension span binder iterable guard b hi hg hb =>
    obtain ⟨inside, hinside⟩ := hnested i binder
    have hiterable := hi (h.part (by simp [children])) i
    have hbody := Tracks.exists fun v => hb (h.part (by simp [children])) (inside v)
    cases guard with
    | none => exact .comprehension hinside hiterable hbody span span
    | some g =>
      have hguard := Tracks.exists fun v => hg g rfl (h.part (by simp [children])) (inside v)
      exact .guarded hinside hiterable hguard hbody span span
  | index span x y hx hy =>
    exact (hx (h.part (by simp [children])) i).index (hy (h.part (by simp [children])) i) span span
  | range span x y inclusive hx hy =>
    exact (hx (h.part (by simp [children])) i).range (hy (h.part (by simp [children])) i)
      span span inclusive

/-! ## Names with a known value -/

/-- Equal states in which a name has a value. -/
def Knows (name : String) (v : Value) (s t : State σ) : Prop :=
  s = t ∧ s.scope.lookup? name = some v

section Known

variable {name : String} {v : Value}

/-- Equal states in which a name has a value stay so through calls of the host. -/
theorem steady_knows : Steady (Knows name v : State σ → State σ → Prop) where
  host := by
    rintro s _ ⟨rfl, -⟩
    rfl
  called := by
    rintro s _ host call ⟨rfl, h⟩
    exact ⟨rfl, h⟩
  logged := by
    rintro s _ event ⟨rfl, h⟩
    exact ⟨rfl, h⟩

/-- A scope that binds another name does not hide the value of a name. -/
theorem nested_knows {binder : String} (hne : binder ≠ name) :
    Nested (Knows name v : State σ → State σ → Prop) (Knows name v) binder where
  enter := by
    rintro s _ w ⟨rfl, h⟩
    refine ⟨rfl, ?_⟩
    rw [Scope.lookup?_bind, if_neg (Ne.symm hne), Scope.lookup?_push, h]
  leave := by
    rintro s _ s' _ ⟨rfl, h⟩ ⟨rfl, -⟩
    exact ⟨rfl, h⟩

/-- Inside a comprehension that binds the name itself only equality of the states is left. -/
theorem nested_shadowed : Nested (Knows name v : State σ → State σ → Prop) Eq name where
  enter := by
    rintro s _ w ⟨rfl, -⟩
    rfl
  leave := by
    rintro s _ s' _ ⟨rfl, h⟩ rfl
    exact ⟨rfl, h⟩

/-- Binding another name does not change the value of a name. -/
theorem bind_knows {target : String} (hne : target ≠ name) (w : Value) (s t : State σ)
    (h : Knows name v s t) :
    Knows name v { s with scope := s.scope.bind target w }
      { t with scope := t.scope.bind target w } := by
  obtain ⟨rfl, h⟩ := h
  refine ⟨rfl, ?_⟩
  rw [Scope.lookup?_bind, if_neg (Ne.symm hne), h]

/-- A name is replaced in several trees one by one. -/
theorem substituteAll_eq_map (replacement : Expr) (es : List Expr) :
    substituteAll name replacement es = es.map (substitute name replacement) := by
  induction es with
  | nil => rfl
  | cons e es ih => rw [substituteAll, ih, List.map_cons]

/-- What relates each tree to its replacement relates the lists of them. -/
theorem forall₂_substituteAll {P : Expr → Expr → Prop} {replacement : Expr} {es : List Expr}
    (h : ∀ e ∈ es, P e (substitute name replacement e)) :
    List.Forall₂ P es (substituteAll name replacement es) := by
  rw [substituteAll_eq_map, List.forall₂_map_right_iff, List.forall₂_same]
  exact h

/-- Where a name is known to have the value of a literal and nothing assigns it, the literal can
take its place. -/
theorem substitute_simulates {replacement : Expr}
    (hliteral : replacement.literal? = some v) {e : Expr} (h : .target name ∉ e.features) :
    Simulates context strict (Knows name v) e (substitute name replacement e) := by
  have hpart : ∀ {e part : Expr}, .target name ∉ e.features → part ∈ e.children →
      .target name ∉ part.features := fun h hpart hmem => h (mem_features_of_part hpart hmem)
  induction e using byParts with
  | number | string | boolean => exact literal_simulates rfl
  | foreign item => exact foreign_simulates item
  | identifier span other =>
    rw [substitute]
    by_cases hname : other = name
    · rw [if_pos hname]
      rintro s _ ⟨rfl, hknown⟩
      rw [eval_identifier, hname, hknown, eval_literal hliteral]
      exact ⟨rfl, rfl, hknown⟩
    · rw [if_neg hname]
      apply identifier_simulates
      rintro s _ ⟨rfl, -⟩
      rfl
  | program span es ih =>
    exact .program (forall₂_substituteAll fun e he => ih e he (hpart h he)) span span
  | array span es ih =>
    exact .array (forall₂_substituteAll fun e he => ih e he (hpart h he)) span span
  | call span f es ih =>
    exact .call steady_knows (forall₂_substituteAll fun e he => ih e he (hpart h he)) span span f
  | binary span operator l r hl hr =>
    exact (hl (hpart h (by simp [children]))).binary (hr (hpart h (by simp [children])))
      span span operator
  | unary span operator e ih =>
    exact (ih (hpart h (by simp [children]))).unary span span operator
  | assign span target e ih =>
    have hne : target ≠ name := by
      rintro rfl
      apply h
      rw [features_eq]
      exact List.mem_append_left _ List.mem_cons_self
    refine .assign steady_knows (ih (hpart h (by simp [children]))) (bind_knows hne) ?_ span span
    rintro _ s _ ⟨rfl, -⟩
    rfl
  | conditional span c x y hc hx hy =>
    exact (hc (hpart h (by simp [children]))).conditional (hx (hpart h (by simp [children])))
      (hy (hpart h (by simp [children]))) span span
  | comprehension span binder i guard b hi hg hb =>
    have hi' := hi (hpart h (by simp [children]))
    have hb' := hb (hpart h (by simp [children]))
    -- A binder of the same name hides it: then the guard and the body are left as they are, and
    -- inside of the loop nothing need be known about the name.
    cases guard with
    | none =>
      rw [substitute]
      by_cases hbinder : binder = name
      · subst hbinder
        rw [if_pos rfl]
        exact .comprehension nested_shadowed hi' (.refl _) span span
      · rw [if_neg hbinder]
        exact .comprehension (nested_knows hbinder) hi' hb' span span
    | some g =>
      have hg' := hg g rfl (hpart h (by simp [children]))
      rw [substitute]
      by_cases hbinder : binder = name
      · subst hbinder
        rw [if_pos rfl]
        exact .guarded nested_shadowed hi' (.refl _) (.refl _) span span
      · rw [if_neg hbinder]
        exact .guarded (nested_knows hbinder) hi' hg' hb' span span
  | index span x y hx hy =>
    exact (hx (hpart h (by simp [children]))).index (hy (hpart h (by simp [children]))) span span
  | range span x y inclusive hx hy =>
    exact (hx (hpart h (by simp [children]))).range (hy (hpart h (by simp [children])))
      span span inclusive

/-- Induction along a substitution: the name itself is replaced, and every other node keeps its head
and its span. -/
@[elab_as_elim]
theorem substitute_byNodes {motive : Expr → Expr → Prop} {replacement : Expr}
    (replaced : ∀ span, motive (.identifier span name) replacement)
    (node : ∀ e f, f.head = e.head → f.span = e.span → List.Forall₂ motive e.children f.children →
      motive e f)
    (e : Expr) : motive e (substitute name replacement e) := by
  -- In a comprehension that binds the name, the guard and the body stand for themselves.
  have hself : ∀ e, motive e e := by
    intro e
    induction e using byChildren with
    | node e ih => exact node e e rfl rfl (List.forall₂_same.mpr ih)
  induction e using byParts with
  | number | string | boolean | foreign => exact hself _
  | identifier span other =>
    rw [substitute]
    by_cases hname : other = name
    · rw [if_pos hname, hname]
      exact replaced span
    · rw [if_neg hname]
      exact hself _
  | program span es ih | array span es ih | call span f es ih =>
    exact node _ _ rfl rfl (forall₂_substituteAll ih)
  | assign span target e ih | unary span operator e ih => exact node _ _ rfl rfl (.cons ih .nil)
  | binary span operator x y hx hy | index span x y hx hy | range span x y inclusive hx hy =>
    exact node _ _ rfl rfl (.cons hx (.cons hy .nil))
  | conditional span c x y hc hx hy => exact node _ _ rfl rfl (.cons hc (.cons hx (.cons hy .nil)))
  | comprehension span binder i guard b hi hg hb =>
    cases guard with
    | none =>
      rw [substitute]
      split
      · exact node _ _ rfl rfl (.cons hi (.cons (hself b) .nil))
      · exact node _ _ rfl rfl (.cons hi (.cons hb .nil))
    | some g =>
      rw [substitute]
      split
      · exact node _ _ rfl rfl (.cons hi (.cons (hself g) (.cons (hself b) .nil)))
      · exact node _ _ rfl rfl (.cons hi (.cons (hg g rfl) (.cons hb .nil)))

/-- If trees have the same features as others, so have the lists of them. -/
theorem flatMap_features_congr {es fs : List Expr}
    (h : List.Forall₂ (fun e f => f.features = e.features) es fs) :
    fs.flatMap features = es.flatMap features := by
  induction h with
  | nil => rfl
  | cons hhead _ ih => rw [List.flatMap_cons, List.flatMap_cons, hhead, ih]

/-- A literal in the place of a name adds no assignment and no array literal, and takes none
away. -/
theorem features_substitute {replacement : Expr} (hliteral : replacement.isLiteral = true)
    (e : Expr) :
    (substitute name replacement e).features = e.features := by
  refine substitute_byNodes ?_ ?_ e
  · intro span
    rw [features_literal hliteral, features_eq]
    rfl
  · intro e f hhead _ hparts
    rw [features_eq, features_eq e, feature?_congr hhead hparts.length_eq.symm,
      flatMap_features_congr hparts]

end Known

/-! ## States that agree on some names -/

/-- States that agree on the given names, on what the host supplies, and on all calls. -/
structure Agree (context : Context σ) (names : List String) (s t : State σ) : Prop where
  host : s.host = t.host
  calls : s.calls = t.calls
  lookup : ∀ name ∈ names, s.scope.lookup? name = t.scope.lookup? name
  root : ∀ name ∈ context.external,
    (s.scope.root.find? name).getD .null = (t.scope.root.find? name).getD .null
  level : s.scope.inner.length = t.scope.inner.length

section Agreement

variable {names : List String}

/-- A state agrees with itself. -/
theorem Agree.refl (s : State σ) : Agree context names s s :=
  ⟨rfl, rfl, fun _ _ => rfl, fun _ _ => rfl, rfl⟩

/-- States that agree on some names agree on fewer. -/
theorem Agree.mono {names' : List String} {s t : State σ} (h : Agree context names s t)
    (hsubset : ∀ name ∈ names', name ∈ names) : Agree context names' s t :=
  { h with lookup := fun name hname => h.lookup name (hsubset name hname) }

/-- States that agree do so after the same binding. -/
theorem Agree.bind (name : String) (v : Value) {s t : State σ} (h : Agree context names s t) :
    Agree context names { s with scope := s.scope.bind name v }
      { t with scope := t.scope.bind name v } where
  host := h.host
  calls := h.calls
  lookup := by
    intro other hother
    rw [Scope.lookup?_bind, Scope.lookup?_bind, h.lookup other hother]
  root := by
    intro other hother
    have hinner : s.scope.inner = [] ↔ t.scope.inner = [] := by
      rw [← List.length_eq_zero_iff, ← List.length_eq_zero_iff, h.level]
    rw [Scope.root_bind, Scope.root_bind]
    by_cases hname : s.scope.inner = [] ∧ other = name
    · rw [if_pos hname, if_pos ⟨hinner.mp hname.1, hname.2⟩]
    · rw [if_neg hname, if_neg fun h => hname ⟨hinner.mpr h.1, h.2⟩]
      exact h.root other hother
  level := by
    rw [Scope.length_inner_bind, Scope.length_inner_bind, h.level]

/-- States that agree stay so through calls of the host. -/
theorem steady_agree : Steady (Agree context names : State σ → State σ → Prop) where
  host h := h.host
  called host call h := { h with host := rfl, calls := by rw [h.calls] }
  logged event h := { h with }

/-- States that agree do so in scopes with the same binding, and again when these are left. -/
theorem nested_agree (binder : String) :
    Nested (Agree context names : State σ → State σ → Prop) (Agree context names) binder where
  enter := by
    intro s t v h
    have hpush : Agree context names { s with scope := s.scope.push }
      { t with scope := t.scope.push } :=
      { h with
        lookup := fun name hname => by
          rw [Scope.lookup?_push, Scope.lookup?_push, h.lookup name hname]
        level := by simp [Scope.push, h.level] }
    exact hpush.bind binder v
  leave h h' := { h with host := h'.host, calls := h'.calls }

/-- A tree is evaluated alike in states that agree on the names it reads. -/
theorem agree_simulates {e : Expr} (h : ∀ name ∈ e.references, name ∈ names) :
    Simulates context strict (Agree context names) e e := by
  refine self_simulates (R := fun _ : Unit => Agree context names) ?_ ?_ ()
  · intro _ binder
    have hnested : Nested (Agree context names) (Agree context names) binder := nested_agree binder
    exact ⟨fun _ => (), fun v hst => ⟨v, hnested.enter v hst⟩, fun hst ⟨_, hst'⟩ =>
      hnested.leave hst hst'⟩
  · intro node hnode _
    cases node with
    | identifier span name =>
      intro s t hst
      exact hst.lookup name (h name (List.mem_filterMap.mpr ⟨_, hnode, rfl⟩))
    | call => exact steady_agree
    | assign span name value =>
      exact ⟨steady_agree, fun v s t hst => hst.bind name v, fun hname s t hst =>
        hst.root name hname⟩
    | _ => trivial

/-- A tree that reads no other names than those on which two states agree has the same value from
both, and they still agree. -/
theorem Agree.eval {e : Expr} (h : ∀ name ∈ e.references, name ∈ names)
    {s t s' : State σ} {v : Value} (hst : Agree context names s t)
    (hrun : e.eval context s = .ok v s') :
    ∃ t', e.eval context t = .ok v t' ∧ Agree context names s' t' := by
  have hsimulates : Simulates context False (Agree context names) e e := agree_simulates h
  exact hsimulates.ok hst hrun

end Agreement

/-! ## Trees without effects -/

/-- Both states are a given one. -/
def Still (s₀ : State σ) (s t : State σ) : Prop :=
  s = s₀ ∧ t = s₀

/-- A scope that is entered from a given state is the same every time, and leaving it leads back. -/
theorem nested_still (s₀ : State σ) (binder : String) :
    Nested (Still s₀) (fun s t => ∃ v, Still { s₀ with scope := s₀.scope.push.bind binder v } s t)
      binder where
  enter := by
    rintro _ _ v ⟨rfl, rfl⟩
    exact ⟨v, rfl, rfl⟩
  leave := by
    rintro _ _ _ _ ⟨rfl, rfl⟩ ⟨v, rfl, rfl⟩
    exact ⟨rfl, rfl⟩

/-- Evaluating a tree without calls and assignments leaves the state as it was. -/
theorem eval_still {e : Expr} (h : e.hasEffects = false) {s s' : State σ} {v : Value}
    (hrun : e.eval context s = .ok v s') : s' = s := by
  have hstill : Simulates context False (Still s) e e := by
    refine self_simulates (R := Still) (fun s₀ binder => ⟨_, nested_still s₀ binder⟩) ?_ s
    intro node hnode s₀
    have heffect : node.isEffect = false := by
      simpa using List.any_eq_false.mp h node hnode
    cases node with
    | identifier =>
      rintro _ _ ⟨rfl, rfl⟩
      rfl
    | call | assign => cases heffect
    | _ => trivial
  obtain ⟨_, -, hs', -⟩ := hstill.ok ⟨rfl, rfl⟩ hrun
  exact hs'

end Expr

end Formulary
