import Formulary.Proofs.Simulation
import Formulary.Proofs.Tree
import Formulary.Simplification.Folding

/-!
# Folding constants changes nothing but positions

`Folds e f` says that folding takes `e` to `f`; one lemma for every construct says what `f` can be.
`Folds.outcome` sums them up: a literal, what a part is folded to, or a node with the same head;
`Folds.byOutcome` is the induction with these three cases.  From them follow that folding adds no
assignment and no array literal (`features_fold`), and that evaluating `f` tracks evaluating `e`
(`fold_simulates`).  Where a node is replaced, the node with its parts folded does what the literal
in its place does; only reading an element off an array literal can fail by a limit that the literal
in its place does not meet.
-/

set_option autoImplicit false

namespace Formulary

namespace Expr

/-- Folding takes one tree to another. -/
def Folds (e f : Expr) : Prop :=
  ∃ log after, e.fold log = .ok f after

/-- Folding several trees folds each of them. -/
theorem folds_all {es fs : List Expr} {log after : List Event} (h : foldAll es log = .ok fs after) :
    List.Forall₂ Folds es fs := by
  induction es generalizing fs log with
  | nil =>
    rw [foldAll] at h
    cases h
    exact .nil
  | cons e es ih =>
    rw [foldAll] at h
    obtain ⟨f, mid, hf, h⟩ := bind_eq_ok h
    obtain ⟨rest, mid', hrest, h⟩ := bind_eq_ok h
    cases h
    exact .cons ⟨log, mid, hf⟩ (ih hrest)

/-! ## What a tree folds to -/

section Inversion

variable {span : Span} {f : Expr}

/-- If a tree folds by its parts alone, the parts fold and the tree is built from them. -/
theorem folds_parts {es : List Expr} {build : List Expr → Expr} {log after : List Event}
    (h : (foldAll es >>= fun fs => pure (build fs)) log = .ok f after) :
    ∃ fs, List.Forall₂ Folds es fs ∧ f = build fs := by
  obtain ⟨fs, mid, hfs, h⟩ := bind_eq_ok h
  cases h
  exact ⟨fs, folds_all hfs, rfl⟩

/-- A program folds statement by statement. -/
theorem Folds.program {es : List Expr} (h : Folds (.program span es) f) :
    ∃ fs, List.Forall₂ Folds es fs ∧ f = .program span fs := by
  obtain ⟨log, after, h⟩ := h
  exact folds_parts h

/-- An array folds element by element. -/
theorem Folds.array {es : List Expr} (h : Folds (.array span es) f) :
    ∃ fs, List.Forall₂ Folds es fs ∧ f = .array span fs := by
  obtain ⟨log, after, h⟩ := h
  exact folds_parts h

/-- A call folds argument by argument. -/
theorem Folds.call {name : String} {es : List Expr} (h : Folds (.call span name es) f) :
    ∃ fs, List.Forall₂ Folds es fs ∧ f = .call span name fs := by
  obtain ⟨log, after, h⟩ := h
  exact folds_parts h

/-- An assignment folds in its value. -/
theorem Folds.assign {name : String} {e : Expr} (h : Folds (.assign span name e) f) :
    ∃ a, Folds e a ∧ f = .assign span name a := by
  obtain ⟨log, after, h⟩ := h
  obtain ⟨a, mid, ha, h⟩ := bind_eq_ok h
  cases h
  exact ⟨a, ⟨log, _, ha⟩, rfl⟩

/-- A range folds in its bounds. -/
theorem Folds.range {e e' : Expr} {inclusive : Bool} (h : Folds (.range span e e' inclusive) f) :
    ∃ a b, Folds e a ∧ Folds e' b ∧ f = .range span a b inclusive := by
  obtain ⟨log, after, h⟩ := h
  obtain ⟨a, mid, ha, h⟩ := bind_eq_ok h
  obtain ⟨b, mid', hb, h⟩ := bind_eq_ok h
  cases h
  exact ⟨a, b, ⟨log, mid, ha⟩, ⟨mid, _, hb⟩, rfl⟩

/-- A comprehension without a guard folds in its iterable and its body. -/
theorem Folds.comprehension {binder : String} {i b : Expr}
    (h : Folds (.comprehension span binder i none b) f) :
    ∃ i' b', Folds i i' ∧ Folds b b' ∧ f = .comprehension span binder i' none b' := by
  obtain ⟨log, after, h⟩ := h
  obtain ⟨i', mid, hi, h⟩ := bind_eq_ok h
  obtain ⟨b', mid', hb, h⟩ := bind_eq_ok h
  cases h
  exact ⟨i', b', ⟨log, mid, hi⟩, ⟨mid, _, hb⟩, rfl⟩

/-- A comprehension with a guard folds in its iterable, its guard and its body. -/
theorem Folds.guarded {binder : String} {i g b : Expr}
    (h : Folds (.comprehension span binder i (some g) b) f) :
    ∃ i' g' b', Folds i i' ∧ Folds g g' ∧ Folds b b' ∧
      f = .comprehension span binder i' (some g') b' := by
  obtain ⟨log, after, h⟩ := h
  obtain ⟨i', mid, hi, h⟩ := bind_eq_ok h
  obtain ⟨g', mid', hg, h⟩ := bind_eq_ok h
  obtain ⟨b', mid'', hb, h⟩ := bind_eq_ok h
  cases h
  exact ⟨i', g', b', ⟨log, mid, hi⟩, ⟨mid, mid', hg⟩, ⟨mid', _, hb⟩, rfl⟩

/-- A replacement yields the tree that is kept or the one that it is folded to. -/
theorem replaceBy_cases {folded : Option Expr} {event : Event} {kept : Expr}
    {log after : List Event} (h : replaceBy folded event kept log = .ok f after) :
    f = kept ∨ folded = some f := by
  cases folded with
  | none =>
    cases h
    exact .inl rfl
  | some e =>
    cases h
    exact .inr rfl

/-- An operation folds to a literal only if it has a result, and the literal is that result. -/
theorem foldResult_eq_some {result : Except Refusal Value} {log after : List Event}
    (h : foldResult span result log = .ok (some f) after) :
    ∃ v, result = .ok v ∧ ofLiteral? span v = some f := by
  unfold foldResult at h
  split at h
  · rename_i v
    obtain ⟨hv, -⟩ := EStateM.Result.ok.inj h
    exact ⟨v, rfl, hv⟩
  · cases h
  · cases h

/-- A binary operation on folded operands is kept, or it is replaced by the literal of its
result. -/
theorem foldBinary_cases {operator : BinaryOp} {a b : Expr} {log after : List Event}
    (h : foldBinary span operator a b log = .ok f after) : f = .binary span operator a b ∨
      ∃ x y v, a.literal? = some x ∧ b.literal? = some y ∧
        Value.applyBinary .standard operator x y = .ok v ∧ ofLiteral? span v = some f := by
  unfold foldBinary at h
  cases hx : a.literal? with
  | none =>
    rw [hx] at h
    cases h
    exact .inl rfl
  | some x =>
    cases hy : b.literal? with
    | none =>
      rw [hx, hy] at h
      cases h
      exact .inl rfl
    | some y =>
      rw [hx, hy] at h
      obtain ⟨folded, mid, hfolded, h⟩ := bind_eq_ok h
      rcases replaceBy_cases h with hkept | rfl
      · exact .inl hkept
      · obtain ⟨v, hv, hf⟩ := foldResult_eq_some hfolded
        exact .inr ⟨x, y, v, rfl, rfl, hv, hf⟩

/-- A unary operation on a folded operand is kept, or it is replaced by the literal of its
result. -/
theorem foldUnary_cases {operator : UnaryOp} {a : Expr} {log after : List Event}
    (h : foldUnary span operator a log = .ok f after) : f = .unary span operator a ∨
      ∃ x v, a.literal? = some x ∧ Value.applyUnary operator x = .ok v ∧
        ofLiteral? span v = some f := by
  have hreplaced : ∀ x, a.literal? = some x →
      (foldResult span (Value.applyUnary operator x) >>= fun folded => replaceBy folded
        (.constantFolded .unary (some operator.symbol)) (.unary span operator a)) log =
          .ok f after →
      f = .unary span operator a ∨ ∃ x v, a.literal? = some x ∧
        Value.applyUnary operator x = .ok v ∧
        ofLiteral? span v = some f := by
    intro x hx h
    obtain ⟨folded, mid, hfolded, h⟩ := bind_eq_ok h
    rcases replaceBy_cases h with hkept | rfl
    · exact .inl hkept
    · obtain ⟨v, hv, hf⟩ := foldResult_eq_some hfolded
      exact .inr ⟨x, v, hx, hv, hf⟩
  unfold foldUnary at h
  split at h
  · exact hreplaced _ rfl h
  · exact hreplaced _ rfl h
  · cases h
    exact .inl rfl

/-- A binary operation folds in its operands, and then to the literal of its result at most. -/
theorem Folds.binary {operator : BinaryOp} {l r : Expr} (h : Folds (.binary span operator l r) f) :
    ∃ a b, Folds l a ∧ Folds r b ∧ (f = .binary span operator a b ∨
      ∃ x y v, a.literal? = some x ∧ b.literal? = some y ∧
        Value.applyBinary .standard operator x y = .ok v ∧ ofLiteral? span v = some f) := by
  obtain ⟨log, after, h⟩ := h
  obtain ⟨a, mid, ha, h⟩ := bind_eq_ok h
  obtain ⟨b, mid', hb, h⟩ := bind_eq_ok h
  exact ⟨a, b, ⟨log, mid, ha⟩, ⟨mid, mid', hb⟩, foldBinary_cases h⟩

/-- A unary operation folds in its operand, and then to the literal of its result at most. -/
theorem Folds.unary {operator : UnaryOp} {e : Expr} (h : Folds (.unary span operator e) f) :
    ∃ a, Folds e a ∧ (f = .unary span operator a ∨
      ∃ x v, a.literal? = some x ∧ Value.applyUnary operator x = .ok v ∧
        ofLiteral? span v = some f) := by
  obtain ⟨log, after, h⟩ := h
  obtain ⟨a, mid, ha, h⟩ := bind_eq_ok h
  exact ⟨a, ⟨log, mid, ha⟩, foldUnary_cases h⟩

/-- An index folds in its two parts, and then to an element that is a literal at most. -/
theorem Folds.index {e e' : Expr} (h : Folds (.index span e e') f) :
    ∃ a b, Folds e a ∧ Folds e' b ∧ (f = .index span a b ∨ literalElement? span a b = some f) := by
  obtain ⟨log, after, h⟩ := h
  obtain ⟨a, mid, ha, h⟩ := bind_eq_ok h
  obtain ⟨b, mid', hb, h⟩ := bind_eq_ok h
  exact ⟨a, b, ⟨log, mid, ha⟩, ⟨mid, mid', hb⟩, replaceBy_cases h⟩

/-- A conditional folds to the branch that a literal condition selects, and in all its parts
otherwise. -/
theorem Folds.conditional {c x y : Expr} (h : Folds (.conditional span c x y) f) :
    ∃ c', Folds c c' ∧ ((literalTruth? c' = some true ∧ Folds x f) ∨
      (literalTruth? c' = some false ∧ Folds y f) ∨
      ∃ a b, Folds x a ∧ Folds y b ∧ f = .conditional span c' a b) := by
  obtain ⟨log, after, h⟩ := h
  obtain ⟨c', mid, hc, h⟩ := bind_eq_ok h
  refine ⟨c', ⟨log, mid, hc⟩, ?_⟩
  match htruth : literalTruth? c' with
  | some true =>
    rw [htruth] at h
    obtain ⟨_, mid', -, h⟩ := bind_eq_ok h
    exact .inl ⟨rfl, mid', after, h⟩
  | some false =>
    rw [htruth] at h
    obtain ⟨_, mid', -, h⟩ := bind_eq_ok h
    exact .inr (.inl ⟨rfl, mid', after, h⟩)
  | none =>
    rw [htruth] at h
    obtain ⟨a, mid', ha, h⟩ := bind_eq_ok h
    obtain ⟨b, mid'', hb, h⟩ := bind_eq_ok h
    cases h
    exact .inr (.inr ⟨a, b, ⟨mid, mid', ha⟩, ⟨mid', _, hb⟩, rfl⟩)

/-- A literal folds to itself. -/
theorem Folds.literal {e : Expr} (h : Folds e f) (hliteral : e.isLiteral = true) : f = e := by
  obtain ⟨log, after, h⟩ := h
  cases e with
  | number | string | boolean =>
    cases h
    rfl
  | _ => cases hliteral

/-- An identifier folds to itself. -/
theorem Folds.identifier {name : String} (h : Folds (.identifier span name) f) :
    f = .identifier span name := by
  obtain ⟨log, after, h⟩ := h
  cases h
  rfl

/-- Nothing foreign folds. -/
theorem Folds.foreign {item : Foreign} (h : Folds (.foreign item) f) : False := by
  obtain ⟨log, after, h⟩ := h
  cases h

end Inversion

/-! ## Literals -/

/-- What has the value of a literal is a literal. -/
theorem isLiteral_of_literal? {e : Expr} {v : Value} (h : e.literal? = some v) :
    e.isLiteral = true := by
  cases e <;> first | rfl | cases h

/-- The literal of a value has that value. -/
theorem literal?_of_ofLiteral? {span : Span} {v : Value} {f : Expr}
    (h : ofLiteral? span v = some f) :
    f.literal? = some v := by
  unfold ofLiteral? at h
  split at h
  · cases h
    rfl
  · split at h
    · cases h
    · cases h
      rfl
  · cases h
    rfl
  · cases h

/-- A literal has a value. -/
theorem exists_literal? {e : Expr} (h : e.isLiteral = true) : ∃ v, e.literal? = some v := by
  cases e with
  | number | string | boolean => exact ⟨_, rfl⟩
  | _ => cases h

/-- An element that folding reads off is a literal. -/
theorem isLiteral_of_literalElement? {span : Span} {a b f : Expr}
    (h : literalElement? span a b = some f) : f.isLiteral = true := by
  unfold literalElement? at h
  split at h
  · split at h
    · cases h
      rfl
    · cases h
  · split at h
    · rename_i hall
      split at h
      · split at h
        · exact List.all_eq_true.mp hall f (List.mem_of_getElem? h)
        · cases h
      · cases h
    · cases h
  · cases h

/-! ## What folding does to a node -/

/-- A node is folded to a literal, to what one of its parts is folded to, or to a node with the same
head and folded parts. -/
theorem Folds.outcome {e f : Expr} (h : Folds e f) :
    f.isLiteral = true ∨ (∃ part ∈ e.children, Folds part f) ∨
      (f.head = e.head ∧ List.Forall₂ Folds e.children f.children) := by
  cases e with
  | number | string | boolean =>
    rw [h.literal rfl]
    exact .inl rfl
  | identifier =>
    rw [h.identifier]
    exact .inr (.inr ⟨rfl, .nil⟩)
  | foreign => exact h.foreign.elim
  | program span es =>
    obtain ⟨fs, hfs, rfl⟩ := h.program
    exact .inr (.inr ⟨rfl, hfs⟩)
  | array span es =>
    obtain ⟨fs, hfs, rfl⟩ := h.array
    exact .inr (.inr ⟨rfl, hfs⟩)
  | call span name es =>
    obtain ⟨fs, hfs, rfl⟩ := h.call
    exact .inr (.inr ⟨rfl, hfs⟩)
  | assign span name e =>
    obtain ⟨a, ha, rfl⟩ := h.assign
    exact .inr (.inr ⟨rfl, .cons ha .nil⟩)
  | range span x y inclusive =>
    obtain ⟨a, b, ha, hb, rfl⟩ := h.range
    exact .inr (.inr ⟨rfl, .cons ha (.cons hb .nil)⟩)
  | comprehension span binder i guard b =>
    cases guard with
    | none =>
      obtain ⟨i', b', hi, hb, rfl⟩ := h.comprehension
      exact .inr (.inr ⟨rfl, .cons hi (.cons hb .nil)⟩)
    | some g =>
      obtain ⟨i', g', b', hi, hg, hb, rfl⟩ := h.guarded
      exact .inr (.inr ⟨rfl, .cons hi (.cons hg (.cons hb .nil))⟩)
  | binary span operator l r =>
    obtain ⟨a, b, ha, hb, rfl | ⟨x, y, v, -, -, -, hf⟩⟩ := h.binary
    · exact .inr (.inr ⟨rfl, .cons ha (.cons hb .nil)⟩)
    · exact .inl (isLiteral_of_literal? (literal?_of_ofLiteral? hf))
  | unary span operator e =>
    obtain ⟨a, ha, rfl | ⟨x, v, -, -, hf⟩⟩ := h.unary
    · exact .inr (.inr ⟨rfl, .cons ha .nil⟩)
    · exact .inl (isLiteral_of_literal? (literal?_of_ofLiteral? hf))
  | index span x y =>
    obtain ⟨a, b, ha, hb, rfl | hf⟩ := h.index
    · exact .inr (.inr ⟨rfl, .cons ha (.cons hb .nil)⟩)
    · exact .inl (isLiteral_of_literalElement? hf)
  | conditional span c x y =>
    obtain ⟨c', hc, ⟨-, hf⟩ | ⟨-, hf⟩ | ⟨a, b, ha, hb, rfl⟩⟩ := h.conditional
    · exact .inr (.inl ⟨x, by simp [children], hf⟩)
    · exact .inr (.inl ⟨y, by simp [children], hf⟩)
    · exact .inr (.inr ⟨rfl, .cons hc (.cons ha (.cons hb .nil))⟩)

/-- A relation that holds part by part can be weakened part by part. -/
theorem forall₂_of_parts {P Q : Expr → Expr → Prop} {es fs : List Expr} (h : List.Forall₂ P es fs)
    (himp : ∀ e ∈ es, ∀ f, P e f → Q e f) : List.Forall₂ Q es fs := by
  induction h with
  | nil => exact .nil
  | cons hhead _ ih =>
    refine .cons (himp _ List.mem_cons_self _ hhead) (ih fun e he => ?_)
    exact himp e (List.mem_cons_of_mem _ he)

/-- Induction along folding, with one case for each outcome at a node. -/
@[elab_as_elim]
theorem Folds.byOutcome {motive : Expr → Expr → Prop}
    (literal : ∀ e f, f.isLiteral = true → motive e f)
    (part : ∀ e part f, part ∈ e.children → motive part f → motive e f)
    (node : ∀ e f, f.head = e.head → List.Forall₂ motive e.children f.children → motive e f)
    {e f : Expr} (h : Folds e f) : motive e f := by
  induction e using byChildren generalizing f with
  | node e ih =>
    rcases h.outcome with hliteral | ⟨p, hp, hf⟩ | ⟨hhead, hparts⟩
    · exact literal e f hliteral
    · exact part e p f hp (ih p hp hf)
    · exact node e f hhead (forall₂_of_parts hparts fun p hp g => ih p hp)

/-! ## Assignments and array literals -/

/-- What of a node can matter to the passes over a tree: the name it assigns, or the length of its
array literal. -/
inductive Feature where
  | target (name : String)
  | array (length : Nat)
deriving DecidableEq

/-- The feature of a node. -/
def feature? : Expr → Option Feature
  | .assign _ name _ => some (.target name)
  | .array _ elements => some (.array elements.length)
  | _ => none

/-- The features of all nodes of a tree, in pre-order. -/
def features (e : Expr) : List Feature :=
  e.nodes.filterMap feature?

/-- The features of a tree are those of its root and of its parts. -/
theorem features_eq (e : Expr) : e.features = e.feature?.toList ++ e.children.flatMap features := by
  unfold features
  rw [nodes_eq, List.filterMap_cons, List.filterMap_flatMap]
  cases e.feature? <;> rfl

/-- A literal has no features. -/
theorem features_literal {e : Expr} (h : e.isLiteral = true) : e.features = [] := by
  rw [features_eq]
  cases e with
  | number | string | boolean => rfl
  | _ => cases h

/-- What the parts are taken to has a property if all they can be taken to has it. -/
theorem forall_mem_of_parts {R : Expr → Expr → Prop} {property : Expr → Prop} {es fs : List Expr}
    (h : List.Forall₂ R es fs) (himp : ∀ e ∈ es, ∀ f, R e f → property f) :
    ∀ f ∈ fs, property f := by
  induction h with
  | nil => simp
  | cons hhead _ ih =>
    simp only [List.forall_mem_cons] at himp ⊢
    exact ⟨himp.1 _ hhead, ih himp.2⟩

/-- If trees have no more features than others, in the same order, so have the lists of them. -/
theorem sublist_flatMap_features {es fs : List Expr}
    (h : List.Forall₂ (fun e f => f.features.Sublist e.features) es fs) :
    (fs.flatMap features).Sublist (es.flatMap features) := by
  induction h with
  | nil => exact .slnil
  | cons hhead _ ih => exact hhead.append ih

/-- The feature of a node is decided by its head and the number of its parts. -/
theorem feature?_eq (e : Expr) : e.feature? = e.head.feature?.map fun
    | .target name => .target name
    | .array _ => .array e.children.length := by
  cases e <;> rfl

/-- Nodes with the same head and as many parts have the same feature. -/
theorem feature?_congr {e f : Expr} (hhead : f.head = e.head)
    (hlength : f.children.length = e.children.length) : f.feature? = e.feature? := by
  rw [feature?_eq f, feature?_eq e, hhead, hlength]

/-- Folding adds no assignment and no array literal. -/
theorem features_fold {e f : Expr} (h : Folds e f) : f.features.Sublist e.features := by
  refine Folds.byOutcome ?_ ?_ ?_ h
  · intro e f hliteral
    rw [features_literal hliteral]
    exact List.nil_sublist _
  · intro e part f hpart ih
    rw [features_eq e]
    exact (ih.trans (List.sublist_flatten_of_mem (List.mem_map_of_mem hpart))).trans
      (List.sublist_append_right _ _)
  · intro e f hhead hparts
    rw [features_eq, features_eq e, feature?_congr hhead hparts.length_eq.symm]
    exact (List.Sublist.refl _).append (sublist_flatMap_features hparts)

/-! ## Evaluation -/

open Run

section Evaluation

variable {σ : Type} {context : Context σ} {strict : Prop}

/-- A literal is evaluated to its value and nothing else happens. -/
theorem eval_literal {e : Expr} {v : Value} (h : e.literal? = some v) :
    e.eval context = pure v := by
  cases e with
  | number | string | boolean =>
    cases h
    rw [eval]
  | _ => cases h

/-- Only arrays are subject to a limit, and no literal is one. -/
theorem applyBinary_standard {e : Expr} {x : Value} (h : e.literal? = some x) (limits : Limits)
    (operator : BinaryOp) (y : Value) :
    Value.applyBinary limits operator x y = Value.applyBinary .standard operator x y := by
  have hadd : Value.add limits x y = Value.add .standard x y := by
    cases e with
    | number | string | boolean =>
      cases h
      cases y <;> rfl
    | _ => cases h
  cases operator <;> first | rfl | exact hadd

/-- A binary operation on literals is evaluated as the literal of its result. -/
theorem eval_binary_literals {span : Span} {operator : BinaryOp} {a b f : Expr} {x y v : Value}
    (ha : a.literal? = some x) (hb : b.literal? = some y)
    (hv : Value.applyBinary .standard operator x y = .ok v) (hf : ofLiteral? span v = some f) :
    (Expr.binary span operator a b).eval context = f.eval context := by
  rw [eval, eval_literal ha, eval_literal hb, eval_literal (literal?_of_ofLiteral? hf), pure_bind,
    pure_bind, applyBinary_standard ha, hv]
  rfl

/-- A unary operation on a literal is evaluated as the literal of its result. -/
theorem eval_unary_literal {span : Span} {operator : UnaryOp} {a f : Expr} {x v : Value}
    (ha : a.literal? = some x) (hv : Value.applyUnary operator x = .ok v)
    (hf : ofLiteral? span v = some f) :
    (Expr.unary span operator a).eval context = f.eval context := by
  rw [eval, eval_literal ha, eval_literal (literal?_of_ofLiteral? hf), pure_bind, hv]
  rfl

/-- A literal condition has the truth that it is folded by. -/
theorem truth_of_literalTruth? {c : Expr} {holds : Bool} (h : literalTruth? c = some holds) :
    ∃ v, c.literal? = some v ∧ v.truth = .ok holds := by
  unfold literalTruth? at h
  split at h
  · cases h
    exact ⟨_, rfl, rfl⟩
  · split at h
    · rename_i htruth
      cases h
      exact ⟨_, rfl, htruth⟩
    · cases h
  · cases h

/-- A conditional with a literal condition is evaluated as the branch that the condition selects. -/
theorem eval_conditional_literal {span : Span} {c a b : Expr} {holds : Bool}
    (h : literalTruth? c = some holds) :
    (Expr.conditional span c a b).eval context =
      if holds then a.eval context else b.eval context := by
  obtain ⟨v, hc, hv⟩ := truth_of_literalTruth? h
  rw [eval, eval_literal hc, pure_bind, hv]
  rfl

/-- A character of a string literal is evaluated as the literal of that character. -/
theorem eval_string_element {span span₁ span₂ : Span} {text c : String} {x : Float}
    (h : Value.element (.string text) (.number x) = .ok (.string c)) :
    (Expr.index span (.string span₁ text) (.number span₂ x)).eval context =
      (Expr.string span c).eval context := by
  rw [eval, eval, eval, eval, pure_bind, pure_bind, h]
  rfl

/-- Literals are evaluated to their values and nothing else happens. -/
theorem evalAll_literals {es : List Expr} (h : es.all isLiteral = true) :
    evalAll context es = pure (es.filterMap literal?) := by
  induction es with
  | nil => rw [evalAll, List.filterMap_nil]
  | cons e es ih =>
    rw [List.all_cons, Bool.and_eq_true] at h
    obtain ⟨v, hv⟩ := exists_literal? h.1
    rw [evalAll, eval_literal hv, ih h.2, pure_bind, pure_bind, List.filterMap_cons, hv]

/-- Literals have as many values as there are of them. -/
theorem length_literals {es : List Expr} (h : es.all isLiteral = true) :
    (es.filterMap literal?).length = es.length := by
  rw [List.length_filterMap_eq_countP, List.countP_eq_length]
  intro e he
  obtain ⟨v, hv⟩ := exists_literal? (List.all_eq_true.mp h e he)
  simp [hv]

/-- The value at a position is that of the literal at the position. -/
theorem getElem?_literals {es : List Expr} (h : es.all isLiteral = true) (position : Nat) :
    (es.filterMap literal?)[position]? = es[position]?.bind literal? := by
  induction es generalizing position with
  | nil => rfl
  | cons e es ih =>
    rw [List.all_cons, Bool.and_eq_true] at h
    obtain ⟨v, hv⟩ := exists_literal? h.1
    rw [List.filterMap_cons, hv]
    cases position with
    | zero => simp [hv]
    | succ position => simpa using ih h.2 position

/-- The element of the values of literals at an index is the value of the literal at its
position. -/
theorem element_literals {es : List Expr} (hall : es.all isLiteral = true) {x : Float}
    {requested : Int} {position : Nat} {f : Expr} {v : Value}
    (hrequested : Value.demandWhole (.number x) Value.indexContext = .ok requested)
    (hposition : Value.locate requested es.length = .ok position) (hf : es[position]? = some f)
    (hv : f.literal? = some v) :
    Value.element (.list (es.filterMap literal?)) (.number x) = .ok v := by
  have hget : (es.filterMap literal?)[position]? = some v := by
    rw [getElem?_literals hall, hf, Option.bind_some, hv]
  have hlocate : Value.locate requested (es.filterMap literal?).length = .ok position := by
    rw [length_literals hall, hposition]
  show (do
    let requested ← Value.demandWhole (.number x) Value.indexContext
    let position ← Value.locate requested (es.filterMap literal?).length
    return (es.filterMap literal?).getD position .null) = _
  rw [hrequested]
  show (do
    let position ← Value.locate requested (es.filterMap literal?).length
    return (es.filterMap literal?).getD position .null) = _
  rw [hlocate]
  show Except.ok ((es.filterMap literal?).getD position .null) = _
  rw [List.getD_eq_getElem?_getD, hget]
  rfl

/-- Reading an element off an array of literals comes to that element, unless the array is over the
limit for arrays. -/
theorem simulates_array_element {span span₁ span₂ : Span} {es : List Expr} {x : Float}
    {requested : Int} {position : Nat} {f : Expr} (hall : es.all isLiteral = true)
    (hrequested : Value.demandWhole (.number x) Value.indexContext = .ok requested)
    (hposition : Value.locate requested es.length = .ok position) (hf : es[position]? = some f)
    (hwithin : strict → (es.length : Int) ≤ context.limits.bound .arrayLength) :
    Simulates context strict Eq (.index span (.array span₁ es) (.number span₂ x)) f := by
  obtain ⟨v, hv⟩ := exists_literal? (List.all_eq_true.mp hall f (List.mem_of_getElem? hf))
  have helement := element_literals hall hrequested hposition hf hv
  unfold Simulates
  rw [eval_literal hv, eval, eval, eval, evalAll_literals hall, pure_bind, length_literals hall]
  rintro s _ rfl
  by_cases hover : context.limits.bound .arrayLength < es.length
  · have hcheck : Value.withinLimit context.limits .arrayLength es.length =
        .error (.cause (context.limits.exceeded .arrayLength es.length)) := by
      rw [Value.withinLimit, Limits.check, if_pos hover]
      rfl
    rw [hcheck]
    exact fun hstrict => absurd (hwithin hstrict) (Int.not_le.mpr hover)
  · have hcheck : Value.withinLimit context.limits .arrayLength es.length = .ok () := by
      rw [Value.withinLimit, Limits.check, if_neg hover]
      rfl
    rw [hcheck]
    show Matched strict Eq (Run.lift (context.siteOf span) (Value.element _ _) s) _
    rw [helement]
    exact ⟨rfl, rfl⟩

/-- An array literal is no longer than the limit for arrays. -/
def ArrayWithin (limits : Limits) : Expr → Prop
  | .array _ elements => (elements.length : Int) ≤ limits.bound .arrayLength
  | _ => True

/-- The array literals of a tree have no more elements than the limit allows if each of them is
within it. -/
theorem features_within {limits : Limits} {e : Expr} (h : e.Everywhere (ArrayWithin limits))
    {length : Nat} (hlength : .array length ∈ e.features) :
    (length : Int) ≤ limits.bound .arrayLength := by
  obtain ⟨node, hnode, hfeature⟩ := List.mem_filterMap.mp hlength
  have hwithin := h node hnode
  cases node with
  | array _ es =>
    cases hfeature
    exact hwithin
  | _ => cases hfeature

/-- An element of an array literal is evaluated as the array at the index, as long as the array is
within its limit. -/
theorem simulates_literalElement? {span : Span} {a b f : Expr}
    (h : literalElement? span a b = some f)
    (hwithin : strict → ∀ length : Nat, .array length ∈ a.features →
      (length : Int) ≤ context.limits.bound .arrayLength) :
    Simulates context strict Eq (.index span a b) f := by
  unfold literalElement? at h
  split at h
  · split at h
    · rename_i helement
      cases h
      unfold Simulates
      rw [eval_string_element helement]
      exact .refl _
    · cases h
  · rename_i span₁ es span₂ x
    split at h
    · rename_i hall
      split at h
      · rename_i requested hrequested
        split at h
        · rename_i position hposition
          refine simulates_array_element hall hrequested hposition h fun hstrict => ?_
          apply hwithin hstrict
          rw [features_eq]
          exact List.mem_append_left _ List.mem_cons_self
        · cases h
      · cases h
    · cases h
  · cases h

/-- What is required of every node of a tree, if anything is, is required of every node of its
parts. -/
theorem within_part {P : Expr → Prop} {e part : Expr} (hwithin : strict → e.Everywhere P)
    (hpart : part ∈ e.children) : strict → part.Everywhere P :=
  fun hstrict => (hwithin hstrict).part hpart

/-- Evaluating a folded tree tracks evaluating the tree, strictly if no array literal is over the
limit for arrays. -/
theorem fold_simulates {e f : Expr} (h : Folds e f)
    (hwithin : strict → e.Everywhere (ArrayWithin context.limits)) :
    Simulates context strict Eq e f := by
  induction e using byParts generalizing f with
  | number | string | boolean =>
    rw [h.literal rfl]
    exact .refl _
  | identifier =>
    rw [h.identifier]
    exact .refl _
  | foreign => exact h.foreign.elim
  | program span es ih =>
    obtain ⟨fs, hfs, rfl⟩ := h.program
    refine .program (forall₂_of_parts hfs fun e he f hf => ?_) span span
    exact ih e he hf (within_part hwithin he)
  | array span es ih =>
    obtain ⟨fs, hfs, rfl⟩ := h.array
    refine .array (forall₂_of_parts hfs fun e he f hf => ?_) span span
    exact ih e he hf (within_part hwithin he)
  | call span name es ih =>
    obtain ⟨fs, hfs, rfl⟩ := h.call
    refine .call steady_eq (forall₂_of_parts hfs fun e he f hf => ?_) span span name
    exact ih e he hf (within_part hwithin he)
  | binary span operator l r hl hr =>
    obtain ⟨a, b, ha, hb, hcases⟩ := h.binary
    have hparts := (hl ha (within_part hwithin (by simp [children]))).binary
      (hr hb (within_part hwithin (by simp [children]))) span span operator
    rcases hcases with rfl | ⟨x, y, v, hx, hy, hv, hf⟩
    · exact hparts
    · unfold Simulates at hparts ⊢
      rwa [eval_binary_literals hx hy hv hf] at hparts
  | unary span operator e ih =>
    obtain ⟨a, ha, hcases⟩ := h.unary
    have hpart := (ih ha (within_part hwithin (by simp [children]))).unary
      span span operator
    rcases hcases with rfl | ⟨x, v, hx, hv, hf⟩
    · exact hpart
    · unfold Simulates at hpart ⊢
      rwa [eval_unary_literal hx hv hf] at hpart
  | assign span name e ih =>
    obtain ⟨a, ha, rfl⟩ := h.assign
    refine .assign steady_eq (ih ha (within_part hwithin (by simp [children])))
      ?_ ?_ span span
    · rintro v s _ rfl
      rfl
    · rintro _ s _ rfl
      rfl
  | conditional span c x y hc hx hy =>
    obtain ⟨c', hc', hcases⟩ := h.conditional
    have hcondition := hc hc' (within_part hwithin (by simp [children]))
    have hx' : ∀ {a}, Folds x a → Simulates context strict Eq x a :=
      fun ha => hx ha (within_part hwithin (by simp [children]))
    have hy' : ∀ {b}, Folds y b → Simulates context strict Eq y b :=
      fun hb => hy hb (within_part hwithin (by simp [children]))
    rcases hcases with ⟨htruth, hf⟩ | ⟨htruth, hf⟩ | ⟨a, b, ha, hb, rfl⟩
    · -- The branch that is not taken is evaluated on neither side.
      have hparts := hcondition.conditional (hx' hf) (.refl (y.eval context)) span span
      unfold Simulates at hparts ⊢
      rwa [eval_conditional_literal htruth] at hparts
    · have hparts := hcondition.conditional (.refl (x.eval context)) (hy' hf) span span
      unfold Simulates at hparts ⊢
      rwa [eval_conditional_literal htruth] at hparts
    · exact hcondition.conditional (hx' ha) (hy' hb) span span
  | comprehension span binder i guard b hi hg hb =>
    cases guard with
    | none =>
      obtain ⟨i', b', hi', hb', rfl⟩ := h.comprehension
      exact .comprehension (nested_eq binder)
        (hi hi' (within_part hwithin (by simp [children])))
        (hb hb' (within_part hwithin (by simp [children]))) span span
    | some g =>
      obtain ⟨i', g', b', hi', hg', hb', rfl⟩ := h.guarded
      exact .guarded (nested_eq binder)
        (hi hi' (within_part hwithin (by simp [children])))
        (hg g rfl hg' (within_part hwithin (by simp [children])))
        (hb hb' (within_part hwithin (by simp [children]))) span span
  | index span x y hx hy =>
    obtain ⟨a, b, ha, hb, hcases⟩ := h.index
    have hparts := (hx ha (within_part hwithin (by simp [children]))).index
      (hy hb (within_part hwithin (by simp [children]))) span span
    rcases hcases with rfl | hf
    · exact hparts
    · -- The array that is folded away was an array of the tree.
      refine Tracks.trans hparts (simulates_literalElement? hf fun hstrict length hlength => ?_)
      have hobject : x.Everywhere (ArrayWithin context.limits) :=
        (hwithin hstrict).part (by simp [children])
      exact features_within hobject ((features_fold ha).subset hlength)
  | range span x y inclusive hx hy =>
    obtain ⟨a, b, ha, hb, rfl⟩ := h.range
    exact .range (hx ha (within_part hwithin (by simp [children])))
      (hy hb (within_part hwithin (by simp [children]))) span span inclusive

end Evaluation

/-- The same outcome: the same value, or failures that differ at most in their positions, and in
both cases the same state. -/
def SameOutcome {σ : Type} :
    EStateM.Result Failure (State σ) Value → EStateM.Result Failure (State σ) Value → Prop
  | .ok v s, .ok w t => v = w ∧ s = t
  | .error failure s, .error failure' t => failure.Alike failure' ∧ s = t
  | _, _ => False

/-- Folding constants is exact.  In a context whose limit for arrays is not below the length of any
array literal of a tree, evaluating what the tree folds to and evaluating the tree, from the same
state, have the same outcome: value or failure, calls of the host and bindings in every scope. -/
theorem eval_fold {σ : Type} {context : Context σ} {e f : Expr} {log after : List Event}
    (hfold : e.fold log = .ok f after) (hwithin : e.Everywhere (ArrayWithin context.limits))
    (s : State σ) : SameOutcome (e.eval context s) (f.eval context s) := by
  have hmatched : Matched True Eq (e.eval context s) (f.eval context s) :=
    fold_simulates ⟨log, after, hfold⟩ (fun _ => hwithin) s s rfl
  cases hx : e.eval context s <;> cases hy : f.eval context s <;>
    rw [hx, hy] at hmatched
  · exact hmatched
  · exact hmatched.elim
  · exact hmatched trivial
  · exact hmatched trivial

/-- Joining the second of two literal strings with a name: the string takes the place of the index
access, and the undefined name fails as before. -/
theorem eval_fold_of_index :
    (Expr.binary .none .add (.index .none (.array .none [.string .none "a", .string .none "b"])
      (.number .none 1)) (.identifier .none "x")).fold [] =
        .ok (.binary .none .add (.string .none "b") (.identifier .none "x"))
          [.constantFolded .index none] ∧
    SameOutcome
      ((Expr.binary .none .add (.index .none (.array .none [.string .none "a", .string .none "b"])
        (.number .none 1)) (.identifier .none "x")).eval
          (⟨fun _ => none, [], .standard, none⟩ : Context Unit) ⟨.empty, (), [], []⟩)
      ((Expr.binary .none .add (.string .none "b") (.identifier .none "x")).eval
          (⟨fun _ => none, [], .standard, none⟩ : Context Unit) ⟨.empty, (), [], []⟩) := by
  refine ⟨?fold, eval_fold ?fold ?within _⟩
  case fold => rfl
  case within => simp [Everywhere, nodes_eq, children, ArrayWithin, Limits.standard]

end Expr

end Formulary
