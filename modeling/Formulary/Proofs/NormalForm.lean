import Formulary.Proofs.Discarding

/-!
# Simplified formulas have nothing left to simplify

A node is inert if folding leaves it as it is once its parts are folded, and statements are all
needed if none of them is a dead assignment.  Both are said without running a pass.  Folding gives
trees that are inert everywhere (`Expr.Folds.inert`), dropping dead assignments gives statements
that are all needed (`Expr.needed_of_dropDead`), and each pass leaves such trees and statements
alone.  So simplifying a simplified formula gives the same formula again, spans included, and logs
nothing (`Expr.optimize_optimize`).
-/

set_option autoImplicit false

namespace Formulary.Expr

/-! ## Folded trees -/

/-- What an operation on literals comes to if no literal can take its place: a refusal of the
operands' types, or a value without a literal. -/
def Unfoldable : Except Refusal Value → Prop
  | .ok v => ofLiteral? .none v = none
  | .error (.cause (.typeMismatch ..)) => True
  | .error _ => False

/-- Folding can do nothing with a node whose parts are folded. -/
def Inert : Expr → Prop
  | .binary _ operator left right => ∀ x y, left.literal? = some x → right.literal? = some y →
      Unfoldable (Value.applyBinary .standard operator x y)
  | .unary _ operator (.number _ x) => Unfoldable (Value.applyUnary operator (.number x))
  | .unary _ operator (.boolean _ b) => Unfoldable (Value.applyUnary operator (.boolean b))
  | .conditional _ condition _ _ => literalTruth? condition = none
  | .index span object offset => literalElement? span object offset = none
  | .foreign _ => False
  | _ => True

/-- Folding can do nothing with a literal. -/
theorem inert_of_isLiteral {e : Expr} (h : e.isLiteral = true) : e.Everywhere Inert := by
  rw [everywhere_iff]
  cases e with
  | number | string | boolean => exact ⟨trivial, by simp [children]⟩
  | _ => cases h

section Operations

variable {span : Span} {f : Expr} {log after : List Event}

/-- Whether a value has a literal does not depend on the span. -/
theorem ofLiteral?_eq_none (v : Value) : ofLiteral? span v = none ↔ ofLiteral? .none v = none := by
  cases v with
  | number x =>
    unfold ofLiteral?
    split <;> simp
  | _ => simp [ofLiteral?]

/-- If no literal can take the place of an operation, nothing is folded. -/
theorem foldResult_of_unfoldable {result : Except Refusal Value} (h : Unfoldable result) :
    foldResult span result log = .ok none log := by
  unfold foldResult
  split
  · rename_i v
    rw [(ofLiteral?_eq_none v).mpr h]
    rfl
  · rfl
  · rename_i refusal hother
    cases refusal with
    | fault => exact h.elim
    | cause cause =>
      cases cause with
      | typeMismatch expected actual context => exact (hother expected actual context rfl).elim
      | _ => exact h.elim

/-- If nothing is folded, no literal can take the place of the operation. -/
theorem unfoldable_of_foldResult {result : Except Refusal Value}
    (h : foldResult span result log = .ok none after) : Unfoldable result := by
  unfold foldResult at h
  split at h
  · rename_i v
    obtain ⟨hv, -⟩ := EStateM.Result.ok.inj h
    exact (ofLiteral?_eq_none v).mp hv
  · trivial
  · cases h

/-- If an operation is kept, there was nothing to put in its place. -/
theorem eq_none_of_replaceBy {folded : Option Expr} {event : Event} {kept : Expr}
    (h : replaceBy folded event kept log = .ok kept after) (hne : folded ≠ some kept) :
    folded = none := by
  cases folded with
  | none => rfl
  | some e =>
    obtain ⟨he, -⟩ := EStateM.Result.ok.inj h
    exact absurd (congrArg some he) hne

/-- If an operation is kept, what it comes to has no literal. -/
theorem unfoldable_of_kept {result : Except Refusal Value} {event : Event} {kept : Expr}
    (h : (foldResult span result >>= fun folded => replaceBy folded event kept) log =
      .ok kept after)
    (hkept : kept.isLiteral = false) : Unfoldable result := by
  obtain ⟨folded, mid, hfolded, h⟩ := bind_eq_ok h
  obtain rfl : folded = none := by
    apply eq_none_of_replaceBy h
    rintro rfl
    obtain ⟨v, -, hv⟩ := foldResult_eq_some hfolded
    have hliteral := isLiteral_of_literal? (literal?_of_ofLiteral? hv)
    rw [hkept] at hliteral
    cases hliteral
  exact unfoldable_of_foldResult hfolded

/-- A binary operation that folding can do nothing with is left as it is. -/
theorem foldBinary_of_inert {operator : BinaryOp} {a b : Expr}
    (h : Inert (.binary span operator a b)) :
    foldBinary span operator a b log = .ok (.binary span operator a b) log := by
  unfold foldBinary
  cases hx : a.literal? with
  | none => rfl
  | some x =>
    cases hy : b.literal? with
    | none => rfl
    | some y => exact bind_of_ok (foldResult_of_unfoldable (h x y hx hy)) _

/-- A binary operation folds to a literal, or there is none for it. -/
theorem inert_of_foldBinary {operator : BinaryOp} {a b : Expr} (ha : a.Everywhere Inert)
    (hb : b.Everywhere Inert) (h : foldBinary span operator a b log = .ok f after) :
    f.Everywhere Inert := by
  rcases foldBinary_cases h with rfl | ⟨x, y, v, -, -, -, hf⟩
  · refine (everywhere_iff _).mpr ⟨fun x y hx hy => ?_, by simp [children, ha, hb]⟩
    unfold foldBinary at h
    rw [hx, hy] at h
    exact unfoldable_of_kept h rfl
  · exact inert_of_isLiteral (isLiteral_of_literal? (literal?_of_ofLiteral? hf))

/-- A unary operation that folding can do nothing with is left as it is. -/
theorem foldUnary_of_inert {operator : UnaryOp} {a : Expr} (h : Inert (.unary span operator a)) :
    foldUnary span operator a log = .ok (.unary span operator a) log := by
  cases a with
  | number | boolean => exact bind_of_ok (foldResult_of_unfoldable h) _
  | _ => rfl

/-- A unary operation folds to a literal, or there is none for it. -/
theorem inert_of_foldUnary {operator : UnaryOp} {a : Expr} (ha : a.Everywhere Inert)
    (h : foldUnary span operator a log = .ok f after) : f.Everywhere Inert := by
  rcases foldUnary_cases h with rfl | ⟨x, v, -, -, hf⟩
  · refine (everywhere_iff _).mpr ⟨?_, by simp [children, ha]⟩
    cases a with
    | number | boolean => exact unfoldable_of_kept h rfl
    | _ => trivial
  · exact inert_of_isLiteral (isLiteral_of_literal? (literal?_of_ofLiteral? hf))

/-- An index access folds to a literal, or there is none for it. -/
theorem inert_of_foldIndex {a b : Expr} (ha : a.Everywhere Inert) (hb : b.Everywhere Inert)
    (h : foldIndex span a b log = .ok f after) : f.Everywhere Inert := by
  rcases replaceBy_cases h with rfl | helement
  · refine (everywhere_iff _).mpr ⟨eq_none_of_replaceBy h ?_, by simp [children, ha, hb]⟩
    intro helement
    cases isLiteral_of_literalElement? helement
  · exact inert_of_isLiteral (isLiteral_of_literalElement? helement)

end Operations

/-- What a tree folds to is inert everywhere. -/
theorem Folds.inert {e f : Expr} (h : Folds e f) : f.Everywhere Inert := by
  induction e using byParts generalizing f with
  | number | string | boolean => exact inert_of_isLiteral (h.literal rfl ▸ rfl)
  | identifier =>
    rw [h.identifier]
    exact (everywhere_iff _).mpr ⟨trivial, by simp [children]⟩
  | foreign => exact h.foreign.elim
  | program span es ih =>
    obtain ⟨fs, hfs, rfl⟩ := h.program
    exact (everywhere_iff _).mpr ⟨trivial, forall_mem_of_parts hfs fun e he f hf => ih e he hf⟩
  | array span es ih =>
    obtain ⟨fs, hfs, rfl⟩ := h.array
    exact (everywhere_iff _).mpr ⟨trivial, forall_mem_of_parts hfs fun e he f hf => ih e he hf⟩
  | call span name es ih =>
    obtain ⟨fs, hfs, rfl⟩ := h.call
    exact (everywhere_iff _).mpr ⟨trivial, forall_mem_of_parts hfs fun e he f hf => ih e he hf⟩
  | assign span name e ih =>
    obtain ⟨a, ha, rfl⟩ := h.assign
    exact (everywhere_iff _).mpr ⟨trivial, by simp [children, ih ha]⟩
  | range span x y inclusive hx hy =>
    obtain ⟨a, b, ha, hb, rfl⟩ := h.range
    exact (everywhere_iff _).mpr ⟨trivial, by simp [children, hx ha, hy hb]⟩
  | comprehension span binder i guard b hi hg hb =>
    cases guard with
    | none =>
      obtain ⟨i', b', hi', hb', rfl⟩ := h.comprehension
      exact (everywhere_iff _).mpr ⟨trivial, by simp [children, hi hi', hb hb']⟩
    | some g =>
      obtain ⟨i', g', b', hi', hg', hb', rfl⟩ := h.guarded
      exact (everywhere_iff _).mpr ⟨trivial, by simp [children, hi hi', hg g rfl hg', hb hb']⟩
  | binary span operator l r hl hr =>
    obtain ⟨log, after, h⟩ := h
    obtain ⟨a, mid, ha, h⟩ := bind_eq_ok h
    obtain ⟨b, mid', hb, h⟩ := bind_eq_ok h
    exact inert_of_foldBinary (hl ⟨log, mid, ha⟩) (hr ⟨mid, mid', hb⟩) h
  | unary span operator e ih =>
    obtain ⟨log, after, h⟩ := h
    obtain ⟨a, mid, ha, h⟩ := bind_eq_ok h
    exact inert_of_foldUnary (ih ⟨log, mid, ha⟩) h
  | index span x y hx hy =>
    obtain ⟨log, after, h⟩ := h
    obtain ⟨a, mid, ha, h⟩ := bind_eq_ok h
    obtain ⟨b, mid', hb, h⟩ := bind_eq_ok h
    exact inert_of_foldIndex (hx ⟨log, mid, ha⟩) (hy ⟨mid, mid', hb⟩) h
  | conditional span c x y hc hx hy =>
    obtain ⟨log, after, h⟩ := h
    obtain ⟨c', mid, hc', h⟩ := bind_eq_ok h
    -- A choice is kept only if its condition has not become a literal; else it is what its branch
    -- folds to.
    cases htruth : literalTruth? c' with
    | none =>
      rw [htruth] at h
      obtain ⟨a, mid', ha, h⟩ := bind_eq_ok h
      obtain ⟨b, mid'', hb, h⟩ := bind_eq_ok h
      cases h
      refine (everywhere_iff _).mpr ⟨htruth, ?_⟩
      simp [children, hc ⟨log, mid, hc'⟩, hx ⟨mid, mid', ha⟩, hy ⟨mid', _, hb⟩]
    | some holds =>
      rw [htruth] at h
      cases holds with
      | true =>
        obtain ⟨_, mid', -, h⟩ := bind_eq_ok h
        exact hx ⟨mid', after, h⟩
      | false =>
        obtain ⟨_, mid', -, h⟩ := bind_eq_ok h
        exact hy ⟨mid', after, h⟩

/-- Trees that fold to themselves do so together. -/
theorem foldAll_of_fixed {es : List Expr} (h : ∀ e ∈ es, ∀ log, fold e log = .ok e log)
    (log : List Event) :
    foldAll es log = .ok es log := by
  induction es with
  | nil => rfl
  | cons e es ih =>
    simp only [List.forall_mem_cons] at h
    rw [foldAll, bind_of_ok (h.1 log), bind_of_ok (ih h.2)]
    rfl

/-- A tree that is inert everywhere folds to itself, and nothing is logged. -/
theorem fold_of_inert {e : Expr} (h : e.Everywhere Inert) (log : List Event) :
    fold e log = .ok e log := by
  induction e using byParts generalizing log with
  | number | string | boolean | identifier => rfl
  | foreign => exact h.root.elim
  | program span es ih | array span es ih | call span name es ih =>
    rw [fold, bind_of_ok (foldAll_of_fixed (fun e he => ih e he (h.part he)) log)]
    rfl
  | assign span name e ih =>
    rw [fold, bind_of_ok (ih (h.part (by simp [children])) log)]
    rfl
  | range span x y inclusive hx hy =>
    rw [fold, bind_of_ok (hx (h.part (by simp [children])) log),
      bind_of_ok (hy (h.part (by simp [children])) log)]
    rfl
  | comprehension span binder i guard b hi hg hb =>
    have hiterable := hi (h.part (by simp [children])) log
    have hbody := hb (h.part (by simp [children])) log
    cases guard with
    | none =>
      rw [fold, bind_of_ok hiterable, bind_of_ok hbody]
      rfl
    | some g =>
      rw [fold, bind_of_ok hiterable, bind_of_ok (hg g rfl (h.part (by simp [children])) log),
        bind_of_ok hbody]
      rfl
  | binary span operator l r hl hr =>
    rw [fold, bind_of_ok (hl (h.part (by simp [children])) log),
      bind_of_ok (hr (h.part (by simp [children])) log)]
    exact foldBinary_of_inert h.root
  | unary span operator e ih =>
    rw [fold, bind_of_ok (ih (h.part (by simp [children])) log)]
    exact foldUnary_of_inert h.root
  | index span x y hx hy =>
    rw [fold, bind_of_ok (hx (h.part (by simp [children])) log),
      bind_of_ok (hy (h.part (by simp [children])) log)]
    have hnone : literalElement? span x y = none := h.root
    rw [foldIndex, hnone]
    rfl
  | conditional span c x y hc hx hy =>
    have htruth : literalTruth? c = none := h.root
    rw [fold, bind_of_ok (hc (h.part (by simp [children])) log), htruth]
    dsimp only
    rw [bind_of_ok (hx (h.part (by simp [children])) log),
      bind_of_ok (hy (h.part (by simp [children])) log)]
    rfl

/-! ## Needed statements -/

/-- No statement in front of the last is an assignment without effects that the statements behind it
do not read. -/
def Needed : List Expr → Prop
  | [] | [_] => True
  | e :: es => dead? (es.flatMap references) e = none ∧ Needed es

/-- What is kept of some statements is needed. -/
theorem needed_of_dropDead {es kept : List Expr} {live : List String} {log after : List Event}
    (h : dropDead es log = .ok (kept, live) after) : Needed kept := by
  induction es generalizing kept live log after with
  | nil =>
    cases h
    trivial
  | cons e es ih =>
    cases es with
    | nil =>
      cases h
      trivial
    | cons e' es =>
      obtain ⟨kept', live', mid, hrest, hcases⟩ := dropDead_cons h
      -- What is live behind the statement is what the statements kept behind it read, no more and
      -- no less.
      obtain ⟨-, rfl⟩ := dropDead_kept hrest
      rcases hcases with ⟨rfl, -, hdead⟩ | ⟨rfl, -⟩
      · cases kept' with
        | nil => trivial
        | cons => exact ⟨hdead, ih hrest⟩
      · exact ih hrest

/-- Statements that are all needed are all kept, and nothing is logged. -/
theorem dropDead_of_needed {es : List Expr} (h : Needed es) (log : List Event) :
    dropDead es log = .ok (es, es.flatMap references) log := by
  induction es with
  | nil => rfl
  | cons e es ih =>
    cases es with
    | nil =>
      rw [List.flatMap_singleton]
      rfl
    | cons e' es => exact dropDead_of_live (ih h.2) h.1

/-! ## Both steps -/

/-- Simplification without names can do nothing with a tree. -/
def Simplest (e : Expr) : Prop :=
  e.Everywhere Inert ∧ ∀ span es, e = .program span es → es.length ≠ 1 ∧ Needed es

/-- Such a tree is simplified to itself, and nothing is logged. -/
theorem optimize_of_simplest {e : Expr} (h : e.Simplest) (log : List Event) :
    optimize e none log = .ok e log := by
  rw [optimize, bind_of_ok (fold_of_inert h.1 log)]
  cases e with
  | program span es =>
    obtain ⟨hlength, hneeded⟩ := h.2 span es rfl
    have hkept : (dropDead es >>= fun kept => pure (ofStatements span kept.1)) log =
        .ok (ofStatements span es) log := bind_of_ok (dropDead_of_needed hneeded log) _
    refine Eq.trans hkept ?_
    rcases es with _ | ⟨e, _ | ⟨e', es⟩⟩
    · rfl
    · exact absurd rfl hlength
    · rfl
  | _ => rfl

/-- Statements that are inert and needed, none of them a program, make a simplest tree. -/
theorem simplest_ofStatements {span : Span} {es : List Expr} (hinert : ∀ e ∈ es, e.Everywhere Inert)
    (hne : ∀ e ∈ es, ∀ span' es', e ≠ .program span' es') (hneeded : Needed es) :
    (ofStatements span es).Simplest := by
  have hprogram : (Expr.program span es).Everywhere Inert :=
    (everywhere_iff _).mpr ⟨trivial, hinert⟩
  rcases es with _ | ⟨e, _ | ⟨e', es⟩⟩
  · refine ⟨hprogram, ?_⟩
    rintro _ _ ⟨⟩
    exact ⟨by simp, hneeded⟩
  · have hmem : e ∈ [e] := List.mem_singleton_self e
    exact ⟨hinert e hmem, fun span' es' heq => absurd heq (hne e hmem span' es')⟩
  · refine ⟨hprogram, ?_⟩
    rintro _ _ ⟨⟩
    exact ⟨by simp, hneeded⟩

/-- A simplified tree is a simplest one. -/
theorem simplest_of_optimize {t o : Expr} {log after : List Event}
    (h : optimize t none log = .ok o after) (hprograms : t.ProgramsAtRoot) : o.Simplest := by
  obtain ⟨folded, hfolds, ⟨hother, rfl⟩ | ⟨span, fs, kept, live, mid, mid', rfl, rfl, hkept⟩⟩ :=
    optimize_none_cases h
  · exact ⟨hfolds.inert, fun span es heq => absurd heq (hother span es)⟩
  · -- A statement that is left alone takes the place of the program, and must not be a program
    -- itself.
    obtain ⟨es, rfl, hparts⟩ := hfolds.of_program hprograms
    have hne : ∀ f ∈ fs, ∀ span' es', f ≠ .program span' es' :=
      forall_mem_of_parts hparts fun e he f hf => hf.ne_program (hprograms e he)
    have hsublist := (dropDead_kept hkept).1
    apply simplest_ofStatements
    · exact fun f hf => hfolds.inert.part (hsublist.subset hf)
    · exact fun f hf => hne f (hsublist.subset hf)
    · exact needed_of_dropDead hkept

/-- Simplification without names is done once: a tree that it returns is simplified to the very same
tree, and nothing is logged. -/
theorem optimize_optimize {t o : Expr} {log after : List Event}
    (h : optimize t none log = .ok o after) (hprograms : t.ProgramsAtRoot) (log' : List Event) :
    optimize o none log' = .ok o log' :=
  optimize_of_simplest (simplest_of_optimize h hprograms) log'

section Example

/-- An assignment that nothing reads, and one whose value is a choice and an element. -/
def settlingFormula : Expr :=
  .program .none [.assign .none "x" (.string .none "a"),
    .assign .none "y" (.conditional .none (.boolean .none true)
      (.index .none (.array .none [.string .none "u", .string .none "v"]) (.number .none 1.0))
      (.identifier .none "z")),
    .binary .none .add (.identifier .none "y") (.identifier .none "w")]

/-- What is left of them. -/
def settledStatements : List Expr :=
  [.assign .none "y" (.string .none "v"), .binary .none .add (.identifier .none "y")
    (.identifier .none "w")]

/-- The first simplification folds the choice and the element, and leaves out what nothing reads. -/
theorem optimize_settlingFormula :
    optimize settlingFormula none [] = .ok (.program .none settledStatements)
      [.deadAssignmentEliminated "x", .constantFolded .index none,
        .constantFolded .conditional none] := by
  have hreads : settledStatements.flatMap references = ["y", "w"] := by
    simp [settledStatements, references, nodes_eq, children, reference?, List.filterMap_cons]
  have hneeded : Needed settledStatements := by
    refine ⟨?_, trivial⟩
    simp [dead?, references, nodes_eq, children, reference?, List.filterMap_cons]
  have hdead : dead? ["y", "w"] (.assign .none "x" (.string .none "a")) = some "x" := by
    simp [dead?, hasEffects, nodes_eq, children, isEffect]
  have hdrop : ∀ log, dropDead (.assign .none "x" (.string .none "a") :: settledStatements) log =
      .ok (settledStatements, ["y", "w"]) (.deadAssignmentEliminated "x" :: log) := by
    intro log
    rw [dropDead]
    · rw [bind_of_ok (dropDead_of_needed hneeded log), hreads]
      simp only [hdead]
      rfl
    · simp [settledStatements]
  rw [optimize]
  show (dropDead (.assign .none "x" (.string .none "a") :: settledStatements) >>=
    fun kept => pure (ofStatements _ kept.1))
      [.constantFolded .index none, .constantFolded .conditional none] = _
  rw [bind_of_ok (hdrop _)]
  rfl

/-- A second simplification does nothing and writes nothing down. -/
theorem optimize_optimize_settled :
    settlingFormula.ProgramsAtRoot ∧
    optimize settlingFormula none [] = .ok (.program .none settledStatements)
      [.deadAssignmentEliminated "x", .constantFolded .index none,
        .constantFolded .conditional none] ∧
    optimize (.program .none settledStatements) none [] =
      .ok (.program .none settledStatements) [] := by
  have hprograms : settlingFormula.ProgramsAtRoot := by
    intro part hpart
    simp only [settlingFormula, children, List.mem_cons, List.not_mem_nil, or_false] at hpart
    rcases hpart with rfl | rfl | rfl <;> simp [Everywhere, nodes_eq, children]
  exact ⟨hprograms, optimize_settlingFormula, optimize_optimize optimize_settlingFormula
    hprograms []⟩

end Example

end Formulary.Expr
