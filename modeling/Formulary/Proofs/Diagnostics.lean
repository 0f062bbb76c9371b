import Formulary.Proofs.Course
import Formulary.Proofs.Optimizing

/-!
# Errors point at nodes

An error of evaluation is placed at the span of a node of the tree that is evaluated.  Every
operation that can refuse its operands is put at the site of its node, and an error that a host
raises without a position is put at the site of the call, so pointing at one of the tree's spans is
kept by evaluation (`Expr.eval_pointsAt`).  Simplifying a tree makes nodes only with spans that the
tree has, and fails only at such spans (`Expr.optimize_gives`), so the same is true of the errors of
the simplified tree.

Both arguments are made for any set of spans that holds the spans of all nodes.
-/

set_option autoImplicit false

namespace Formulary

variable {σ : Type}

/-- A failure that is no error of evaluation, or is placed at one of several spans. -/
def Failure.PointsAt (place : Span → Site) (spans : Span → Prop) (failure : Failure) : Prop :=
  ∀ e, failure = .error e → e.cause.isEvaluation = true → ∃ span, spans span ∧ e.site = place span

/-- All nodes of a tree have one of several spans. -/
def Expr.Spanned (spans : Span → Prop) (e : Expr) : Prop :=
  e.Everywhere fun node => spans node.span

/-- The functions of the host raise errors without a position only. -/
def Context.RaisesUnplaced (context : Context σ) : Prop :=
  ∀ name run, context.callee? name = some (.function run) →
    ∀ args host e, (run args host).1 = .raised e → e.site.position = none

section Failures

variable {place : Span → Site} {spans : Span → Prop}

/-- A fault is no error of evaluation, so that it need not be placed. -/
theorem Failure.pointsAt_fault (fault : Fault) : (Failure.fault fault).PointsAt place spans := by
  rintro e ⟨⟩

/-- A cause that is placed at one of the spans points at them. -/
theorem Cause.pointsAt (cause : Cause) {span : Span} (h : spans span) :
    (Failure.error (cause.atSite (place span))).PointsAt place spans := by
  rintro e ⟨⟩ hevaluation
  refine ⟨span, h, ?_⟩
  cases cause with
  | limitExceeded => cases hevaluation
  | _ => rfl

/-- A refusal that is placed at one of the spans points at them. -/
theorem Refusal.pointsAt (refusal : Refusal) {span : Span} (h : spans span) :
    (refusal.atSite (place span)).PointsAt place spans := by
  cases refusal with
  | cause cause => exact cause.pointsAt h
  | fault fault => exact Failure.pointsAt_fault fault

/-- A host's error without a position is put at the site of the call. -/
theorem Error.pointsAt_of_unplaced {e : Error} (hposition : e.site.position = none) {span : Span}
    (h : spans span) : (Failure.error (e.locatedAt (place span))).PointsAt place spans := by
  unfold Error.locatedAt
  rw [hposition]
  rintro e' ⟨⟩ _
  exact ⟨span, h, rfl⟩

end Failures

/-! ## Evaluation -/

namespace Expr

open Run

/-- A tree is a node of itself. -/
theorem mem_nodes_self (e : Expr) : e ∈ e.nodes := by
  rw [nodes_eq]
  exact List.mem_cons_self

/-- A part of a node of a tree is a node of the tree. -/
theorem mem_nodes_of_part {e node part : Expr} (hnode : node ∈ e.nodes)
    (hpart : part ∈ node.children) :
    part ∈ e.nodes := by
  rw [nodes_eq] at hnode ⊢
  rcases List.mem_cons.mp hnode with rfl | hnode
  · exact List.mem_cons_of_mem _ (List.mem_flatMap.mpr ⟨part, hpart, mem_nodes_self part⟩)
  · obtain ⟨child, hchild, hnode⟩ := List.mem_flatMap.mp hnode
    exact List.mem_cons_of_mem _ (List.mem_flatMap.mpr
      ⟨child, hchild, mem_nodes_of_part hnode hpart⟩)
termination_by e.weight
decreasing_by exact weight_lt_of_mem_children hchild

/-- The regime of failures that point at one of several spans. -/
def pointing (context : Context σ) (spans : Span → Prop) : Regime σ where
  state _ := True
  inside _ := True
  value _ := True
  failure := Failure.PointsAt context.siteOf spans

section Regimes

variable {context : Context σ} {spans : Span → Prop}

/-- Where any value will do, a result that is placed at one of the spans is settled. -/
theorem settled_pointsAt {α : Type} {Good : α → Prop} (hgood : ∀ a, Good a) {span : Span}
    (h : spans span) (result : Except Refusal α) :
    Settled Good (Failure.PointsAt context.siteOf spans) (context.siteOf span) result := by
  cases result with
  | ok a => exact hgood a
  | error refusal => exact refusal.pointsAt h

/-- An array over its limit fails by no error of evaluation. -/
theorem settled_withinLimit {Good : Unit → Prop} (hgood : Good ()) (limits : Limits)
    (kind : LimitKind) (amount : Int) :
    Settled Good (Failure.PointsAt context.siteOf spans) .unknown
      (Value.withinLimit limits kind amount) := by
  unfold Value.withinLimit Limits.check
  split
  · rintro e ⟨⟩ hevaluation
    cases hevaluation
  · exact hgood

/-- If a node and its parts have spans among the given ones, the node's own step fails at one of
them. -/
theorem safeAt_pointing (hhost : context.RaisesUnplaced) {node : Expr} (hspan : spans node.span)
    (hparts : ∀ part ∈ node.children, spans part.span) :
    SafeAt context (pointing context spans) node := by
  have hvalue : ∀ v : Value, (pointing context spans).value v := fun _ => trivial
  cases node with
  | program | number | string | boolean => trivial
  | foreign item => exact Failure.pointsAt_fault _
  | identifier span name =>
    intro s _
    cases s.scope.lookup? name with
    | some v => trivial
    | none => exact Cause.pointsAt _ hspan
  | array span es => exact fun _ _ => settled_withinLimit trivial _ _ _
  | unary span => exact fun _ _ => settled_pointsAt hvalue hspan _
  | call span name args =>
    refine ⟨fun _ => Cause.pointsAt _ hspan, fun run hrun args _ => ?_⟩
    exact .invoke (fun _ _ hs => hs) (fun _ _ hs => hs) (fun _ _ _ _ _ => trivial)
      (fun host e he => Error.pointsAt_of_unplaced (hhost name run hrun args host e he) hspan)
      fun _ => Cause.pointsAt _ hspan
  | assign span name value => exact ⟨fun _ _ _ => ⟨trivial, trivial⟩, fun _ _ _ _ _ => trivial⟩
  | conditional span => exact fun _ _ => settled_pointsAt (fun _ => trivial) hspan _
  | comprehension span binder iterable guard body =>
    exact {
      items := fun _ _ => settled_pointsAt (fun _ _ _ => trivial) hspan _
      enter := fun _ _ _ _ => trivial
      leave := fun _ _ _ _ => trivial
      guard := fun g hg _ _ =>
        settled_pointsAt (fun _ => trivial) (hparts g (by simp [children, Option.mem_def.mp hg])) _
      list := fun _ _ => settled_withinLimit trivial _ _ _ }
  | binary span | index span | range span => exact fun _ _ _ _ => settled_pointsAt hvalue hspan _

/-- Where the spans of all nodes are among those given, evaluation fails only at those. -/
theorem eval_pointsAt (hhost : context.RaisesUnplaced) {t : Expr} (ht : t.Spanned spans)
    {s after : State σ} {failure : Failure} (h : t.eval context s = .error failure after) :
    failure.PointsAt context.siteOf spans := by
  have hsafe : t.Everywhere (SafeAt context (pointing context spans)) := fun node hnode =>
    safeAt_pointing hhost (ht node hnode) fun part hpart => ht part (mem_nodes_of_part hnode hpart)
  have hkeeps : Keeps (fun _ => True) (fun _ => True) (Failure.PointsAt context.siteOf spans)
      (t.eval context) := @eval_keeps_uniform σ context (pointing context spans) rfl t hsafe
  have hkept := hkeeps s trivial
  rw [h] at hkept
  exact hkept.1

end Regimes

end Expr

/-! ## Simplification -/

/-- The site of a span in a formula whose source is not known. -/
def Span.site (span : Span) : Site :=
  ⟨some span.start, Option.none, some span.stop⟩

/-- A simplification gives what is expected, or fails at one of several spans. -/
def Simplify.Gives {α : Type} (spans : Span → Prop) (good : α → Prop) (x : Simplify α) : Prop :=
  ∀ log, match x log with
    | .ok a _ => good a
    | .error failure _ => failure.PointsAt Span.site spans

namespace Simplify.Gives

variable {α β : Type} {spans : Span → Prop} {good : α → Prop}

/-- A simplification that returns what is expected gives it. -/
theorem pure {a : α} (h : good a) : Gives spans good (pure a : Simplify α) :=
  fun _ => h

/-- A simplification that fails at one of the spans gives what is expected otherwise. -/
theorem throw {failure : Failure} (h : failure.PointsAt Span.site spans) :
    Gives spans good (throw failure : Simplify α) :=
  fun _ => h

/-- Writing an event down never fails. -/
theorem emit (event : Event) : Gives spans (fun _ => True) (Simplify.emit event) :=
  fun _ => trivial

/-- A simplification goes on from what is expected to what is expected next. -/
theorem bind {good' : β → Prop} {x : Simplify α} {k : α → Simplify β} (hx : Gives spans good x)
    (hk : ∀ a, good a → Gives spans good' (k a)) : Gives spans good' (x >>= k) := by
  intro log
  have hfirst := hx log
  cases hrun : x log with
  | ok a after =>
    rw [hrun] at hfirst
    rw [bind_of_ok hrun]
    exact hk a hfirst after
  | error failure after =>
    rw [hrun] at hfirst
    rw [bind_of_error hrun]
    exact hfirst

end Simplify.Gives

namespace Expr

open Simplify (Gives)

variable {spans : Span → Prop}

/-- A tree has spans among the given ones if its root and its parts do. -/
theorem Spanned.node {e : Expr} (hspan : spans e.span)
    (hparts : ∀ part ∈ e.children, part.Spanned spans) :
    e.Spanned spans :=
  (everywhere_iff e).mpr ⟨hspan, hparts⟩

/-- The root of a tree has one of the spans. -/
theorem Spanned.root {e : Expr} (h : e.Spanned spans) : spans e.span :=
  Everywhere.root h

/-- The parts of a tree have spans among those of the tree. -/
theorem Spanned.part {e part : Expr} (h : e.Spanned spans) (hpart : part ∈ e.children) :
    part.Spanned spans :=
  Everywhere.part h hpart

/-- A literal for a value has the span that it is given. -/
theorem spanned_ofLiteral? {span : Span} (hspan : spans span) (v : Value) :
    ∀ f ∈ ofLiteral? span v, f.Spanned spans := by
  intro f hf
  have hleaf : f.span = span ∧ f.children = [] := by
    unfold ofLiteral? at hf
    split at hf
    · obtain rfl := Option.some.inj hf
      exact ⟨rfl, rfl⟩
    · split at hf
      · cases hf
      · obtain rfl := Option.some.inj hf
        exact ⟨rfl, rfl⟩
    · obtain rfl := Option.some.inj hf
      exact ⟨rfl, rfl⟩
    · cases hf
  refine .node (hleaf.1 ▸ hspan) ?_
  rw [hleaf.2]
  simp

/-- Folding a result to a literal gives it the span of its operation. -/
theorem foldResult_gives {span : Span} (hspan : spans span) (result : Except Refusal Value) :
    Gives spans (fun folded => ∀ f ∈ folded, f.Spanned spans) (foldResult span result) := by
  unfold foldResult
  split
  · exact .pure (spanned_ofLiteral? hspan _)
  · exact .pure (by simp)
  · exact .throw (@Refusal.pointsAt Span.site spans _ span hspan)

/-- Replacing a tree by what it is folded to keeps to the spans. -/
theorem replaceBy_gives {folded : Option Expr} (hfolded : ∀ f ∈ folded, f.Spanned spans)
    (event : Event) {kept : Expr} (hkept : kept.Spanned spans) :
    Gives spans (Spanned spans) (replaceBy folded event kept) := by
  unfold replaceBy
  cases folded with
  | none => exact .pure hkept
  | some f => exact (Gives.emit event).bind fun _ _ => .pure (hfolded f rfl)

/-- Folding a binary operation keeps to the spans. -/
theorem foldBinary_gives {span : Span} (hspan : spans span) (operator : BinaryOp) {a b : Expr}
    (ha : a.Spanned spans) (hb : b.Spanned spans) :
    Gives spans (Spanned spans) (foldBinary span operator a b) := by
  have hkept : (Expr.binary span operator a b).Spanned spans :=
    .node hspan (by simp [children, ha, hb])
  unfold foldBinary
  dsimp only
  split
  · exact (foldResult_gives hspan _).bind fun folded hfolded => replaceBy_gives hfolded _ hkept
  · exact fun _ => hkept

/-- Folding a unary operation keeps to the spans. -/
theorem foldUnary_gives {span : Span} (hspan : spans span) (operator : UnaryOp) {a : Expr}
    (ha : a.Spanned spans) : Gives spans (Spanned spans) (foldUnary span operator a) := by
  have hkept : (Expr.unary span operator a).Spanned spans := .node hspan (by simp [children, ha])
  unfold foldUnary
  dsimp only
  split
  · exact (foldResult_gives hspan _).bind fun folded hfolded => replaceBy_gives hfolded _ hkept
  · exact (foldResult_gives hspan _).bind fun folded hfolded => replaceBy_gives hfolded _ hkept
  · exact fun _ => hkept

/-- An element that is read off an array keeps its own span; a character of a string gets that of
the access. -/
theorem spanned_literalElement? {span : Span} (hspan : spans span) {a : Expr} (ha : a.Spanned spans)
    (b : Expr) :
    ∀ f ∈ literalElement? span a b, f.Spanned spans := by
  intro f hf
  unfold literalElement? at hf
  split at hf
  · split at hf
    · obtain rfl := Option.some.inj hf
      exact .node hspan (by simp [children])
    · cases hf
  · split at hf
    · split at hf
      · split at hf
        · exact ha.part (List.mem_of_getElem? hf)
        · cases hf
      · cases hf
    · cases hf
  · cases hf

/-- Folding several trees keeps to the spans if folding each of them does. -/
theorem foldAll_gives {es : List Expr} (h : ∀ e ∈ es, Gives spans (Spanned spans) (fold e)) :
    Gives spans (fun fs => ∀ f ∈ fs, f.Spanned spans) (foldAll es) := by
  induction es with
  | nil =>
    rw [foldAll]
    exact .pure (by simp)
  | cons e es ih =>
    rw [foldAll]
    refine (h e List.mem_cons_self).bind fun f hf => ?_
    refine (ih fun e he => h e (List.mem_cons_of_mem _ he)).bind fun fs hfs => .pure ?_
    exact List.forall_mem_cons.mpr ⟨hf, hfs⟩

/-- Folding makes nodes with spans of the tree only, and fails at such spans only. -/
theorem fold_gives {e : Expr} (h : e.Spanned spans) : Gives spans (Spanned spans) (fold e) := by
  induction e using byParts with
  | number | string | boolean | identifier =>
    rw [fold]
    exact .pure h
  | foreign item =>
    rw [fold]
    exact .throw (Failure.pointsAt_fault _)
  | program span es ih | array span es ih | call span name es ih =>
    rw [fold]
    refine (foldAll_gives fun e he => ih e he (h.part he)).bind fun fs hfs => ?_
    exact .pure (.node h.root hfs)
  | assign span name value ih =>
    have hvalue : value.Spanned spans := h.part (by simp [children])
    rw [fold]
    exact (ih hvalue).bind fun a ha => .pure (.node h.root (by simp [children, ha]))
  | unary span operator x ih =>
    have hx : x.Spanned spans := h.part (by simp [children])
    rw [fold]
    exact (ih hx).bind fun a ha => foldUnary_gives h.root operator ha
  | binary span operator x y ihx ihy =>
    have hx : x.Spanned spans := h.part (by simp [children])
    have hy : y.Spanned spans := h.part (by simp [children])
    rw [fold]
    refine (ihx hx).bind fun a ha => (ihy hy).bind fun b hb => ?_
    exact foldBinary_gives h.root operator ha hb
  | index span x y ihx ihy =>
    have hx : x.Spanned spans := h.part (by simp [children])
    have hy : y.Spanned spans := h.part (by simp [children])
    rw [fold]
    refine (ihx hx).bind fun a ha => (ihy hy).bind fun b hb => ?_
    exact replaceBy_gives (spanned_literalElement? h.root ha b) _ (.node h.root
      (by simp [children, ha, hb]))
  | range span x y inclusive ihx ihy =>
    have hx : x.Spanned spans := h.part (by simp [children])
    have hy : y.Spanned spans := h.part (by simp [children])
    rw [fold]
    refine (ihx hx).bind fun a ha => (ihy hy).bind fun b hb => ?_
    exact .pure (.node h.root (by simp [children, ha, hb]))
  | conditional span c x y ihc ihx ihy =>
    have hc : c.Spanned spans := h.part (by simp [children])
    have hx : x.Spanned spans := h.part (by simp [children])
    have hy : y.Spanned spans := h.part (by simp [children])
    rw [fold]
    refine (ihc hc).bind fun c' hc' => ?_
    cases literalTruth? c' with
    | none =>
      refine (ihx hx).bind fun a ha => (ihy hy).bind fun b hb => ?_
      exact .pure (.node h.root (by simp [children, hc', ha, hb]))
    | some holds =>
      -- The branch takes the place of the conditional, whose own span is lost with it.
      cases holds with
      | true => exact (Gives.emit _).bind fun _ _ => ihx hx
      | false => exact (Gives.emit _).bind fun _ _ => ihy hy
  | comprehension span binder i guard body ihi ihg ihb =>
    have hi : i.Spanned spans := h.part (by simp [children])
    have hb : body.Spanned spans := h.part (by simp [children])
    cases guard with
    | none =>
      rw [fold]
      refine (ihi hi).bind fun a ha => (ihb hb).bind fun b hb => ?_
      exact .pure (.node h.root (by simp [children, ha, hb]))
    | some g =>
      have hg : g.Spanned spans := h.part (by simp [children])
      rw [fold]
      refine (ihi hi).bind fun a ha => (ihg g rfl hg).bind fun c hc => ?_
      exact (ihb hb).bind fun b hb => .pure (.node h.root (by simp [children, ha, hb, hc]))

/-- A tree that takes the place of a name brings its own spans. -/
theorem spanned_substitute {name : String} {replacement e : Expr}
    (hreplacement : replacement.Spanned spans) (h : e.Spanned spans) :
    (substitute name replacement e).Spanned spans := by
  revert h
  refine substitute_byNodes ?_ ?_ e
  · exact fun _ _ => hreplacement
  · intro e f _ hspan hparts h
    refine .node (hspan ▸ h.root) ?_
    exact forall_mem_of_parts hparts fun part hpart g hg => hg (h.part hpart)

/-- Putting a literal into statements keeps to their spans and its own. -/
theorem propagateInto_gives {name : String} {literal : Expr} (hliteral : literal.Spanned spans)
    {es : List Expr} (h : ∀ e ∈ es, e.Spanned spans) :
    Gives spans (fun fs => ∀ f ∈ fs, f.Spanned spans) (propagateInto name literal es) := by
  rw [propagateInto_eq]
  exact foldAll_gives (List.forall_mem_map.mpr fun e he =>
    fold_gives (spanned_substitute hliteral (h e he)))

/-- Propagating literals through statements keeps to their spans. -/
theorem propagateFrom_gives {allowed : String → Bool} (count : Nat) {es : List Expr}
    (h : ∀ e ∈ es, e.Spanned spans) :
    Gives spans (fun fs => ∀ f ∈ fs, f.Spanned spans) (propagateFrom allowed count es) := by
  induction count generalizing es with
  | zero => exact .pure h
  | succ count ih =>
    cases es with
    | nil => exact .pure h
    | cons e es =>
      obtain ⟨he, hes⟩ := List.forall_mem_cons.mp h
      have hrest : ∀ {later : List Expr}, (∀ e ∈ later, e.Spanned spans) →
          Gives spans (fun fs => ∀ f ∈ fs, f.Spanned spans) (do
            let rest ← propagateFrom allowed count later
            pure (e :: rest)) :=
        fun hlater => (ih hlater).bind fun fs hfs => .pure (List.forall_mem_cons.mpr ⟨he, hfs⟩)
      rw [propagateFrom]
      dsimp only
      split
      · rename_i name literal hpropagatable
        obtain ⟨span, rfl, -⟩ := propagatable?_eq_some hpropagatable
        have hliteral : literal.Spanned spans := he.part (by simp [children])
        refine (Gives.emit _).bind fun _ _ => ?_
        exact (propagateInto_gives hliteral hes).bind fun later hlater => hrest hlater
      · exact hrest hes

/-- The statements that are kept are among those that there were. -/
theorem dropDead_gives {es : List Expr} (h : ∀ e ∈ es, e.Spanned spans) :
    Gives spans (fun kept => ∀ e ∈ kept.1, e.Spanned spans) (dropDead es) := by
  match es with
  | [] => exact .pure h
  | [last] => exact .pure h
  | e :: e' :: es =>
    obtain ⟨he, hes⟩ := List.forall_mem_cons.mp h
    rw [dropDead]
    · refine (dropDead_gives hes).bind fun kept hkept => ?_
      dsimp only
      split
      · exact (Gives.emit _).bind fun _ _ => .pure hkept
      · exact .pure (List.forall_mem_cons.mpr ⟨he, hkept⟩)
    · simp

/-- The tree of several statements has their spans and its own. -/
theorem spanned_ofStatements {span : Span} (hspan : spans span) {es : List Expr}
    (h : ∀ e ∈ es, e.Spanned spans) : (ofStatements span es).Spanned spans := by
  match es with
  | [single] => exact h single List.mem_cons_self
  | [] | _ :: _ :: _ => exact .node hspan h

/-- Simplifying makes nodes with spans of the tree only, and fails at such spans only. -/
theorem optimize_gives {e : Expr} (h : e.Spanned spans) (external : Option (List String)) :
    Gives spans (Spanned spans) (optimize e external) := by
  refine (fold_gives h).bind fun folded hfolded => ?_
  cases folded with
  | program span es =>
    have hrest : ∀ {propagated : List Expr}, (∀ e ∈ propagated, e.Spanned spans) →
        Gives spans (Spanned spans)
          (dropDead propagated >>= fun kept => pure (ofStatements span kept.1)) :=
      fun hpropagated => (dropDead_gives hpropagated).bind fun kept hkept =>
        .pure (spanned_ofStatements hfolded.root hkept)
    cases external with
    | none => exact hrest fun e he => hfolded.part he
    | some names =>
      exact (propagateFrom_gives _ fun e he => hfolded.part he).bind fun propagated hpropagated =>
        hrest hpropagated
  | _ => exact .pure hfolded

/-! ## Trees and their own spans -/

/-- One of the spans of a tree. -/
def HasSpan (t : Expr) (span : Span) : Prop :=
  ∃ node ∈ t.nodes, span = node.span

/-- All nodes of a tree have one of its spans. -/
theorem spanned_hasSpan (t : Expr) : t.Spanned t.HasSpan :=
  fun node hnode => ⟨node, hnode, rfl⟩

/-- An error of evaluation that points at the spans of a tree is placed at one of its nodes. -/
theorem exists_node_of_pointsAt {place : Span → Site} {t : Expr} {e : Error}
    (h : (Failure.error e).PointsAt place t.HasSpan) (hevaluation : e.cause.isEvaluation = true) :
    ∃ node ∈ t.nodes, e.site = place node.span := by
  obtain ⟨span, ⟨node, hnode, rfl⟩, hsite⟩ := h e rfl hevaluation
  exact ⟨node, hnode, hsite⟩

/-- If the host raises errors without a position only, every error of evaluation is placed at the
span of a node, in the source of the context.  Simplifying a tree gives its nodes spans of the
tree's nodes, and so both the errors of simplifying it and those of evaluating what it gives are
placed at such spans as well. -/
theorem eval_error_at_node (context : Context σ) (hhost : context.RaisesUnplaced) (t : Expr)
    (s : State σ) :
    (∀ e after, t.eval context s = .error (.error e) after → e.cause.isEvaluation = true →
      ∃ node ∈ t.nodes, e.site = ⟨some node.span.start, context.source, some node.span.stop⟩) ∧
    ∀ external log,
      (∀ e after, t.optimize external log = .error (.error e) after → e.cause.isEvaluation = true →
        ∃ node ∈ t.nodes, e.site = ⟨some node.span.start, none, some node.span.stop⟩) ∧
      ∀ o after, t.optimize external log = .ok o after →
        (∀ node ∈ o.nodes, ∃ original ∈ t.nodes, node.span = original.span) ∧
        ∀ e after', o.eval context s = .error (.error e) after' → e.cause.isEvaluation = true →
          ∃ node ∈ t.nodes,
            e.site = ⟨some node.span.start, context.source, some node.span.stop⟩ := by
  have hspans := spanned_hasSpan t
  refine ⟨fun e after h => exists_node_of_pointsAt (eval_pointsAt hhost hspans h),
    fun external log => ?_⟩
  have hoptimize := optimize_gives hspans external log
  constructor
  · intro e after h
    rw [h] at hoptimize
    exact exists_node_of_pointsAt hoptimize
  · intro o after h
    rw [h] at hoptimize
    exact ⟨hoptimize, fun e after' h' => exists_node_of_pointsAt (eval_pointsAt hhost hoptimize h')⟩

/-- A host that raises an error without a position wherever it is called. -/
def raisingContext : Context Unit :=
  ⟨fun _ => some (.function fun _ host => (.raised ⟨.indexOutOfRange 3 2, .unknown⟩, host)),
    [], .standard, some "x = f()"⟩

/-- An error that a called function raises without a position gets that of the call, not that of the
assignment around it. -/
theorem eval_error_at_node_raised :
    raisingContext.RaisesUnplaced ∧
    (Expr.assign ⟨0, 7⟩ "x" (.call ⟨4, 7⟩ "f" [])).eval raisingContext ⟨⟨[], .empty⟩, (), [], []⟩ =
      .error (.error ⟨.indexOutOfRange 3 2, ⟨some 4, some "x = f()", some 7⟩⟩)
        ⟨⟨[], .empty⟩, (), [⟨"f", []⟩], []⟩ ∧
    ∃ node ∈ (Expr.assign ⟨0, 7⟩ "x" (.call ⟨4, 7⟩ "f" [])).nodes,
      (⟨some 4, some "x = f()", some 7⟩ : Site) =
        ⟨some node.span.start, raisingContext.source, some node.span.stop⟩ := by
  have hhost : raisingContext.RaisesUnplaced := by
    rintro name run ⟨⟩ args host e ⟨⟩
    rfl
  have heval : (Expr.assign ⟨0, 7⟩ "x" (.call ⟨4, 7⟩ "f" [])).eval raisingContext
      ⟨⟨[], .empty⟩, (), [], []⟩ =
        .error (.error ⟨.indexOutOfRange 3 2, ⟨some 4, some "x = f()", some 7⟩⟩)
          ⟨⟨[], .empty⟩, (), [⟨"f", []⟩], []⟩ := by
    rfl
  exact ⟨hhost, heval, (eval_error_at_node _ hhost _ _).1 _ _ heval rfl⟩

end Expr

end Formulary
