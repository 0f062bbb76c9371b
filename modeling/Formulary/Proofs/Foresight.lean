import Formulary.Proofs.Heads
import Formulary.Proofs.Optimizing
import Formulary.Proofs.StraightLine
import Formulary.Proofs.WellFormed

/-!
# What simplification fails of

Simplification works out operations on literals, and leaves those to evaluation whose operands are
of a wrong type.  So it fails in one way only, by a division by zero.  In a formula without choices
and loops such a failure is never spurious: the formula fails as well, wherever the host supplies
none of the names that it assigns (`Expr.optimize_foresees`).

Folding fails at a node that breaks: an operation on parts that fold to literals, which is refused
(`Expr.exists_breaks_of_fold`).  Evaluating that node fails in every state (`Expr.Breaks.fails`),
and so does a formula that has no way around it.  Propagation breaks a node after it has put
literals in the place of names; there the statements with the literals are evaluated as those
without them, from state to state, until the node is come to
(`Expr.evalLast_of_propagateFrom_error`).
-/

set_option autoImplicit false

namespace Formulary

variable {σ : Type}

/-- The failure of a division by zero. -/
def Failure.ByZero (failure : Failure) : Prop :=
  ∃ operator site, (operator = "/" ∨ operator = "%") ∧
    failure = .error ⟨.divisionByZero operator, site⟩

namespace Expr

open Run

/-! ## Operations on literals -/

/-- What an operation on literals comes to: a value, a refusal of their types, or a refusal to
divide by zero. -/
inductive Mild {α : Type} : Except Refusal α → Prop
  | ok (v : α) : Mild (.ok v)
  | mismatch (expected actual : String) (context : Option String) :
      Mild (.error (.cause (.typeMismatch expected actual context)))
  | zero {operator : String} :
      operator = "/" ∨ operator = "%" → Mild (.error (.cause (.divisionByZero operator)))

/-- An operation that goes on mildly from a mild one is mild. -/
theorem Mild.bind {α β : Type} {x : Except Refusal α} {k : α → Except Refusal β} (hx : Mild x)
    (hk : ∀ a, Mild (k a)) : Mild (x >>= k) := by
  cases hx with
  | ok a => exact hk a
  | mismatch => exact .mismatch _ _ _
  | zero h => exact .zero h

/-- The value of a literal is a number, a string or a truth value. -/
theorem literal?_cases {e : Expr} {v : Value} (h : e.literal? = some v) :
    (∃ x, v = .number x) ∨ (∃ s, v = .string s) ∨ ∃ b, v = .boolean b := by
  cases e with
  | number span x =>
    cases h
    exact .inl ⟨x, rfl⟩
  | string span s =>
    cases h
    exact .inr (.inl ⟨s, rfl⟩)
  | boolean span b =>
    cases h
    exact .inr (.inr ⟨b, rfl⟩)
  | _ => cases h

/-- The truth of a literal is mild. -/
theorem mild_truth {e : Expr} {v : Value} (h : e.literal? = some v) : Mild v.truth := by
  rcases literal?_cases h with ⟨x, rfl⟩ | ⟨s, rfl⟩ | ⟨b, rfl⟩
  · show Mild (if (Numeric.double x).isZero then _ else _)
    split
    · exact .ok _
    · exact .ok _
  · exact .mismatch _ _ _
  · exact .ok _

/-- Dividing numbers is refused only if the second one is zero. -/
theorem mild_divideBy {operator : BinaryOp} (hoperator : operator.symbol = "/" ∨
    operator.symbol = "%") (f : Float → Float → Float) {a b : Expr} {v w : Value}
      (ha : a.literal? = some v) (hb : b.literal? = some w) :
    Mild (Value.divideBy operator f v w) := by
  rcases literal?_cases ha with ⟨x, rfl⟩ | ⟨s, rfl⟩ | ⟨c, rfl⟩
  · rcases literal?_cases hb with ⟨y, rfl⟩ | ⟨t, rfl⟩ | ⟨d, rfl⟩
    · show Mild (if (Numeric.double y).isZero then _ else _)
      split
      · exact .zero hoperator
      · exact .ok _
    · exact .mismatch _ _ _
    · exact .mismatch _ _ _
  · exact .mismatch _ _ _
  · exact .mismatch _ _ _

/-- A binary operation of the language on literals is mild. -/
theorem mild_applyBinary {operator : BinaryOp} (hoperator : ∀ symbol, operator ≠ .other symbol)
    {a b : Expr} {v w : Value} (ha : a.literal? = some v) (hb : b.literal? = some w) :
    Mild (Value.applyBinary .standard operator v w) := by
  cases operator with
  | other symbol => exact absurd rfl (hoperator symbol)
  | divide => exact mild_divideBy (.inl rfl) _ ha hb
  | modulo => exact mild_divideBy (.inr rfl) _ ha hb
  | and | or => exact (mild_truth ha).bind fun _ => (mild_truth hb).bind fun _ => .ok _
  | _ =>
    rcases literal?_cases ha with ⟨x, rfl⟩ | ⟨s, rfl⟩ | ⟨c, rfl⟩ <;>
      rcases literal?_cases hb with ⟨y, rfl⟩ | ⟨t, rfl⟩ | ⟨d, rfl⟩ <;>
        first | exact .ok _ | exact .mismatch _ _ _

/-- A unary operation of the language on a literal is mild. -/
theorem mild_applyUnary {operator : UnaryOp} (hoperator : ∀ symbol, operator ≠ .other symbol)
    {a : Expr} {v : Value} (ha : a.literal? = some v) : Mild (Value.applyUnary operator v) := by
  cases operator with
  | other symbol => exact absurd rfl (hoperator symbol)
  | not => exact (mild_truth ha).bind fun _ => .ok _
  | negate =>
    rcases literal?_cases ha with ⟨x, rfl⟩ | ⟨s, rfl⟩ | ⟨c, rfl⟩
    · exact .ok _
    · exact .mismatch _ _ _
    · exact .mismatch _ _ _

/-! ## The node that breaks -/

/-- An operation on parts that fold to literals is refused, though not for their types; or the node
is foreign. -/
inductive Breaks : Expr → Failure → Prop
  | binary {span : Span} {operator : BinaryOp} {l r a b : Expr} {x y : Value} {refusal : Refusal} :
      Folds l a → Folds r b → a.literal? = some x → b.literal? = some y →
      Value.applyBinary .standard operator x y = .error refusal →
      (∀ expected actual context, refusal ≠ .cause (.typeMismatch expected actual context)) →
      Breaks (.binary span operator l r) (refusal.atSite ⟨some span.start, none, some span.stop⟩)
  | unary {span : Span} {operator : UnaryOp} {e a : Expr} {x : Value} {refusal : Refusal} :
      Folds e a → a.literal? = some x → Value.applyUnary operator x = .error refusal →
      (∀ expected actual context, refusal ≠ .cause (.typeMismatch expected actual context)) →
      Breaks (.unary span operator e) (refusal.atSite ⟨some span.start, none, some span.stop⟩)
  | foreign (item : Foreign) : Breaks (.foreign item) (.fault item.fault)

section Inversion

variable {span : Span} {failure : Failure} {log after : List Event}

/-- Folding a result fails only with a refusal that is not for types, placed at the span of the
operation. -/
theorem foldResult_eq_error {result : Except Refusal Value}
    (h : foldResult span result log = .error failure after) :
    ∃ refusal, result = .error refusal ∧
      failure = refusal.atSite ⟨some span.start, none, some span.stop⟩ ∧
      ∀ expected actual context, refusal ≠ .cause (.typeMismatch expected actual context) := by
  unfold foldResult at h
  split at h
  · cases h
  · cases h
  · rename_i refusal hother
    cases h
    exact ⟨refusal, rfl, rfl, hother⟩

/-- A replacement never fails. -/
theorem replaceBy_ne_error {folded : Option Expr} {event : Event} {kept : Expr} :
    replaceBy folded event kept log ≠ .error failure after := by
  intro h
  cases folded with
  | none => cases h
  | some f => cases h

/-- If folding a binary operation on folded operands fails, the operation is a node that breaks. -/
theorem breaks_of_foldBinary {operator : BinaryOp} {l r a b : Expr} (hl : Folds l a)
    (hr : Folds r b) (h : foldBinary span operator a b log = .error failure after) :
    Breaks (.binary span operator l r) failure := by
  unfold foldBinary at h
  cases hx : a.literal? with
  | none =>
    rw [hx] at h
    cases h
  | some x =>
    cases hy : b.literal? with
    | none =>
      rw [hx, hy] at h
      cases h
    | some y =>
      rw [hx, hy] at h
      rcases bind_eq_error h with hresult | ⟨folded, mid, -, hreplace⟩
      · obtain ⟨refusal, hrefused, rfl, htypes⟩ := foldResult_eq_error hresult
        exact .binary hl hr hx hy hrefused htypes
      · exact absurd hreplace replaceBy_ne_error

/-- If folding a unary operation on a folded operand fails, the operation is a node that breaks. -/
theorem breaks_of_foldUnary {operator : UnaryOp} {e a : Expr} (he : Folds e a)
    (h : foldUnary span operator a log = .error failure after) :
    Breaks (.unary span operator e) failure := by
  have hbreaks : ∀ x, a.literal? = some x →
      (foldResult span (Value.applyUnary operator x) >>= fun folded => replaceBy folded
        (.constantFolded .unary (some operator.symbol)) (.unary span operator a)) log =
          .error failure after →
      Breaks (.unary span operator e) failure := by
    intro x hx h
    rcases bind_eq_error h with hresult | ⟨folded, mid, -, hreplace⟩
    · obtain ⟨refusal, hrefused, rfl, htypes⟩ := foldResult_eq_error hresult
      exact .unary he hx hrefused htypes
    · exact absurd hreplace replaceBy_ne_error
  unfold foldUnary at h
  split at h
  · exact hbreaks _ rfl h
  · exact hbreaks _ rfl h
  · cases h

/-- If folding several trees fails, folding one of them does. -/
theorem exists_of_foldAll_error {es : List Expr} (h : foldAll es log = .error failure after) :
    ∃ e ∈ es, ∃ log after, fold e log = .error failure after := by
  induction es generalizing log with
  | nil =>
    rw [foldAll] at h
    cases h
  | cons e es ih =>
    rw [foldAll] at h
    rcases bind_eq_error h with he | ⟨f, mid, -, h⟩
    · exact ⟨e, List.mem_cons_self, log, after, he⟩
    · rcases bind_eq_error h with hes | ⟨fs, mid', -, h⟩
      · obtain ⟨e', he', hfails⟩ := ih hes
        exact ⟨e', List.mem_cons_of_mem _ he', hfails⟩
      · cases h

/-- Where two parts are folded one behind the other, folding fails at one of them, or behind
both. -/
theorem fails_in_pair {x y : Expr} {k : Expr → Expr → Simplify Expr}
    (h : (fold x >>= fun a => fold y >>= fun b => k a b) log = .error failure after) :
    (∃ part ∈ [x, y], ∃ log after, fold part log = .error failure after) ∨
      ∃ a b mid, Folds x a ∧ Folds y b ∧ k a b mid = .error failure after := by
  rcases bind_eq_error h with hx | ⟨a, mid, ha, h⟩
  · exact .inl ⟨x, by simp, _, _, hx⟩
  · rcases bind_eq_error h with hy | ⟨b, mid', hb, h⟩
    · exact .inl ⟨y, by simp, _, _, hy⟩
    · exact .inr ⟨a, b, mid', ⟨_, _, ha⟩, ⟨_, _, hb⟩, h⟩

/-- If folding fails at a tree, then its root breaks, or folding fails at one of its parts. -/
theorem breaks_or_part {e : Expr} (h : fold e log = .error failure after) :
    Breaks e failure ∨ ∃ part ∈ e.children, ∃ log after, fold part log = .error failure after := by
  cases e with
  | number | string | boolean | identifier => cases h
  | foreign item =>
    cases h
    exact .inl (.foreign item)
  | program span es | array span es | call span name es =>
    rcases bind_eq_error h with hes | ⟨fs, mid, -, h⟩
    · exact .inr (exists_of_foldAll_error hes)
    · cases h
  | assign span name e =>
    rcases bind_eq_error h with he | ⟨a, mid, -, h⟩
    · exact .inr ⟨e, by simp [children], _, _, he⟩
    · cases h
  | unary span operator e =>
    rcases bind_eq_error h with he | ⟨a, mid, ha, h⟩
    · exact .inr ⟨e, by simp [children], _, _, he⟩
    · exact .inl (breaks_of_foldUnary ⟨_, _, ha⟩ h)
  | binary span operator l r =>
    rcases fails_in_pair h with hpart | ⟨a, b, mid, ha, hb, h⟩
    · exact .inr hpart
    · exact .inl (breaks_of_foldBinary ha hb h)
  | index span x y =>
    rcases fails_in_pair h with hpart | ⟨a, b, mid, -, -, h⟩
    · exact .inr hpart
    · exact absurd h replaceBy_ne_error
  | range span x y inclusive =>
    rcases fails_in_pair h with hpart | ⟨a, b, mid, -, -, h⟩
    · exact .inr hpart
    · cases h
  | comprehension span binder i guard b =>
    cases guard with
    | none =>
      rcases fails_in_pair h with hpart | ⟨i', b', mid, -, -, h⟩
      · exact .inr hpart
      · cases h
    | some g =>
      rcases bind_eq_error h with hi | ⟨i', mid, -, h⟩
      · exact .inr ⟨i, by simp [children], _, _, hi⟩
      · rcases fails_in_pair h with ⟨part, hpart, hfails⟩ | ⟨g', b', mid', -, -, h⟩
        · exact .inr ⟨part, List.mem_cons_of_mem _ hpart, hfails⟩
        · cases h
  | conditional span c x y =>
    rcases bind_eq_error h with hc | ⟨c', mid, -, h⟩
    · exact .inr ⟨c, by simp [children], _, _, hc⟩
    · cases htruth : literalTruth? c' with
      | none =>
        rw [htruth] at h
        rcases fails_in_pair h with ⟨part, hpart, hfails⟩ | ⟨a, b, mid', -, -, h⟩
        · exact .inr ⟨part, List.mem_cons_of_mem _ hpart, hfails⟩
        · cases h
      | some holds =>
        -- Only the branch that is taken is folded, so only that one can fail.
        rw [htruth] at h
        cases holds with
        | true =>
          rcases bind_eq_error h with hemit | ⟨_, mid', -, h⟩
          · cases hemit
          · exact .inr ⟨x, by simp [children], _, _, h⟩
        | false =>
          rcases bind_eq_error h with hemit | ⟨_, mid', -, h⟩
          · cases hemit
          · exact .inr ⟨y, by simp [children], _, _, h⟩

/-- If folding fails at a tree, it fails at a node that breaks. -/
theorem exists_breaks_of_fold {e : Expr} (h : fold e log = .error failure after) :
    ∃ node ∈ e.nodes, Breaks node failure := by
  induction e using byChildren generalizing log after with
  | node e ih =>
    rw [nodes_eq]
    rcases breaks_or_part h with hbreaks | ⟨part, hpart, log', after', hfails⟩
    · exact ⟨e, List.mem_cons_self, hbreaks⟩
    · obtain ⟨node, hnode, hbreaks⟩ := ih part hpart hfails
      exact ⟨node, List.mem_cons_of_mem _ (List.mem_flatMap.mpr ⟨part, hpart, hnode⟩), hbreaks⟩

end Inversion

/-- An operator of a node is one of the language, and the node is not foreign. -/
def InLanguage : Expr → Prop
  | .binary _ operator _ _ => ∀ symbol, operator ≠ .other symbol
  | .unary _ operator _ => ∀ symbol, operator ≠ .other symbol
  | .foreign _ => False
  | _ => True

/-- A well-formed tree is in the language. -/
theorem WellFormed.inLanguage {e : Expr} (h : e.WellFormed) : e.Everywhere InLanguage := by
  have hnode : ∀ node : Expr, node.Formed → node.InLanguage := by
    intro node hformed
    cases node with
    | binary span operator l r =>
      rintro symbol rfl
      simp [Formed, BinaryOp.all] at hformed
    | unary span operator e =>
      rintro symbol rfl
      simp [Formed] at hformed
    | foreign => exact hformed
    | _ => trivial
  cases e with
  | program span es => exact (everywhere_iff _).mpr ⟨trivial, fun e he => (h.2 e he).imp hnode⟩
  | _ => exact Everywhere.imp h hnode

/-- Whether a node is in the language is decided at its head. -/
theorem ofHeads_inLanguage : OfHeads InLanguage where
  head e := by cases e <;> exact Iff.rfl
  literal := trivial

/-- Whether a node is unconditional is decided at its head. -/
theorem ofHeads_unconditional (context : Context σ) : OfHeads (Unconditional context) where
  head e := by cases e <;> exact Iff.rfl
  literal := trivial

/-- In the language a node breaks only by a division by zero. -/
theorem Breaks.byZero {node : Expr} {failure : Failure} (h : Breaks node failure)
    (hnode : node.InLanguage) :
    failure.ByZero := by
  have hmild : ∀ {result : Except Refusal Value} {refusal : Refusal} {site : Site}, Mild result →
      result = .error refusal →
        (∀ expected actual context, refusal ≠ .cause (.typeMismatch expected actual context)) →
      (refusal.atSite site).ByZero := by
    intro result refusal site hresult hrefused htypes
    subst hrefused
    cases hresult with
    | mismatch expected actual context => exact absurd rfl (htypes expected actual context)
    | @zero operator hoperator => exact ⟨operator, site, hoperator, rfl⟩
  cases h with
  | binary _ _ ha hb hrefused htypes => exact hmild (mild_applyBinary hnode ha hb) hrefused htypes
  | unary _ ha hrefused htypes => exact hmild (mild_applyUnary hnode ha) hrefused htypes
  | foreign => exact hnode.elim

section Evaluation

variable {context : Context σ}

/-- A tree that folds to a literal has no other value. -/
theorem Folds.eval_eq {e f : Expr} (h : Folds e f) {x v : Value} (hliteral : f.literal? = some x)
    {s s' : State σ} (heval : e.eval context s = .ok v s') : v = x := by
  have hsimulates : Simulates context False Eq e f := fold_simulates h False.elim
  obtain ⟨t, ht, -⟩ := hsimulates.ok rfl heval
  rw [eval_literal hliteral] at ht
  cases ht
  rfl

/-- A node that breaks fails in every state. -/
theorem Breaks.fails {node : Expr} {failure : Failure} (h : Breaks node failure) :
    Fails (node.eval context) := by
  intro s
  cases h with
  | @binary span operator l r a b x y refusal hl hr hx hy hrefused _ =>
    rw [eval]
    cases hleft : l.eval context s with
    | error failure s₁ => exact ⟨failure, s₁, bind_of_error hleft _⟩
    | ok v s₁ =>
      obtain rfl := hl.eval_eq hx hleft
      rw [bind_of_ok hleft]
      cases hright : r.eval context s₁ with
      | error failure s₂ => exact ⟨failure, s₂, bind_of_error hright _⟩
      | ok w s₂ =>
        obtain rfl := hr.eval_eq hy hright
        rw [bind_of_ok hright, applyBinary_standard hx, hrefused]
        exact ⟨_, s₂, rfl⟩
  | @unary span operator e a x refusal he hx hrefused _ =>
    rw [eval]
    cases hoperand : e.eval context s with
    | error failure s₁ => exact ⟨failure, s₁, bind_of_error hoperand _⟩
    | ok v s₁ =>
      obtain rfl := he.eval_eq hx hoperand
      rw [bind_of_ok hoperand, hrefused]
      exact ⟨_, s₁, rfl⟩
  | foreign item =>
    rw [eval]
    exact ⟨_, s, rfl⟩

end Evaluation

/-! ## Propagation -/

section Propagation

variable {failure : Failure} {log after : List Event}

/-- If putting a literal into statements fails, a node of some statement with the literal in it
breaks. -/
theorem exists_breaks_of_propagateInto {name : String} {literal : Expr} {es : List Expr}
    (h : propagateInto name literal es log = .error failure after) :
    ∃ e ∈ es, ∃ node ∈ (substitute name literal e).nodes, Breaks node failure := by
  rw [propagateInto_eq] at h
  obtain ⟨_, hmem, log', after', hfold⟩ := exists_of_foldAll_error h
  obtain ⟨e, he, rfl⟩ := List.mem_map.mp hmem
  exact ⟨e, he, exists_breaks_of_fold hfold⟩

/-- How one step of propagation fails: a statement breaks once the literal is put into it, or
propagation fails behind the first statement. -/
theorem propagateFrom_cons_error {allowed : String → Bool} {count : Nat} {e : Expr} {es : List Expr}
    (h : propagateFrom allowed (count + 1) (e :: es) log = .error failure after) :
    (∃ span name literal, e = .assign span name literal ∧ literal.isLiteral = true ∧
      allowed name = true ∧
      ∃ e' ∈ es, ∃ node ∈ (substitute name literal e').nodes, Breaks node failure) ∨
    ∃ later mid after', propagateFrom allowed count later mid = .error failure after' ∧
      (later = es ∨ ∃ span name literal, e = .assign span name literal ∧ literal.isLiteral = true ∧
        allowed name = true ∧
        List.Forall₂ (fun e f => Folds (substitute name literal e) f) es later) := by
  unfold propagateFrom at h
  cases hliteral : propagatable? allowed e with
  | none =>
    rw [hliteral] at h
    rcases bind_eq_error h with hlater | ⟨later, mid, hlater, h⟩
    · cases hlater
    · cases hlater
      rcases bind_eq_error h with hrest | ⟨rest, mid', -, h⟩
      · exact .inr ⟨es, _, _, hrest, .inl rfl⟩
      · cases h
  | some found =>
    obtain ⟨name, literal⟩ := found
    obtain ⟨span, rfl, hvalue, hallowed⟩ := propagatable?_eq_some hliteral
    rw [hliteral] at h
    rcases bind_eq_error h with hemit | ⟨_, mid, -, h⟩
    · cases hemit
    · rcases bind_eq_error h with hinto | ⟨later, mid', hlater, h⟩
      · exact .inl ⟨span, name, literal, rfl, hvalue, hallowed,
          exists_breaks_of_propagateInto hinto⟩
      · rcases bind_eq_error h with hrest | ⟨rest, mid'', -, h⟩
        · refine .inr ⟨later, _, _, hrest, .inr ?_⟩
          exact ⟨span, name, literal, rfl, hvalue, hallowed, propagateInto_folds hlater⟩
        · cases h

/-- What holds at the heads of statements holds at those of the statements into which a literal is
put. -/
theorem OfHeads.propagateInto {P : Expr → Prop} (hP : OfHeads P) {name : String} {literal : Expr}
    (hliteral : literal.isLiteral = true) {es fs : List Expr}
    (hfolds : List.Forall₂ (fun e f => Folds (Expr.substitute name literal e) f) es fs)
    (hes : ∀ e ∈ es, e.Everywhere P) : ∀ f ∈ fs, f.Everywhere P :=
  forall_mem_of_parts hfolds fun e he _ hf => hf.everywhere hP
    (hP.substitute name hliteral (hes e he))

/-- In the language propagation fails only by a division by zero. -/
theorem byZero_of_propagateFrom {allowed : String → Bool} {count : Nat} {es : List Expr}
    (h : propagateFrom allowed count es log = .error failure after)
    (hes : ∀ e ∈ es, e.Everywhere InLanguage) :
    failure.ByZero := by
  induction count generalizing es log after with
  | zero => cases h
  | succ count ih =>
    cases es with
    | nil => cases h
    | cons e es =>
      have hbehind : ∀ e ∈ es, e.Everywhere InLanguage :=
        fun e he => hes e (List.mem_cons_of_mem _ he)
      rcases propagateFrom_cons_error h with
        ⟨span, name, literal, -, hvalue, -, e', he', node, hnode, hbreaks⟩ |
        ⟨later, mid, after', hrest, hlater⟩
      · have hinto := ofHeads_inLanguage.substitute name hvalue (hbehind e' he')
        exact hbreaks.byZero (hinto node hnode)
      · apply ih hrest
        rcases hlater with rfl | ⟨span, name, literal, -, hvalue, -, hfolds⟩
        · exact hbehind
        · exact ofHeads_inLanguage.propagateInto hvalue hfolds hbehind

variable {context : Context σ}

/-- Behind the assignment of a literal, statements fail if one of them breaks once the literal is
put into it. -/
theorem evalLast_of_breaks {name : String} {literal : Expr} {v : Value}
    (hliteral : literal.literal? = some v) {es : List Expr}
    (hfree : ∀ e ∈ es, .target name ∉ e.features)
    (hes : ∀ e ∈ es, e.Everywhere (Unconditional context)) {e node : Expr} (he : e ∈ es)
    (hnode : node ∈ (substitute name literal e).nodes) (hbreaks : Breaks node failure)
    {result w : Value} {s s' : State σ} (hknown : s.scope.lookup? name = some v) :
    evalLast context result es s ≠ .ok w s' := by
  intro hrun
  -- With the literal the statements would succeed as they do without it, but one of them has a node
  -- that fails in every state.
  have hsimulates : List.Forall₂ (Simulates context False (Knows name v)) es
      (es.map (substitute name literal)) := by
    rw [List.forall₂_map_right_iff, List.forall₂_same]
    exact fun e he => substitute_simulates hliteral (hfree e he)
  obtain ⟨t', hrun', -⟩ := (Simulates.evalLast hsimulates result).ok ⟨rfl, hknown⟩ hrun
  have hinto :=
    (ofHeads_unconditional context).substitute name (isLiteral_of_literal? hliteral) (hes e he)
  have hfails : Fails (evalLast context result (es.map (substitute name literal))) := by
    rw [evalLast_eq]
    exact (evalAll_fails (List.mem_map_of_mem he) (fails_of_node hinto hnode hbreaks.fails)).first _
  obtain ⟨failure', s₁, hfailed⟩ := hfails s
  rw [hfailed] at hrun'
  cases hrun'

/-- If propagation fails, so do the statements. -/
theorem evalLast_of_propagateFrom_error {allowed : String → Bool}
    (hallowed : ∀ name, allowed name = true → name ∉ context.external) {count : Nat}
    {es : List Expr} (h : propagateFrom allowed count es log = .error failure after)
    (honce : ∀ name, allowed name = true → (es.flatMap features).count (.target name) ≤ 1)
    (hes : ∀ e ∈ es, e.Everywhere (Unconditional context)) {result w : Value} {s s' : State σ} :
    evalLast context result es s ≠ .ok w s' := by
  induction count generalizing es log after result s with
  | zero => cases h
  | succ count ih =>
    cases es with
    | nil => cases h
    | cons e es =>
      intro hrun
      rw [evalLast] at hrun
      obtain ⟨x, s₁, hx, hrun⟩ := bind_eq_ok hrun
      have hbehind : ∀ e ∈ es, e.Everywhere (Unconditional context) :=
        fun e he => hes e (List.mem_cons_of_mem _ he)
      rcases propagateFrom_cons_error h with
        ⟨span, name, literal, rfl, hvalue, hname, e', he', node, hnode, hbreaks⟩ |
        ⟨later, mid, after', hrest, hlater⟩
      · obtain ⟨v, hliteral⟩ := exists_literal? hvalue
        rw [eval_assign_literal (hallowed name hname) hliteral] at hx
        cases hx
        apply evalLast_of_breaks hliteral (free_of_once hvalue (honce name hname)) hbehind he' hnode
          hbreaks ?_ hrun
        rw [Scope.lookup?_bind, if_pos rfl]
      · -- The statements behind this one do the same, with the literal put into them or without.
        have hsame : evalLast context x later s₁ = .ok w s' ∧
            (later.flatMap features).Sublist (es.flatMap features) ∧
            ∀ e ∈ later, e.Everywhere (Unconditional context) := by
          rcases hlater with rfl | ⟨span, name, literal, rfl, hvalue, hname, hfolds⟩
          · exact ⟨hrun, .refl _, hbehind⟩
          · obtain ⟨v, hliteral⟩ := exists_literal? hvalue
            rw [eval_assign_literal (hallowed name hname) hliteral] at hx
            cases hx
            refine ⟨evalLast_propagateInto hliteral hfolds
              (free_of_once hvalue (honce name hname)) ?_ hrun,
              features_propagateInto hvalue hfolds, (ofHeads_unconditional context).propagateInto
                hvalue hfolds hbehind⟩
            rw [Scope.lookup?_bind, if_pos rfl]
        apply ih hrest ?_ hsame.2.2 hsame.1
        intro name hname
        have hcount := honce name hname
        rw [List.flatMap_cons, List.count_append] at hcount
        exact Nat.le_trans (hsame.2.1.count_le _) (by omega)

/-- The statements fail as well where the literals of their constants are propagated. -/
theorem evalLast_of_propagate_error {names : List String} {es : List Expr}
    (h : propagate names es log = .error failure after)
    (hes : ∀ e ∈ es, e.Everywhere (Unconditional context)) {result w : Value} {s s' : State σ} :
    evalLast context result es s ≠ .ok w s' := by
  have honce : ∀ name,
      (assignmentCount es name == 1 && !names.contains name && !(binders es).contains name) = true →
      assignmentCount es name = 1 := by
    intro name hname
    simp only [Bool.and_eq_true, beq_iff_eq] at hname
    exact hname.1.1
  apply evalLast_of_propagateFrom_error ?_ h ?_ hes
  · -- A name that is assigned once is assigned by a node, and the host does not supply it.
    intro name hname
    have hpositive : 0 < assignmentCount es name := by
      rw [honce name hname]
      exact Nat.one_pos
    obtain ⟨e, he, htarget⟩ := List.mem_flatMap.mp (List.count_pos_iff.mp hpositive)
    obtain ⟨node, hnode, htarget⟩ := List.mem_filterMap.mp htarget
    have hunconditional := hes e he node hnode
    cases node with
    | assign span name' value =>
      cases htarget
      exact hunconditional
    | _ => cases htarget
  · intro name hname
    exact Nat.le_of_eq (count_targets es name ▸ honce name hname)

end Propagation

/-! ## All steps -/

/-- Leaving out dead assignments never fails. -/
theorem dropDead_ne_error {es : List Expr} {failure : Failure} {log after : List Event} :
    dropDead es log ≠ .error failure after := by
  induction es generalizing log after with
  | nil =>
    intro h
    cases h
  | cons e es ih =>
    cases es with
    | nil =>
      intro h
      cases h
    | cons e' es =>
      rw [dropDead]
      · intro h
        rcases bind_eq_error h with hrest | ⟨⟨kept, live⟩, mid, -, h⟩
        · exact ih hrest
        · cases hdead : dead? live e with
          | none =>
            simp only [hdead] at h
            cases h
          | some name =>
            simp only [hdead] at h
            cases h
      · simp

/-- If simplification fails, then folding does, or propagation does in the folded statements. -/
theorem optimize_eq_error {t : Expr} {external : Option (List String)} {failure : Failure}
    {log after : List Event} (h : optimize t external log = .error failure after) :
    (∃ after', fold t log = .error failure after') ∨
    ∃ span es names mid after', Folds t (.program span es) ∧
      propagate names es mid = .error failure after' := by
  rcases bind_eq_error h with hfold | ⟨folded, mid, hfold, h⟩
  · exact .inl ⟨after, hfold⟩
  · cases folded with
    | program span es =>
      have hdrop : ∀ {propagated : List Expr} {mid' : List Event},
          (dropDead propagated >>= fun kept => pure (ofStatements span kept.1)) mid' ≠
            .error failure after := by
        intro propagated mid' hdrop
        rcases bind_eq_error hdrop with hdead | ⟨kept, mid'', -, hpure⟩
        · exact dropDead_ne_error hdead
        · cases hpure
      cases external with
      | none => exact absurd h hdrop
      | some names =>
        rcases bind_eq_error h with hpropagate | ⟨propagated, mid', -, h⟩
        · exact .inr ⟨span, es, names, mid, after, ⟨log, mid, hfold⟩, hpropagate⟩
        · exact absurd h hdrop
    | _ => cases h

/-- In the language simplification fails only by a division by zero. -/
theorem byZero_of_optimize {t : Expr} {external : Option (List String)} {failure : Failure}
    {log after : List Event} (h : optimize t external log = .error failure after)
    (ht : t.Everywhere InLanguage) : failure.ByZero := by
  rcases optimize_eq_error h with ⟨after', hfold⟩ |
    ⟨span, es, names, mid, after', hfolds, hpropagate⟩
  · obtain ⟨node, hnode, hbreaks⟩ := exists_breaks_of_fold hfold
    exact hbreaks.byZero (ht node hnode)
  · have hes := hfolds.everywhere ofHeads_inLanguage ht
    exact byZero_of_propagateFrom hpropagate fun e he => hes.part he

/-- If simplification fails, so does every evaluation that has no way around a node. -/
theorem fails_of_optimize {context : Context σ} {t : Expr} {external : Option (List String)}
    {failure : Failure} {log after : List Event}
    (h : optimize t external log = .error failure after)
    (ht : t.Everywhere (Unconditional context)) : Fails (t.eval context) := by
  rcases optimize_eq_error h with ⟨after', hfold⟩ |
    ⟨span, es, names, mid, after', hfolds, hpropagate⟩
  · obtain ⟨node, hnode, hbreaks⟩ := exists_breaks_of_fold hfold
    exact fails_of_node ht hnode hbreaks.fails
  · intro s
    cases heval : t.eval context s with
    | error failure' s' => exact ⟨failure', s', rfl⟩
    | ok v s' =>
      have hsimulates : Simulates context False Eq t (.program span es) :=
        fold_simulates hfolds False.elim
      obtain ⟨t', hrun, -⟩ := hsimulates.ok rfl heval
      have hes := hfolds.everywhere (ofHeads_unconditional context) ht
      rw [eval] at hrun
      exact absurd hrun (evalLast_of_propagate_error hpropagate fun e he => hes.part he)

/-- Simplification of a formula in the language fails only by a division by zero, with the names
that the host may supply or without them.  If the formula has neither choices nor loops, then it has
no value where simplification fails: its evaluation fails for every host that supplies none of the
names that it assigns. -/
theorem optimize_foresees {t : Expr} (ht : t.Everywhere InLanguage)
    (external : Option (List String)) (log : List Event) :
    (∃ o after, optimize t external log = .ok o after) ∨
    ∃ failure after, optimize t external log = .error failure after ∧ failure.ByZero ∧
      (t.Everywhere Straight → ∀ (σ : Type) (context : Context σ) (host : σ),
        (∀ name ∈ t.assignedNames, name ∉ context.external) →
        ∃ failure', (Evaluation.run (.tree t) context host).result = .error failure') := by
  cases h : optimize t external log with
  | ok o after => exact .inl ⟨o, after, rfl⟩
  | error failure after =>
    refine .inr ⟨failure, after, rfl, byZero_of_optimize h ht, ?_⟩
    intro hstraight σ context host hnames
    cases hbegin : Evaluator.begin context host with
    | error e => exact ⟨.error e, by simp [Evaluation.run, Evaluation.prepare, hbegin]⟩
    | ok s =>
      obtain ⟨failure', s', hfails⟩ :=
        fails_of_optimize h (unconditional_of_straight hstraight hnames) s
      exact ⟨failure', Evaluation.result_of_error rfl hbegin hfails⟩

section Example

/-- A divisor that is zero once two constants are known. -/
def vanishingDivisor : Expr :=
  .program .none [.assign .none "x" (.number .none 2.0),
    .assign .none "y" (.binary .none .subtract (.identifier .none "x") (.number .none 2.0)),
    .binary .none .divide (.call .none "f" [])
      (.binary .none .modulo (.number .none 1.0) (.identifier .none "y"))]

/-- A remainder by a difference of two constants that is zero is foreseen, and every run whose host
leaves the constants alone fails. -/
theorem optimize_foresees_vanishingDivisor :
    vanishingDivisor.WellFormed ∧ vanishingDivisor.Everywhere Straight ∧
    ∃ failure after, optimize vanishingDivisor (some ["z"]) [] = .error failure after ∧
      failure.ByZero ∧
      ∀ (σ : Type) (context : Context σ) (host : σ),
        (∀ name ∈ vanishingDivisor.assignedNames, name ∉ context.external) →
        ∃ failure', (Evaluation.run (.tree vanishingDivisor) context host).result =
          .error failure' := by
  have hformed : vanishingDivisor.WellFormed := by
    refine ⟨by decide, ?_⟩
    intro e he
    simp only [List.mem_cons, List.not_mem_nil, or_false] at he
    rcases he with rfl | rfl | rfl <;>
      simp [Everywhere, nodes_eq, children, Formed, BinaryOp.all] <;> decide
  have hstraight : vanishingDivisor.Everywhere Straight := by
    simp [vanishingDivisor, Everywhere, nodes_eq, children, Straight]
  have hfails : (simplified (optimize vanishingDivisor (some ["z"]))).1.isOk = false := by
    decide +kernel
  refine ⟨hformed, hstraight, ?_⟩
  rcases optimize_foresees hformed.inLanguage (some ["z"]) [] with ⟨o, after, hok⟩ |
    ⟨failure, after, herror, hzero, hevaluation⟩
  · rw [simplified, hok] at hfails
    cases hfails
  · exact ⟨failure, after, herror, hzero, hevaluation hstraight⟩

end Example

end Expr

end Formulary
