import Formulary.Proofs.Printing
import Formulary.Proofs.WellFormed
import Mathlib.Data.List.Forall2

/-!
# Chains of operators

A chain is a sequence of operands that stand by themselves, with operators in between and no
parentheses.  Whatever the operators are, one tree has these operands and operators from left to
right (`Expr.inorder`) and groups them as they bind (`Expr.Grouped`): below an operator stand
operators that bind more tightly, or as tightly on the side to which the operator groups.  This is
the tree that the parser returns (`Parser.parseTokens_chain`).

Such a tree is found by attaching one operator and its right operand after the other
(`Expr.attach`).  That there is no other one is taken from the grammar: every grouped tree is a
phrase for its chain (`Grammar.chain_of_grouped`), and the grammar is unambiguous.
-/

set_option autoImplicit false

namespace Formulary

open Formulary.Expr

/-! ## Operators between two operands -/

/-- An operator that stands between two operands. -/
inductive InfixOp where
  | binary (operator : BinaryOp)
  | range (inclusive : Bool)
deriving DecidableEq, Repr

namespace InfixOp

/-- The level at which an operator binds. -/
def precedence : InfixOp → Nat
  | .binary operator => operator.precedence
  | .range _ => Precedence.range

/-- Whether a chain of the operator groups from the right. -/
def isRightAssociative : InfixOp → Bool
  | .binary operator => operator.isRightAssociative
  | .range _ => false

/-- The kind of token that writes an operator of the language. -/
def tokenKind? : InfixOp → Option TokenKind
  | .binary operator => operator.tokenKind?
  | .range false => some .dotDot
  | .range true => some .dotDotEqual

/-- The tree of an operator and its operands. -/
def apply (left right : Expr) : InfixOp → Expr
  | .binary operator => .binary .none operator left right
  | .range inclusive => .range .none left right inclusive

/-- How tightly an operator in the left operand binds at least. -/
def leftMinimum (op : InfixOp) : Nat :=
  if op.isRightAssociative then op.precedence + 1 else op.precedence

/-- How tightly an operator in the right operand binds at least. -/
def rightMinimum (op : InfixOp) : Nat :=
  if op.isRightAssociative then op.precedence else op.precedence + 1

/-- Whatever may be at the root of the left operand binds at least as tightly as the operator. -/
theorem precedence_le_leftMinimum (op : InfixOp) : op.precedence ≤ op.leftMinimum := by
  unfold leftMinimum
  split <;> omega

/-- Whatever may be at the root of the right operand binds at least as tightly as the operator. -/
theorem precedence_le_rightMinimum (op : InfixOp) : op.precedence ≤ op.rightMinimum := by
  unfold rightMinimum
  split <;> omega

/-- Operators of one level group to the same side. -/
theorem isRightAssociative_congr {op op' : InfixOp} (h : op.precedence = op'.precedence) :
    op.isRightAssociative = op'.isRightAssociative := by
  have hpower : ∀ op : InfixOp, op.isRightAssociative = decide (op.precedence = 10) := by
    intro op
    cases op with
    | binary operator => cases operator <;> rfl
    | range inclusive => rfl
  rw [hpower, hpower, h]

/-- An operator may be at the root of the left operand if it binds more tightly, or as tightly where
the chain groups from the left. -/
theorem leftMinimum_le_iff {op q : InfixOp} : op.leftMinimum ≤ q.precedence ↔
    op.precedence < q.precedence ∨ q.precedence = op.precedence ∧
    op.isRightAssociative = false := by
  unfold leftMinimum
  cases op.isRightAssociative <;>
    simp only [Bool.false_eq_true, reduceIte, Bool.true_eq_false, and_false, or_false, and_true] <;>
      omega

/-- An operator may be at the root of the right operand if it binds more tightly, or as tightly
where the chain groups from the right. -/
theorem rightMinimum_le_iff {op q : InfixOp} : op.rightMinimum ≤ q.precedence ↔
    op.precedence < q.precedence ∨ q.precedence = op.precedence ∧ op.isRightAssociative = true := by
  unfold rightMinimum
  cases op.isRightAssociative <;>
    simp only [Bool.false_eq_true, reduceIte, and_false, or_false, and_true] <;> omega

/-- Of two operators in a row either the second can stand in the right operand of the first, or the
first in the left operand of the second. -/
theorem leftMinimum_le_iff_lt {op next : InfixOp} :
    next.leftMinimum ≤ op.precedence ↔ next.precedence < op.rightMinimum := by
  unfold leftMinimum rightMinimum
  by_cases hsame : next.precedence = op.precedence
  · rw [isRightAssociative_congr hsame]
    split <;> omega
  · split <;> split <;> omega

/-- The token of an operator is an infix token of the level at which the operator binds. -/
theorem infixLevel_of_tokenKind {op : InfixOp} {kind : TokenKind} (h : op.tokenKind? = some kind) :
    kind.infixLevel? = some op.precedence := by
  cases op with
  | binary operator => exact BinaryOp.infixLevel_of_tokenKind h
  | range inclusive => cases inclusive <;> exact (Option.some.inj h) ▸ rfl

end InfixOp

/-- An operator and the operand behind it, as the grammar extends an expression by them. -/
theorem Grammar.Extends.operator {sub : Nat → Phrases} {minimum : Nat} {op : InfixOp}
    {kind : TokenKind} {left right : Expr} {xs ys : List Symbol} (hkind : op.tokenKind? = some kind)
    (hmin : minimum ≤ op.precedence) (h : sub op.rightMinimum xs right ys) :
    Extends sub minimum kind left xs (op.apply left right) ys := by
  cases op with
  | range inclusive =>
    cases inclusive with
    | false =>
      obtain rfl := Option.some.inj hkind
      exact .range hmin h
    | true =>
      obtain rfl := Option.some.inj hkind
      exact .inclusiveRange hmin h
  | binary operator =>
    by_cases hpower : operator = .power
    · subst hpower
      obtain rfl := Option.some.inj hkind
      exact .power hmin h
    · have hright : (InfixOp.binary operator).rightMinimum = operator.precedence + 1 :=
        Grammar.rightMinimum_of_ne hpower
      rw [hright] at h
      exact .binary hkind hpower hmin h

/-! ## Trees of operators -/

/-- A part of a chain: an operand, as a tree without spans, or an operator. -/
inductive Piece where
  | operand (tree : Expr)
  | operator (op : InfixOp)

namespace Expr

/-- The operator at the root of a tree and its operands. -/
def operation? : Expr → Option (InfixOp × Expr × Expr)
  | .binary _ operator left right => some (.binary operator, left, right)
  | .range _ first last inclusive => some (.range inclusive, first, last)
  | _ => none

/-- The operator at the root of a tree. -/
def rootOperator? (e : Expr) : Option InfixOp :=
  e.operation?.map (·.1)

/-- The operands and operators of a tree from left to right; what no operator makes is an
operand. -/
def inorder : Expr → List Piece
  | .binary _ operator left right => left.inorder ++ .operator (.binary operator) :: right.inorder
  | .range _ first last inclusive => first.inorder ++ .operator (.range inclusive) :: last.inorder
  | e => [.operand e.bare]

/-- The operators at the roots of a node's operands bind more tightly than the node's own operator.
One that binds as tightly may stand on the left if the operator groups from the left, and on the
right if it groups from the right. -/
def GroupedAt (node : Expr) : Prop :=
  ∀ op left right, node.operation? = some (op, left, right) →
    (∀ q ∈ left.rootOperator?, op.precedence < q.precedence ∨
      q.precedence = op.precedence ∧ op.isRightAssociative = false) ∧
    (∀ q ∈ right.rootOperator?, op.precedence < q.precedence ∨
      q.precedence = op.precedence ∧ op.isRightAssociative = true)

/-- The operators of a tree stand as they bind. -/
def Grouped : Expr → Prop :=
  Everywhere GroupedAt

/-- Induction on the operators of a tree. -/
@[elab_as_elim]
theorem byOperation {motive : Expr → Prop}
    (operation : ∀ e op left right, e.operation? = some (op, left, right) → motive left →
      motive right → motive e)
    (operand : ∀ e, e.operation? = none → motive e) (e : Expr) : motive e := by
  induction e using byParts with
  | binary span operator left right hleft hright => exact operation _ _ left right rfl hleft hright
  | range span first last inclusive hfirst hlast => exact operation _ _ first last rfl hfirst hlast
  | _ => exact operand _ rfl

section Operation

variable {e left right : Expr} {op : InfixOp}

/-- A tree that an operator makes has its operands as parts, and they stand on both sides of the
operator. -/
theorem operation?_eq_some (h : e.operation? = some (op, left, right)) :
    e.children = [left, right] ∧ e.bare = op.apply left.bare right.bare ∧
      e.inorder = left.inorder ++ .operator op :: right.inorder := by
  cases e with
  | binary | range =>
    obtain ⟨rfl, rfl, rfl⟩ := Option.some.inj h
    exact ⟨rfl, rfl, by rw [inorder]⟩
  | _ => cases h

/-- A tree that no operator makes is a single operand. -/
theorem inorder_operand (h : e.operation? = none) : e.inorder = [.operand e.bare] := by
  cases e with
  | binary | range => cases h
  | _ => rfl

/-- The operator at the root of a tree is the one that makes it. -/
theorem rootOperator?_eq_some (h : e.operation? = some (op, left, right)) :
    e.rootOperator? = some op := by
  rw [rootOperator?, h]
  rfl

/-- The application of an operator is made by it from its operands. -/
theorem operation?_apply (left right : Expr) (op : InfixOp) :
    (op.apply left right).operation? = some (op, left, right) := by
  cases op <;> rfl

/-- A node is grouped if its operands are and the operators at their roots bind tightly enough. -/
theorem grouped_iff (h : e.operation? = some (op, left, right)) :
    e.Grouped ↔ (∀ q ∈ left.rootOperator?, op.leftMinimum ≤ q.precedence) ∧
      (∀ q ∈ right.rootOperator?, op.rightMinimum ≤ q.precedence) ∧ left.Grouped ∧
      right.Grouped := by
  have hroot : e.GroupedAt ↔ (∀ q ∈ left.rootOperator?, op.leftMinimum ≤ q.precedence) ∧
      ∀ q ∈ right.rootOperator?, op.rightMinimum ≤ q.precedence := by
    simp only [InfixOp.leftMinimum_le_iff, InfixOp.rightMinimum_le_iff]
    refine ⟨fun hnode => hnode op left right h, fun hnode op' left' right' h' => ?_⟩
    obtain ⟨rfl, rfl, rfl⟩ := Option.some.inj (h.symm.trans h')
    exact hnode
  unfold Grouped
  rw [everywhere_iff, hroot, (operation?_eq_some h).1]
  simp [and_assoc]

/-- A tree without parts that no operator makes stands as its operators bind. -/
theorem grouped_of_leaf (hnone : e.operation? = none) (hparts : e.children = []) : e.Grouped := by
  refine (everywhere_iff e).mpr ⟨?_, ?_⟩
  · rintro op left right hsome
    rw [hnone] at hsome
    cases hsome
  · rw [hparts]
    exact nofun

end Operation

/-- A tree without its spans is made by the same operator from operands without theirs. -/
theorem operation?_bare (e : Expr) :
    e.bare.operation? = e.operation?.map fun p => (p.1, p.2.1.bare, p.2.2.bare) := by
  cases e with
  | comprehension span binder iterable guard body => cases guard <;> rfl
  | foreign item => cases item <;> rfl
  | _ => rfl

/-- Spans do not count for the operator at the root of a tree. -/
theorem rootOperator?_bare (e : Expr) : e.bare.rootOperator? = e.rootOperator? := by
  rw [rootOperator?, rootOperator?, operation?_bare, Option.map_map]
  rfl

/-- Spans make no difference to the order of operands and operators. -/
theorem inorder_bare (e : Expr) : e.bare.inorder = e.inorder := by
  induction e using byOperation with
  | operation e op left right h hleft hright =>
    have hbare : e.bare.operation? = some (op, left.bare, right.bare) := by
      rw [operation?_bare, h]; rfl
    rw [(operation?_eq_some hbare).2.2, (operation?_eq_some h).2.2, hleft, hright]
  | operand e h =>
    have hbare : e.bare.operation? = none := by rw [operation?_bare, h]; rfl
    rw [inorder_operand hbare, inorder_operand h, bare_bare]

/-- Nor do they to how the operators stand. -/
theorem groupedAt_bare (node : Expr) : node.bare.GroupedAt ↔ node.GroupedAt := by
  unfold GroupedAt
  rw [operation?_bare]
  cases node.operation? with
  | none => exact ⟨nofun, nofun⟩
  | some p =>
    obtain ⟨op, left, right⟩ := p
    simp [rootOperator?_bare]

/-- Spans do not count for whether the operators of a tree stand as they bind. -/
theorem Grouped.of_bare_eq {t u : Expr} (h : t.Grouped) (hbare : u.bare = t.bare) : u.Grouped := by
  have ht : t.bare.Grouped := everywhere_map children_bare (fun node => (groupedAt_bare node).mpr) h
  rw [← hbare] at ht
  exact everywhere_of_bare (fun node => (groupedAt_bare node).mp) ht

/-! ## Attaching an operand -/

/-- Attaches an operator and its right operand to a tree, inside of the right operands of those
operators that bind less tightly. -/
def attach (t : Expr) (op : InfixOp) (operand : Expr) : Expr :=
  match t with
  | .binary span operator left right =>
    if (InfixOp.binary operator).rightMinimum ≤ op.precedence then
      .binary span operator left (right.attach op operand)
    else op.apply (.binary span operator left right) operand
  | .range span first last inclusive =>
    if (InfixOp.range inclusive).rightMinimum ≤ op.precedence then
      .range span first (last.attach op operand) inclusive
    else op.apply (.range span first last inclusive) operand
  | e => op.apply e operand

section Attach

variable {op : InfixOp} {operand : Expr}

/-- What is attached to a tree goes into the right operand of its root, or becomes the right operand
of a new root. -/
theorem attach_cases (t : Expr) (op : InfixOp) (operand : Expr) :
    (∃ q left right, t.operation? = some (q, left, right) ∧ q.rightMinimum ≤ op.precedence ∧
      (t.attach op operand).operation? = some (q, left, right.attach op operand)) ∨
    (t.attach op operand).operation? = some (op, t, operand) ∧
      ∀ q ∈ t.rootOperator?, op.leftMinimum ≤ q.precedence := by
  cases t with
  | binary span operator left right =>
    rw [attach]
    by_cases hinside : (InfixOp.binary operator).rightMinimum ≤ op.precedence
    · rw [if_pos hinside]
      exact .inl ⟨_, left, right, rfl, hinside, rfl⟩
    · rw [if_neg hinside]
      refine .inr ⟨operation?_apply _ _ op, ?_⟩
      rintro _ ⟨⟩
      exact InfixOp.leftMinimum_le_iff_lt.mpr (Nat.not_le.mp hinside)
  | range span first last inclusive =>
    rw [attach]
    by_cases hinside : (InfixOp.range inclusive).rightMinimum ≤ op.precedence
    · rw [if_pos hinside]
      exact .inl ⟨_, first, last, rfl, hinside, rfl⟩
    · rw [if_neg hinside]
      refine .inr ⟨operation?_apply _ _ op, ?_⟩
      rintro _ ⟨⟩
      exact InfixOp.leftMinimum_le_iff_lt.mpr (Nat.not_le.mp hinside)
  | _ => exact .inr ⟨operation?_apply _ _ op, nofun⟩

/-- What is attached stands behind the rest. -/
theorem inorder_attach (t : Expr) (op : InfixOp) {operand : Expr} (h : operand.operation? = none) :
    (t.attach op operand).inorder = t.inorder ++ [.operator op, .operand operand.bare] := by
  induction t using byOperation with
  | operation t q left right ht _ hright =>
    rcases attach_cases t op operand with ⟨q', left', right', ht', -, hattach⟩ | ⟨hattach, -⟩
    · obtain ⟨rfl, rfl, rfl⟩ := Option.some.inj (ht.symm.trans ht')
      rw [(operation?_eq_some hattach).2.2, hright, (operation?_eq_some ht).2.2, List.append_assoc,
        List.cons_append]
    · rw [(operation?_eq_some hattach).2.2, inorder_operand h]
  | operand t ht =>
    rcases attach_cases t op operand with ⟨q, left, right, ht', -⟩ | ⟨hattach, -⟩
    · rw [ht] at ht'
      cases ht'
    · rw [(operation?_eq_some hattach).2.2, inorder_operand h]

/-- The root of a tree to which something is attached stays, or it is the operator that is
attached. -/
theorem rootOperator?_attach {t : Expr} {q : InfixOp}
    (hq : q ∈ (t.attach op operand).rootOperator?) :
    q ∈ t.rootOperator? ∨ q = op := by
  rcases attach_cases t op operand with ⟨root, left, right, ht, -, hattach⟩ | ⟨hattach, -⟩
  · rw [rootOperator?_eq_some hattach] at hq
    rw [rootOperator?_eq_some ht]
    exact .inl hq
  · rw [rootOperator?_eq_some hattach] at hq
    exact .inr (Option.mem_some.mp hq).symm

/-- A grouped tree stays grouped. -/
theorem Grouped.attach {t : Expr} (ht : t.Grouped) (op : InfixOp) {operand : Expr}
    (h : operand.operation? = none) (hgrouped : operand.Grouped) :
    (t.attach op operand).Grouped := by
  have hnone : ∀ q ∈ operand.rootOperator?, op.rightMinimum ≤ q.precedence := by
    rw [rootOperator?, h]
    exact nofun
  induction t using byOperation with
  | operation t q left right hroot _ hright =>
    obtain ⟨hl, hr, hleft, hrightGrouped⟩ := (grouped_iff hroot).mp ht
    rcases attach_cases t op operand with ⟨q', left', right', ht', hinside, hattach⟩ |
      ⟨hattach, houtside⟩
    · obtain ⟨rfl, rfl, rfl⟩ := Option.some.inj (hroot.symm.trans ht')
      refine (grouped_iff hattach).mpr ⟨hl, fun p hp => ?_, hleft, hright hrightGrouped⟩
      rcases rootOperator?_attach hp with hp | rfl
      · exact hr p hp
      · exact hinside
    · exact (grouped_iff hattach).mpr ⟨houtside, hnone, ht, hgrouped⟩
  | operand t hroot =>
    rcases attach_cases t op operand with ⟨q, left, right, ht', -⟩ | ⟨hattach, houtside⟩
    · rw [hroot] at ht'
      cases ht'
    · exact (grouped_iff hattach).mpr ⟨houtside, hnone, ht, hgrouped⟩

end Attach

end Expr

/-! ## Chains -/

/-- The parts of a chain: its first operand, and then operators, each with the operand behind it. -/
def pieces (first : Expr) (more : List (InfixOp × Expr)) : List Piece :=
  .operand first :: more.flatMap fun p => [.operator p.1, .operand p.2]

/-- A token by itself stands for a part of a chain. -/
inductive Symbol.Denotes : Symbol → Piece → Prop
  | truth {v : String} : Denotes ⟨.trueWord, v⟩ (.operand (.boolean .none true))
  | falsehood {v : String} : Denotes ⟨.falseWord, v⟩ (.operand (.boolean .none false))
  | string {v : String} : Denotes ⟨.string, v⟩ (.operand (.string .none v))
  | number {v : String} {x : Float} :
      Number.read? v = some x → Denotes ⟨.number, v⟩ (.operand (.number .none x))
  | name {v : String} : Denotes ⟨.identifier, v⟩ (.operand (.identifier .none v))
  | operator {op : InfixOp} {kind : TokenKind} {v : String} :
      op.tokenKind? = some kind → Denotes ⟨kind, v⟩ (.operator op)

namespace Symbol.Denotes

/-- No part of a chain is an end token. -/
theorem kind_ne_eof {x : Symbol} {piece : Piece} (h : x.Denotes piece) : x.kind ≠ .eof := by
  cases h with
  | operator hkind =>
    rintro rfl
    cases InfixOp.infixLevel_of_tokenKind hkind
  | _ => rintro ⟨⟩

/-- What a token stands for as an operand is made by no operator and has no spans. -/
theorem operand {x : Symbol} {e : Expr} (h : x.Denotes (.operand e)) :
    e.operation? = none ∧ e.Grouped ∧ e.bare = e := by
  cases h with
  | truth | falsehood | string | number | name => exact ⟨rfl, grouped_of_leaf rfl rfl, rfl⟩

/-- An operand of a chain is a term wherever no argument list follows. -/
theorem term {x : Symbol} {e : Expr} (h : x.Denotes (.operand e)) (sub : Nat → Grammar.Phrases)
    {rest : List Symbol} (hno : Grammar.NoArguments rest) :
    Grammar.Term sub (x :: rest) e rest := by
  cases h with
  | truth => exact .truth
  | falsehood => exact .falsehood
  | string => exact .string
  | number hread => exact .number hread
  | name => exact .name hno

end Symbol.Denotes

/-- Each operator of a chain is attached with its right operand to the tree of what stands in front
of it. -/
theorem exists_grouped_append {more : List (InfixOp × Expr)}
    (hmore : ∀ p ∈ more, p.2.operation? = none ∧ p.2.Grouped ∧ p.2.bare = p.2) {t : Expr}
    (ht : t.Grouped) :
    ∃ u : Expr, u.Grouped ∧ u.inorder = t.inorder ++ more.flatMap fun p => [.operator p.1,
      .operand p.2] := by
  induction more generalizing t with
  | nil => exact ⟨t, ht, (List.append_nil _).symm⟩
  | cons p more ih =>
    obtain ⟨hnone, hgrouped, hbare⟩ := hmore p List.mem_cons_self
    obtain ⟨u, hu, horder⟩ := ih (fun p hp => hmore p (List.mem_cons_of_mem _ hp))
      (ht.attach p.1 hnone hgrouped)
    refine ⟨u, hu, ?_⟩
    rw [horder, inorder_attach t p.1 hnone, hbare, List.append_assoc]
    rfl

/-- For every chain there is a grouped tree. -/
theorem exists_grouped {first : Expr} {more : List (InfixOp × Expr)} {xs : List Symbol}
    (h : List.Forall₂ Symbol.Denotes xs (pieces first more)) :
    ∃ t : Expr, t.Grouped ∧ t.inorder = pieces first more := by
  have hoperand : ∀ piece ∈ pieces first more, ∀ e, piece = .operand e →
      e.operation? = none ∧ e.Grouped ∧ e.bare = e :=
    ((List.forall₂_and_left _ _).mp
      (h.flip.imp fun _ _ hx => ⟨fun _ he => Symbol.Denotes.operand (he ▸ hx), hx⟩)).1
  obtain ⟨hnone, hgrouped, hbare⟩ := hoperand _ List.mem_cons_self first rfl
  have hmore : ∀ p ∈ more, p.2.operation? = none ∧ p.2.Grouped ∧ p.2.bare = p.2 := fun p hp =>
    hoperand _ (List.mem_cons_of_mem _ (List.mem_flatMap.mpr ⟨p, hp, by simp⟩)) p.2 rfl
  obtain ⟨t, ht, horder⟩ := exists_grouped_append hmore hgrouped
  refine ⟨t, ht, ?_⟩
  rw [horder, inorder_operand hnone, hbare]
  rfl

/-- The symbols of a chain are those in front of an operator, the operator's own, and those behind
it. -/
theorem Symbol.Denotes.split {xs : List Symbol} {ps qs : List Piece} {p : Piece}
    (h : List.Forall₂ Symbol.Denotes xs (ps ++ p :: qs)) :
    ∃ before x behind, List.Forall₂ Symbol.Denotes before ps ∧ Symbol.Denotes x p ∧
      List.Forall₂ Symbol.Denotes behind qs ∧ xs = before ++ x :: behind := by
  obtain ⟨x, behind, hx, hbehind, hdrop⟩ :=
    List.forall₂_cons_right_iff.mp (List.forall₂_drop_append _ _ _ h)
  refine ⟨_, x, behind, List.forall₂_take_append _ _ _ h, hx, hbehind, ?_⟩
  rw [← hdrop, List.take_append_drop]

namespace Grammar

/-- A grouped tree is a phrase for its chain.  The minimum asked for is at most the level of its
root, and what follows does not go on with the right operand of the root.  Operators below it bind
more tightly, so that it does not go on with their right operands either. -/
theorem chain_of_grouped {t : Expr} (ht : t.Grouped) {xs rest : List Symbol} {levels minimum : Nat}
    (hxs : List.Forall₂ Symbol.Denotes xs t.inorder) (hlevels : t.weight ≤ levels)
    (hmin : ∀ q ∈ t.rootOperator?, minimum ≤ q.precedence)
    (hends : ∀ q ∈ t.rootOperator?, Ends q.rightMinimum rest) (hno : NoArguments rest) :
    Chain (Phrase levels) minimum (xs ++ rest) t.bare rest := by
  induction t using byOperation generalizing xs rest levels minimum with
  | operand t hroot =>
    rw [inorder_operand hroot] at hxs
    obtain ⟨x, xs, hx, hnil, rfl⟩ := List.forall₂_cons_right_iff.mp hxs
    obtain rfl := List.forall₂_nil_right_iff.mp hnil
    exact ⟨t.bare, rest, hx.term _ hno, .done⟩
  | operation t op left right hroot hleft hright =>
    obtain ⟨hparts, hbare, horder⟩ := operation?_eq_some hroot
    obtain ⟨hl, hr, hleftGrouped, hrightGrouped⟩ := (grouped_iff hroot).mp ht
    have hop := rootOperator?_eq_some hroot
    have hweight : t.weight = 1 + (left.weight + right.weight) := by
      rw [weight_eq, hparts, weightAll, weightAll, weightAll, Nat.add_zero]
    rw [horder] at hxs
    -- The symbols of the left operand, the symbol of the operator, and the symbols of the right
    -- operand.
    obtain ⟨before, x, behind, hbefore, hx, hbehind, rfl⟩ := Symbol.Denotes.split hxs
    cases hx with
    | @operator _ kind v hkind =>
      have hlevel := InfixOp.infixLevel_of_tokenKind hkind
      have hfirst : Chain (Phrase levels) minimum
          (before ++ ⟨kind, v⟩ :: (behind ++ rest)) left.bare
          (⟨kind, v⟩ :: (behind ++ rest)) := by
        refine hleft hleftGrouped hbefore (by omega) (fun q hq => ?_)
          (fun q hq level hnext => ?_) ?_
        · exact Nat.le_trans (Nat.le_trans (hmin op hop) op.precedence_le_leftMinimum) (hl q hq)
        · obtain rfl := Option.some.inj (hlevel.symm.trans hnext)
          exact InfixOp.leftMinimum_le_iff_lt.mp (hl q hq)
        · rintro rfl
          cases hlevel
      have hsecond : Phrase levels op.rightMinimum (behind ++ rest) right.bare rest := by
        obtain ⟨k, rfl⟩ : ∃ k, levels = k + 1 := ⟨levels - 1, by omega⟩
        refine ⟨hright hrightGrouped hbehind (by omega) hr (fun q hq => ?_) hno, hends op hop⟩
        exact ends_mono (Nat.le_trans (hr q hq) q.precedence_le_rightMinimum) (hends op hop)
      rw [hbare, List.append_assoc, List.cons_append]
      exact hfirst.snoc (.operator hkind (hmin op hop) hsecond)

/-- A grouped tree is the one statement that its chain stands for. -/
theorem statements_of_grouped {t : Expr} (ht : t.Grouped) {xs : List Symbol}
    (hxs : List.Forall₂ Symbol.Denotes xs t.inorder) : Statements (t.weight + 1) xs [t.bare] := by
  have hchain : Chain (Phrase t.weight) 0 (xs ++ []) t.bare [] :=
    chain_of_grouped ht hxs (Nat.le_refl _) (fun _ _ => Nat.zero_le _) (fun _ _ => trivial) trivial
  rw [List.append_nil] at hchain
  exact .last ⟨hchain, trivial⟩

end Grammar

namespace Parser

/-- The parser returns the one tree that has the operands and operators of a chain from left to
right and groups the operators as they bind.  It fails on a chain by a limit only, and not if no
limit is smaller than the number of tokens. -/
theorem parseTokens_chain {tokens : List Token} {eof : Token} {first : Expr}
    {more : List (InfixOp × Expr)} (hchain : List.Forall₂ Symbol.Denotes (tokens.map Token.symbol)
      (pieces first more)) (heof : eof.kind = .eof)
    (source : String) (limits : Limits) :
    ((∀ failure, parseTokens (tokens ++ [eof]) source limits = .error failure → ¬ failure.IsLimit) →
      ∃ tree, parseTokens (tokens ++ [eof]) source limits = .ok tree ∧
        tree.inorder = pieces first more ∧ tree.Grouped ∧
        ∀ other : Expr, other.inorder = pieces first more → other.Grouped →
          other.bare = tree.bare) ∧
    ((∀ kind, ((tokens.length + 1 : Nat) : Int) ≤ limits.bound kind) →
      ∀ failure, parseTokens (tokens ++ [eof]) source limits = .error failure →
        ¬ failure.IsLimit) := by
  obtain ⟨t, ht, horder⟩ := exists_grouped hchain
  have hstatements := Grammar.statements_of_grouped ht (horder.symm ▸ hchain)
  have hbody := (List.forall₂_and_left _ _).mp (hchain.imp fun _ _ hx => ⟨hx.kind_ne_eof, hx⟩)
  have hlevels : t.weight + 1 ≤ tokens.length + 1 := by
    have hweight := hstatements.weight_le
    rw [weightAll, weightAll, ← size_eq_weight, size_bare, size_eq_weight,
      List.length_map] at hweight
    omega
  rcases parseTokens_complete heof (fun _ htoken => hbody.1 _ (List.mem_map_of_mem htoken))
    hstatements source
      limits with
    ⟨tree, hok, hbare⟩ | ⟨failure, herror, hlimit, hover⟩
  · have hbare : tree.bare = t.bare := hbare
    refine ⟨fun _ => ⟨tree, hok, ?_, ht.of_bare_eq hbare, fun other hother hgrouped => ?_⟩,
      fun _ failure herror => ?_⟩
    · rw [← inorder_bare, hbare, inorder_bare, horder]
    · have hothers := Grammar.statements_of_grouped hgrouped (hother.symm ▸ hchain)
      exact (List.cons.inj (hothers.unique hstatements)).1.trans hbare.symm
    · rw [hok] at herror
      cases herror
  · exact ⟨fun hno => absurd hlimit (hno failure herror), fun hbounds =>
      absurd hbounds (hover hlevels)⟩

/-- Minus groups from the left, the power from the right, and a range binds less tightly than both:
`8 - 3 - x ^ 2 ^ y .. z` is `((8 - 3) - (x ^ (2 ^ y))) .. z`. -/
theorem parse_chain_of_minus_power_range :
    ∃ tree, parse "8 - 3 - x ^ 2 ^ y .. z" .standard = .ok tree ∧ tree.bare =
      .range .none
        (.binary .none .subtract (.binary .none .subtract (.number .none 8) (.number .none 3))
          (.binary .none .power (.identifier .none "x")
            (.binary .none .power (.number .none 2) (.identifier .none "y"))))
        (.identifier .none "z") false := by
  obtain ⟨tokens, htokens, hlength, hchain⟩ : ∃ tokens : List Token,
      tokenize "8 - 3 - x ^ 2 ^ y .. z" .standard = .ok (tokens ++ [⟨.eof, "", ⟨22, 22⟩⟩]) ∧
        tokens.length = 11 ∧
      List.Forall₂ Symbol.Denotes (tokens.map Token.symbol) (pieces (.number .none 8)
        [(.binary .subtract, .number .none 3), (.binary .subtract, .identifier .none "x"),
          (.binary .power, .number .none 2), (.binary .power, .identifier .none "y"),
          (.range false, .identifier .none "z")]) := by
    refine ⟨[⟨.number, "8", ⟨0, 1⟩⟩, ⟨.minus, "-", ⟨2, 3⟩⟩, ⟨.number, "3", ⟨4, 5⟩⟩,
      ⟨.minus, "-", ⟨6, 7⟩⟩, ⟨.identifier, "x", ⟨8, 9⟩⟩, ⟨.caret, "^", ⟨10, 11⟩⟩,
      ⟨.number, "2", ⟨12, 13⟩⟩, ⟨.caret, "^", ⟨14, 15⟩⟩, ⟨.identifier, "y", ⟨16, 17⟩⟩,
      ⟨.dotDot, "..", ⟨18, 20⟩⟩, ⟨.identifier, "z", ⟨21, 22⟩⟩], rfl, rfl, ?_⟩
    have height : Number.read? "8" = some 8 := by decide +kernel
    have hthree : Number.read? "3" = some 3 := by decide +kernel
    have htwo : Number.read? "2" = some 2 := by decide +kernel
    exact .cons (.number height) <| .cons (.operator rfl) <| .cons (.number hthree) <|
      .cons (.operator rfl) <| .cons .name <| .cons (.operator rfl) <| .cons (.number htwo) <|
      .cons (.operator rfl) <| .cons .name <| .cons (.operator rfl) <| .cons .name .nil
  have heof : (Token.mk .eof "" ⟨22, 22⟩).kind = .eof := rfl
  obtain ⟨hparse, hroom⟩ := parseTokens_chain hchain heof "8 - 3 - x ^ 2 ^ y .. z" .standard
  rw [hlength] at hroom
  rw [parse, htokens]
  obtain ⟨tree, hok, -, -, hunique⟩ := hparse (hroom fun kind => by cases kind <;> decide)
  have hexpected : ∀ e : Expr, e.bare = e → e.inorder = _ → e.Grouped → tree.bare = e :=
    fun e hbare horder hgrouped => (hunique e horder hgrouped).symm.trans hbare
  refine ⟨tree, hok, hexpected _ rfl rfl ?_⟩
  refine (grouped_iff rfl).mpr ⟨by rintro _ ⟨⟩; decide, by rintro _ ⟨⟩, ?_, grouped_of_leaf rfl rfl⟩
  refine (grouped_iff rfl).mpr ⟨by rintro _ ⟨⟩; decide, by rintro _ ⟨⟩; decide, ?_, ?_⟩
  · exact (grouped_iff rfl).mpr ⟨by rintro _ ⟨⟩, by rintro _ ⟨⟩, grouped_of_leaf rfl rfl,
      grouped_of_leaf rfl rfl⟩
  · refine (grouped_iff rfl).mpr ⟨by rintro _ ⟨⟩, by rintro _ ⟨⟩; decide,
      grouped_of_leaf rfl rfl, ?_⟩
    exact (grouped_iff rfl).mpr ⟨by rintro _ ⟨⟩, by rintro _ ⟨⟩, grouped_of_leaf rfl rfl,
      grouped_of_leaf rfl rfl⟩

end Parser

end Formulary
