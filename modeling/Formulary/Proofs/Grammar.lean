import Formulary.Number.Reading
import Formulary.Proofs.Tree
import Formulary.Token.Basic

/-!
# The grammar of formulas

The grammar says which trees a sequence of tokens stands for, without saying how to find them.  It
speaks of symbols, which are tokens without their place in the source, and of bare trees.

A relation of the grammar reads `R xs t ys`: the symbols `xs` begin with a phrase for `t`, and `ys`
is what follows it.  What follows matters, because a phrase takes up as much as it can: `Ends
minimum ys` says that the next symbol cannot go on an expression of that minimum, and a name is an
identifier only if no argument list follows.

Each construct is given relative to `sub`, the expressions nested in it.  `Phrase levels minimum`
closes the circle: it holds the expressions with extensions of level `minimum` or above in which at
most `levels` expressions are nested in one another.  `Sentence` is the whole grammar, nested at
will.
-/

set_option autoImplicit false

namespace Formulary

/-- A token without its place in the source. -/
structure Symbol where
  kind : TokenKind
  value : String
deriving DecidableEq, Repr

/-- The symbol of a token. -/
def Token.symbol (token : Token) : Symbol :=
  ⟨token.kind, token.value⟩

/-- The level of a token that goes on an expression: 11 for an index, 10 for a power, 8 and 7 for
products and sums, 6 for ranges, 5 for comparisons, 4 and 3 for `&&` and `||`, 2 for `?`, 1 for
`=`. -/
def TokenKind.infixLevel? : TokenKind → Option Nat
  | .leftBracket => some 11
  | .caret => some 10
  | .star | .slash | .percent => some 8
  | .plus | .minus => some 7
  | .dotDot | .dotDotEqual => some 6
  | .equal | .notEqual | .less | .greater | .lessEqual | .greaterEqual => some 5
  | .and => some 4
  | .or => some 3
  | .question => some 2
  | .assign => some 1
  | _ => none

/-- The kind of token that writes a binary operator of the language. -/
def BinaryOp.tokenKind? : BinaryOp → Option TokenKind
  | .add => some .plus
  | .subtract => some .minus
  | .multiply => some .star
  | .divide => some .slash
  | .modulo => some .percent
  | .power => some .caret
  | .equal => some .equal
  | .notEqual => some .notEqual
  | .less => some .less
  | .greater => some .greater
  | .lessEqual => some .lessEqual
  | .greaterEqual => some .greaterEqual
  | .and => some .and
  | .or => some .or
  | .other _ => none

/-- The token of an operator goes on an expression at the operator's own level. -/
theorem BinaryOp.infixLevel_of_tokenKind {operator : BinaryOp} {kind : TokenKind}
    (h : operator.tokenKind? = some kind) : kind.infixLevel? = some operator.precedence := by
  cases operator <;> simp only [tokenKind?, Option.some.injEq, reduceCtorEq] at h <;>
    subst h <;> rfl

namespace Grammar

/-- Symbols, the tree that a phrase at their front stands for, and the symbols behind the phrase. -/
abbrev Phrases := List Symbol → Expr → List Symbol → Prop

/-- The next symbol cannot go on an expression of a minimum: it is no infix token of that level or
above. -/
def Ends (minimum : Nat) : List Symbol → Prop
  | [] => True
  | next :: _ => ∀ level, next.kind.infixLevel? = some level → level < minimum

/-- No argument list follows. -/
def NoArguments : List Symbol → Prop
  | [] => True
  | next :: _ => next.kind ≠ .leftParen

section Constructs

variable (sub : Nat → Phrases)

/-- One expression or several, separated by commas. -/
inductive Elements : List Symbol → List Expr → List Symbol → Prop
  | last {xs t ys} : sub 0 xs t ys → Elements xs [t] ys
  | more {xs t v ys ts zs} : sub 0 xs t (⟨.comma, v⟩ :: ys) → Elements ys ts zs →
      Elements xs (t :: ts) zs

/-- A list of expressions, possibly empty, and the symbol that closes it. -/
inductive Items (closing : TokenKind) : List Symbol → List Expr → List Symbol → Prop
  | none {v ys} : Items closing (⟨closing, v⟩ :: ys) [] ys
  | some {xs ts v ys} : Elements sub xs ts (⟨closing, v⟩ :: ys) → Items closing xs ts ys

/-- What can stand at the start of an expression. -/
inductive Term : Phrases
  | truth {v ys} : Term (⟨.trueWord, v⟩ :: ys) (.boolean .none true) ys
  | falsehood {v ys} : Term (⟨.falseWord, v⟩ :: ys) (.boolean .none false) ys
  | string {v ys} : Term (⟨.string, v⟩ :: ys) (.string .none v) ys
  | number {v x ys} : Number.read? v = some x → Term (⟨.number, v⟩ :: ys) (.number .none x) ys
  | name {v ys} : NoArguments ys → Term (⟨.identifier, v⟩ :: ys) (.identifier .none v) ys
  | call {v w xs ts ys} : Items sub .rightParen xs ts ys →
      Term (⟨.identifier, v⟩ :: ⟨.leftParen, w⟩ :: xs) (.call .none v ts) ys
  | group {v w xs t ys} : sub 0 xs t (⟨.rightParen, w⟩ :: ys) → Term (⟨.leftParen, v⟩ :: xs) t ys
  | array {v xs ts ys} : Items sub .rightBracket xs ts ys →
      Term (⟨.leftBracket, v⟩ :: xs) (.array .none ts) ys
  | negate {v xs t ys} : sub 9 xs t ys → Term (⟨.minus, v⟩ :: xs) (.unary .none .negate t) ys
  | not {v xs t ys} : sub 9 xs t ys → Term (⟨.not, v⟩ :: xs) (.unary .none .not t) ys
  | conditional {u v w xs c ys a zs b rest} : sub 0 xs c (⟨.then, v⟩ :: ys) →
      sub 0 ys a (⟨.else, w⟩ :: zs) → sub 0 zs b rest →
      Term (⟨.if, u⟩ :: xs) (.conditional .none c a b) rest
  | comprehension {u x v w xs i ys b rest} : sub 0 xs i (⟨.then, w⟩ :: ys) → sub 0 ys b rest →
      Term (⟨.for, u⟩ :: ⟨.identifier, x⟩ :: ⟨.in, v⟩ :: xs)
        (.comprehension .none x i .none b) rest
  | guarded {u x v w z xs i ys g zs b rest} : sub 0 xs i (⟨.when, w⟩ :: ys) →
      sub 0 ys g (⟨.then, z⟩ :: zs) → sub 0 zs b rest →
      Term (⟨.for, u⟩ :: ⟨.identifier, x⟩ :: ⟨.in, v⟩ :: xs)
        (.comprehension .none x i (.some g) b) rest

/-- What an expression `left` becomes by an extension of level `minimum` or above that starts with a
symbol of the given kind; the rest of the extension is in front of what follows. -/
inductive Extends (minimum : Nat) : TokenKind → Expr → Phrases
  | index {left xs i v ys} : minimum ≤ 11 → sub 0 xs i (⟨.rightBracket, v⟩ :: ys) →
      Extends minimum .leftBracket left xs (.index .none left i) ys
  | power {left xs right ys} : minimum ≤ 10 → sub 10 xs right ys →
      Extends minimum .caret left xs (.binary .none .power left right) ys
  | binary {operator kind left xs right ys} : BinaryOp.tokenKind? operator = .some kind →
      operator ≠ .power → minimum ≤ operator.precedence →
      sub (operator.precedence + 1) xs right ys →
      Extends minimum kind left xs (.binary .none operator left right) ys
  | range {left xs last ys} : minimum ≤ 6 → sub 7 xs last ys →
      Extends minimum .dotDot left xs (.range .none left last false) ys
  | inclusiveRange {left xs last ys} : minimum ≤ 6 → sub 7 xs last ys →
      Extends minimum .dotDotEqual left xs (.range .none left last true) ys
  | ternary {left xs a v ys b zs} : minimum ≤ 2 → sub 0 xs a (⟨.colon, v⟩ :: ys) →
      sub 2 ys b zs → Extends minimum .question left xs (.conditional .none left a b) zs
  | assign {x xs value ys} : minimum ≤ 1 → sub 1 xs value ys →
      Extends minimum .assign (.identifier .none x) xs (.assign .none x value) ys

/-- What an expression becomes by any number of extensions, one after the other. -/
inductive Climbs (minimum : Nat) : Expr → Phrases
  | done {left xs} : Climbs minimum left xs left xs
  | step {kind v left xs next ys t zs} : Extends sub minimum kind left xs next ys →
      Climbs minimum next ys t zs → Climbs minimum left (⟨kind, v⟩ :: xs) t zs

/-- A term and any number of extensions of level `minimum` or above. -/
def Chain (minimum : Nat) : Phrases := fun xs t ys =>
  ∃ first rest, Term sub xs first rest ∧ Climbs sub minimum first rest t ys

end Constructs

/-- An expression whose extensions are of level `minimum` or above, with at most `levels`
expressions nested in one another, that takes up as much as it can. -/
def Phrase : Nat → Nat → Phrases
  | 0, _ => fun _ _ _ => False
  | levels + 1, minimum => fun xs t ys => Chain (Phrase levels) minimum xs t ys ∧ Ends minimum ys

/-- One expression after the other, at least one, and nothing behind them. -/
inductive Statements (levels : Nat) : List Symbol → List Expr → Prop
  | last {xs t} : Phrase levels 0 xs t [] → Statements levels xs [t]
  | more {xs t ys ts} : Phrase levels 0 xs t ys → Statements levels ys ts →
      Statements levels xs (t :: ts)

/-- The tree of a program: that of a single statement, or all of them in order. -/
def assemble : List Expr → Expr
  | [single] => single
  | several => .program .none several

/-- The tree that symbols stand for, with at most `levels` expressions nested in one another. -/
def Program (levels : Nat) (xs : List Symbol) (t : Expr) : Prop :=
  ∃ ts, Statements levels xs ts ∧ t = assemble ts

/-- The tree that symbols stand for. -/
def Sentence (xs : List Symbol) (t : Expr) : Prop :=
  ∃ levels, Program levels xs t

/-- An expression with extensions can be extended once more. -/
theorem Climbs.snoc {sub : Nat → Phrases} {minimum : Nat} {left t next : Expr}
    {xs ys zs : List Symbol} {x : Symbol} (h : Climbs sub minimum left xs t (x :: ys))
    (hext : Extends sub minimum x.kind t ys next zs) : Climbs sub minimum left xs next zs := by
  generalize hrest : x :: ys = rest at h
  induction h with
  | done =>
    subst hrest
    exact .step hext .done
  | step hstep _ ih => exact .step hstep (ih hext hrest)

/-- A chain goes on with one extension more at its end. -/
theorem Chain.snoc {sub : Nat → Phrases} {minimum : Nat} {t next : Expr} {xs ys zs : List Symbol}
    {x : Symbol} (h : Chain sub minimum xs t (x :: ys))
    (hext : Extends sub minimum x.kind t ys next zs) : Chain sub minimum xs next zs := by
  obtain ⟨first, rest, hterm, hclimbs⟩ := h
  exact ⟨first, rest, hterm, hclimbs.snoc hext⟩

/-! ## Phrases take something from the front -/

/-- A list is what remains of another when something is taken from its front. -/
def Behind (ys xs : List Symbol) : Prop :=
  ∃ used, used ≠ [] ∧ xs = used ++ ys

/-- Behind the first of some symbols come the others. -/
theorem Behind.of_cons (x : Symbol) (ys : List Symbol) : Behind ys (x :: ys) :=
  ⟨[x], by simp, rfl⟩

/-- What is taken from the front of a list, and then from the rest, is taken from the front of the
list. -/
theorem Behind.trans {xs ys zs : List Symbol} (h : Behind zs ys) (h' : Behind ys xs) :
    Behind zs xs := by
  obtain ⟨used, hused, rfl⟩ := h
  obtain ⟨used', hused', rfl⟩ := h'
  exact ⟨used' ++ used, by simp [hused], by simp⟩

/-- What lies behind a phrase lies behind it also when one more symbol stands in front. -/
theorem Behind.under {xs ys : List Symbol} (h : Behind ys xs) (x : Symbol) : Behind ys (x :: xs) :=
  h.trans (.of_cons x xs)

/-- What lies behind a symbol that follows a phrase lies behind the phrase. -/
theorem Behind.past {xs ys : List Symbol} {y : Symbol} (h : Behind (y :: ys) xs) : Behind ys xs :=
  (Behind.of_cons y ys).trans h

/-- What is behind something is shorter than the whole. -/
theorem Behind.length_lt {xs ys : List Symbol} (h : Behind ys xs) : ys.length < xs.length := by
  obtain ⟨used, hused, rfl⟩ := h
  have hpos := List.length_pos_iff.mpr hused
  rw [List.length_append]
  omega

/-- What is behind something is part of the whole. -/
theorem Behind.mem {xs ys : List Symbol} (h : Behind ys xs) {y : Symbol}
    (hy : y ∈ ys) : y ∈ xs := by
  obtain ⟨used, -, rfl⟩ := h
  exact List.mem_append_right used hy

/-- Every phrase takes something from the front of the symbols it is read from. -/
def Advances (sub : Nat → Phrases) : Prop :=
  ∀ minimum xs t ys, sub minimum xs t ys → Behind ys xs

section Progress

variable {sub : Nat → Phrases} (hsub : Advances sub)
include hsub

/-- One or more elements take something from the front. -/
theorem Elements.behind {xs ys : List Symbol} {ts : List Expr} (h : Elements sub xs ts ys) :
    Behind ys xs := by
  induction h with
  | last h => exact hsub _ _ _ _ h
  | more h _ ih => exact ih.trans (hsub _ _ _ _ h).past

/-- A list with the symbol that closes it takes something from the front. -/
theorem Items.behind {closing : TokenKind} {xs ys : List Symbol} {ts : List Expr}
    (h : Items sub closing xs ts ys) : Behind ys xs := by
  cases h with
  | none => exact .of_cons _ _
  | some h => exact (h.behind hsub).past

/-- Every element of a list takes a symbol at least. -/
theorem Elements.length_le {xs ys : List Symbol} {ts : List Expr} (h : Elements sub xs ts ys) :
    ts.length + ys.length ≤ xs.length := by
  induction h with
  | last h =>
    have hlength := (hsub _ _ _ _ h).length_lt
    simp only [List.length_singleton]
    omega
  | more h _ ih =>
    have hlength := (hsub _ _ _ _ h).length_lt
    simp only [List.length_cons] at hlength ⊢
    omega

/-- A list has fewer elements than the symbols that it is read from. -/
theorem Items.length_lt {closing : TokenKind} {xs ys : List Symbol} {ts : List Expr}
    (h : Items sub closing xs ts ys) : ts.length < xs.length := by
  cases h with
  | none => simp
  | some h =>
    have hlength := h.length_le hsub
    simp only [List.length_cons] at hlength
    omega

/-- A term takes something from the front. -/
theorem Term.behind {xs ys : List Symbol} {t : Expr} (h : Term sub xs t ys) : Behind ys xs := by
  cases h with
  | truth | falsehood | string | number | name => exact .of_cons _ _
  | call h => exact ((h.behind hsub).under _).under _
  | group h => exact (hsub _ _ _ _ h).past.under _
  | array h => exact (h.behind hsub).under _
  | negate h | not h => exact (hsub _ _ _ _ h).under _
  | conditional hc ha hb =>
    have hthen := (hsub _ _ _ _ hc).past
    have helse := (hsub _ _ _ _ ha).past
    exact (((hsub _ _ _ _ hb).trans helse).trans hthen).under _
  | comprehension hi hb =>
    have hthen := (hsub _ _ _ _ hi).past
    exact ((((hsub _ _ _ _ hb).trans hthen).under _).under _).under _
  | guarded hi hg hb =>
    have hwhen := (hsub _ _ _ _ hi).past
    have hthen := (hsub _ _ _ _ hg).past
    exact (((((hsub _ _ _ _ hb).trans hthen).trans hwhen).under _).under _).under _

/-- An extension takes something more behind the symbol that starts it. -/
theorem Extends.behind {minimum : Nat} {kind : TokenKind} {left t : Expr} {xs ys : List Symbol}
    (h : Extends sub minimum kind left xs t ys) : Behind ys xs := by
  cases h with
  | index _ h => exact (hsub _ _ _ _ h).past
  | power _ h | binary _ _ _ h | range _ h | inclusiveRange _ h | assign _ h =>
    exact hsub _ _ _ _ h
  | ternary _ ha hb => exact (hsub _ _ _ _ hb).trans (hsub _ _ _ _ ha).past

/-- Extensions take nothing, if there are none, or something from the front. -/
theorem Climbs.behind {minimum : Nat} {left t : Expr} {xs ys : List Symbol}
    (h : Climbs sub minimum left xs t ys) : ys = xs ∨ Behind ys xs := by
  induction h with
  | done => exact .inl rfl
  | @step kind v _ _ _ _ _ _ hext _ ih =>
    have hone := (hext.behind hsub).under ⟨kind, v⟩
    rcases ih with rfl | ih
    · exact .inr hone
    · exact .inr (ih.trans hone)

/-- Extensions take nothing back. -/
theorem Climbs.length_le {minimum : Nat} {left t : Expr} {xs ys : List Symbol}
    (h : Climbs sub minimum left xs t ys) : ys.length ≤ xs.length := by
  rcases h.behind hsub with rfl | hbehind
  · exact Nat.le_refl _
  · exact Nat.le_of_lt hbehind.length_lt

/-- A chain takes something from the front. -/
theorem Chain.behind {minimum : Nat} {t : Expr} {xs ys : List Symbol}
    (h : Chain sub minimum xs t ys) : Behind ys xs := by
  obtain ⟨first, rest, hterm, hclimbs⟩ := h
  rcases hclimbs.behind hsub with rfl | hrest
  · exact hterm.behind hsub
  · exact hrest.trans (hterm.behind hsub)

end Progress

/-- Phrases take something from the front, with however many levels. -/
theorem Phrase.advances (levels : Nat) : Advances (Phrase levels) := by
  induction levels with
  | zero => exact fun _ _ _ _ h => h.elim
  | succ levels ih => exact fun _ _ _ _ h => h.1.behind ih

/-- Statements are not read from nothing. -/
theorem Statements.ne_nil {levels : Nat} {xs : List Symbol} {ts : List Expr}
    (h : Statements levels xs ts) :
    xs ≠ [] := by
  rintro rfl
  cases h with
  | last h | more h => exact absurd (Phrase.advances _ _ _ _ _ h).length_lt (Nat.not_lt_zero _)

end Grammar

end Formulary
