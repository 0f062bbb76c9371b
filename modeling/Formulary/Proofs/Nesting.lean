import Formulary.Proofs.Recognition

/-!
# How many levels a phrase needs

`Needs levels holds` says of a family of statements, one for each number of levels, that it holds
from `levels` on and with no fewer.

The grammar is deterministic: whatever the levels, at the front of a list of symbols there is one
phrase of a minimum at most (`Phrase.unique`), one term and one extension.  So a derivation with few
levels takes the same parts as one with many, and what a construct needs is found from what its
parts need.  There is one rule for each construct.
-/

set_option autoImplicit false

namespace Formulary

namespace Parser

/-- Where a reader has room for a phrase, no other phrase stands at the front of the stream. -/
theorem Holds.unique {result : Except Failure (Expr × Stream)} {limits : Limits}
    {enough enough' : Prop} {t t' : Expr} {ys ys' : List Symbol}
    (h : Holds result (fun found s => found.bare = t ∧ s.symbols = ys) (Exceeded limits enough t))
    (h' : Holds result (fun found s => found.bare = t' ∧ s.symbols = ys')
      (Exceeded limits enough' t'))
    (henough : enough) (hlists : t.ListsWithin limits) : t = t' ∧ ys = ys' := by
  cases result with
  | ok found => exact ⟨h.1.symm.trans h'.1, h.2.symm.trans h'.2⟩
  | error failure => exact absurd ⟨henough, hlists⟩ h.not_room

end Parser

namespace Grammar

open Formulary.Parser Formulary.Expr

/-! ## The grammar is deterministic -/

section Unique

variable {n k minimum : Nat} {xs ys ys' : List Symbol} {t t' : Expr}

/-- At the front of a list of symbols there is one expression of a minimum at most. -/
theorem Phrase.unique (h : Phrase n minimum xs t ys) (h' : Phrase k minimum xs t' ys') :
    t = t' ∧ ys = ys' := by
  rw [← symbols_streamOf xs] at h h'
  have hread := @expression_complete (roomFor xs.length) rfl n n _ _ _ _ h
  have hread' := @expression_complete (roomFor xs.length) rfl n k _ _ _ _ h'
  have hweight := Phrase.measured n _ _ _ _ h
  rw [symbols_streamOf] at hweight
  exact hread.unique hread' (Nat.le_refl n) (listsWithin_roomFor (by omega))

/-- At the front of given symbols there is one term at most, with however many levels. -/
theorem Term.unique (h : Term (Phrase n) xs t ys) (h' : Term (Phrase k) xs t' ys') :
    t = t' ∧ ys = ys' := by
  rw [← symbols_streamOf xs] at h h'
  have hread := operand_complete (Phrase.advances n) (Phrase.opens n)
    (@expression_complete (roomFor xs.length) rfl n n) _ h
  have hread' := operand_complete (Phrase.advances k) (Phrase.opens k)
    (@expression_complete (roomFor xs.length) rfl n k) _ h'
  have hweight := h.weight_le (Phrase.measured n)
  rw [symbols_streamOf] at hweight
  exact hread.unique hread' (Nat.le_refl n) (listsWithin_roomFor (by omega))

end Unique

/-- The least minimum at which the right operand of an operator is read. -/
def rightMinimum (operator : BinaryOp) : Nat :=
  if operator.isRightAssociative then operator.precedence else operator.precedence + 1

/-- But for a power, the right operand is read one level above its operator. -/
theorem rightMinimum_of_ne {operator : BinaryOp} (h : operator ≠ .power) :
    rightMinimum operator = operator.precedence + 1 := by
  simp [rightMinimum, BinaryOp.isRightAssociative_of_ne h]

/-- What an extension makes of the expression on its left with what stands behind its first
symbol. -/
def Makes (sub : Nat → Phrases) (left : Expr) (xs : List Symbol) (t : Expr) (ys : List Symbol) :
    Extension → Prop
  | .index => ∃ i v, sub 0 xs i (⟨.rightBracket, v⟩ :: ys) ∧ t = .index .none left i
  | .binary operator =>
    ∃ right, sub (rightMinimum operator) xs right ys ∧ t = .binary .none operator left right
  | .range inclusive => ∃ last, sub 7 xs last ys ∧ t = .range .none left last inclusive
  | .ternary =>
    ∃ a v zs b, sub 0 xs a (⟨.colon, v⟩ :: zs) ∧ sub 2 zs b ys ∧ t = .conditional .none left a b
  | .assign => ∃ x value, left = .identifier .none x ∧ sub 1 xs value ys ∧ t = .assign .none x value

/-- An extension makes of the expression on its left what the kind of its first symbol stands
for. -/
theorem Extends.makes {sub : Nat → Phrases} {minimum : Nat} {kind : TokenKind} {left t : Expr}
    {xs ys : List Symbol} (h : Extends sub minimum kind left xs t ys) :
    ∃ extension, kind.extension? = some extension ∧ Makes sub left xs t ys extension := by
  cases h with
  | index _ hi => exact ⟨.index, rfl, _, _, hi, rfl⟩
  | power _ hright => exact ⟨.binary .power, rfl, _, hright, rfl⟩
  | binary hkind hpower _ hright =>
    rw [← rightMinimum_of_ne hpower] at hright
    exact ⟨.binary _, TokenKind.extension?_eq_some_iff.mpr hkind, _, hright, rfl⟩
  | range _ hlast => exact ⟨.range false, rfl, _, hlast, rfl⟩
  | inclusiveRange _ hlast => exact ⟨.range true, rfl, _, hlast, rfl⟩
  | ternary _ ha hb => exact ⟨.ternary, rfl, _, _, _, _, ha, hb, rfl⟩
  | assign _ hvalue => exact ⟨.assign, rfl, _, _, rfl, hvalue, rfl⟩

section Unique

variable {n k minimum : Nat} {left t t' : Expr} {xs ys zs : List Symbol}

/-- An extension of given symbols makes one tree at most, with however many levels. -/
theorem Extends.unique {kind : TokenKind} {ys' : List Symbol}
    (h : Extends (Phrase n) minimum kind left xs t ys)
    (h' : Extends (Phrase k) minimum kind left xs t' ys') : t = t' ∧ ys = ys' := by
  obtain ⟨extension, hkind, hmakes⟩ := h.makes
  obtain ⟨extension', hkind', hmakes'⟩ := h'.makes
  obtain rfl := Option.some.inj (hkind.symm.trans hkind')
  cases extension with
  | index =>
    obtain ⟨i, v, hi, rfl⟩ := hmakes
    obtain ⟨i', v', hi', rfl⟩ := hmakes'
    obtain ⟨rfl, hrest⟩ := hi.unique hi'
    exact ⟨rfl, (List.cons.inj hrest).2⟩
  | binary operator =>
    obtain ⟨right, hright, rfl⟩ := hmakes
    obtain ⟨right', hright', rfl⟩ := hmakes'
    obtain ⟨rfl, hrest⟩ := hright.unique hright'
    exact ⟨rfl, hrest⟩
  | range inclusive =>
    obtain ⟨last, hlast, rfl⟩ := hmakes
    obtain ⟨last', hlast', rfl⟩ := hmakes'
    obtain ⟨rfl, hrest⟩ := hlast.unique hlast'
    exact ⟨rfl, hrest⟩
  | ternary =>
    obtain ⟨a, v, zs, b, ha, hb, rfl⟩ := hmakes
    obtain ⟨a', v', zs', b', ha', hb', rfl⟩ := hmakes'
    obtain ⟨rfl, hcolon⟩ := ha.unique ha'
    obtain ⟨-, rfl⟩ := List.cons.inj hcolon
    obtain ⟨rfl, hrest⟩ := hb.unique hb'
    exact ⟨rfl, hrest⟩
  | assign =>
    obtain ⟨x, value, rfl, hvalue, rfl⟩ := hmakes
    obtain ⟨x', value', hx, hvalue', rfl⟩ := hmakes'
    obtain ⟨rfl, hrest⟩ := hvalue.unique hvalue'
    obtain ⟨-, rfl⟩ := Expr.identifier.inj hx
    exact ⟨rfl, hrest⟩

/-- Extensions that go further than others begin with them. -/
theorem Climbs.split {middle : Expr} {x : Symbol}
    (h : Climbs (Phrase n) minimum left xs middle (x :: ys))
    (h' : Climbs (Phrase k) minimum left xs t zs) (hfurther : zs.length ≤ ys.length) :
    Climbs (Phrase k) minimum left xs middle (x :: ys) ∧
      ∃ next ws, Extends (Phrase k) minimum x.kind middle ys next ws ∧
        Climbs (Phrase k) minimum next ws t zs := by
  generalize hrest : x :: ys = rest at h
  induction h with
  | done =>
    subst hrest
    cases h' with
    | done => exact absurd hfurther (by simp)
    | step hext hclimbs => exact ⟨.done, _, _, hext, hclimbs⟩
  | step hext hmore ih =>
    cases h' with
    | done =>
      have hfirst := (hext.behind (Phrase.advances n)).length_lt
      have hmore' := hmore.length_le (Phrase.advances n)
      rw [← hrest] at hmore'
      simp only [List.length_cons] at hmore' hfurther
      omega
    | step hext' hmore' =>
      obtain ⟨rfl, rfl⟩ := hext.unique hext'
      obtain ⟨hclimbs, hnext⟩ := ih hmore' hrest
      exact ⟨.step hext' hclimbs, hnext⟩

/-- An expression that ends with an extension is one that is extended, whatever the levels. -/
theorem Chain.snoc_iff {m : Nat} {x : Symbol} (h : Chain (Phrase n) minimum xs left (x :: ys))
    (hext : Extends (Phrase m) minimum x.kind left ys t zs) :
    Chain (Phrase k) minimum xs t zs ↔
      Chain (Phrase k) minimum xs left (x :: ys) ∧
      Extends (Phrase k) minimum x.kind left ys t zs := by
  constructor
  · rintro ⟨first', rest', hterm', hclimbs'⟩
    obtain ⟨first, rest, hterm, hclimbs⟩ := h
    obtain ⟨rfl, rfl⟩ := hterm.unique hterm'
    have hfurther := (hext.behind (Phrase.advances m)).length_lt
    obtain ⟨hleft, next, ws, hext', -⟩ := hclimbs.split hclimbs' (Nat.le_of_lt hfurther)
    obtain ⟨rfl, rfl⟩ := hext.unique hext'
    exact ⟨⟨_, _, hterm', hleft⟩, hext'⟩
  · rintro ⟨hleft, hext'⟩
    exact hleft.snoc hext'

/-- The elements of a list end at one place. -/
theorem Elements.rest_unique {ts : List Expr} (h : Elements (Phrase n) xs ts ys)
    (h' : Elements (Phrase k) xs ts zs) : ys = zs := by
  induction h with
  | last h =>
    cases h' with
    | last h' => exact (h.unique h').2
    | more _ hmore' => cases hmore'
  | more h hmore ih =>
    cases h' with
    | last => cases hmore
    | more h' hmore' =>
      obtain ⟨-, hcomma⟩ := h.unique h'
      obtain ⟨-, rfl⟩ := List.cons.inj hcomma
      exact ih hmore'

end Unique

/-! ## What holds from a number of levels on -/

/-- A family of statements holds from a number of levels on, and with no fewer. -/
def Needs (levels : Nat) (holds : Nat → Prop) : Prop :=
  ∀ k, holds k ↔ levels ≤ k

namespace Needs

/-- What needs a number of levels holds with that number. -/
theorem holds {n : Nat} {p : Nat → Prop} (h : Needs n p) : p n :=
  (h n).mpr (Nat.le_refl n)

/-- What holds with any number of levels needs none. -/
theorem always {p : Nat → Prop} (h : ∀ k, p k) : Needs 0 p :=
  fun k => ⟨fun _ => Nat.zero_le k, fun _ => h k⟩

/-- Equivalent families of statements need the same levels. -/
theorem congr {n : Nat} {p q : Nat → Prop} (h : Needs n p) (hpq : ∀ k, q k ↔ p k) : Needs n q :=
  fun k => (hpq k).trans (h k)

/-- Two statements together need as many levels as the one that needs more. -/
theorem and {n m : Nat} {p q : Nat → Prop} (hp : Needs n p) (hq : Needs m q) :
    Needs (max n m) fun k => p k ∧ q k :=
  fun k => (and_congr (hp k) (hq k)).trans Nat.max_le.symm

variable {n n' n'' minimum : Nat} {t t' t'' : Expr} {ts : List Expr} {xs ys zs rest : List Symbol}

/-- A phrase needs one level more than the chain that it is. -/
theorem phrase (h : Needs n fun k => Chain (Phrase k) minimum xs t ys) (hends : Ends minimum ys) :
    Needs (n + 1) fun k => Phrase k minimum xs t ys := by
  intro k
  cases k with
  | zero => exact ⟨False.elim, fun h => absurd h (Nat.not_succ_le_zero n)⟩
  | succ k => exact (and_iff_left hends).trans ((h k).trans Nat.succ_le_succ_iff.symm)

/-! ## Terms -/

/-- A chain that is a term needs what the term needs. -/
theorem chain (h : Needs n fun k => Term (Phrase k) xs t ys) :
    Needs n fun k => Chain (Phrase k) minimum xs t ys := by
  refine h.congr fun k => ⟨?_, fun hterm => ⟨_, _, hterm, .done⟩⟩
  rintro ⟨first, rest, hterm, -⟩
  obtain ⟨rfl, rfl⟩ := h.holds.unique hterm
  exact hterm

/-- An expression in parentheses needs the levels of the phrase inside. -/
theorem group {v w : String} (h : Needs n fun k => Phrase k 0 xs t (⟨.rightParen, w⟩ :: ys)) :
    Needs n fun k => Term (Phrase k) (⟨.leftParen, v⟩ :: xs) t ys := by
  refine h.congr fun k => ⟨fun hterm => ?_, .group⟩
  cases hterm with
  | group ht =>
    obtain ⟨-, hclose⟩ := h.holds.unique ht
    rwa [hclose]

/-- The negation of a number needs the levels of its operand. -/
theorem negate {v : String} (h : Needs n fun k => Phrase k 9 xs t ys) :
    Needs n fun k => Term (Phrase k) (⟨.minus, v⟩ :: xs) (.unary .none .negate t) ys := by
  refine h.congr fun k => ⟨fun hterm => ?_, .negate⟩
  cases hterm with
  | negate ht => exact ht

/-- The negation of a truth value needs the levels of its operand. -/
theorem not {v : String} (h : Needs n fun k => Phrase k 9 xs t ys) :
    Needs n fun k => Term (Phrase k) (⟨.not, v⟩ :: xs) (.unary .none .not t) ys := by
  refine h.congr fun k => ⟨fun hterm => ?_, .not⟩
  cases hterm with
  | not ht => exact ht

/-- A conditional needs the levels of whichever of its three parts needs most. -/
theorem conditional {u v w : String} (hc : Needs n fun k => Phrase k 0 xs t (⟨.then, v⟩ :: ys))
    (ha : Needs n' fun k => Phrase k 0 ys t' (⟨.else, w⟩ :: zs))
    (hb : Needs n'' fun k => Phrase k 0 zs t'' rest) :
    Needs (max n (max n' n'')) fun k => Term (Phrase k) (⟨.if, u⟩ :: xs)
      (.conditional .none t t' t'') rest := by
  refine (hc.and (ha.and hb)).congr fun k =>
    ⟨fun hterm => ?_, fun h => .conditional h.1 h.2.1 h.2.2⟩
  cases hterm with
  | conditional hc' ha' hb' =>
    obtain ⟨-, hthen⟩ := hc.holds.unique hc'
    obtain ⟨-, rfl⟩ := List.cons.inj hthen
    obtain ⟨-, helse⟩ := ha.holds.unique ha'
    obtain ⟨-, rfl⟩ := List.cons.inj helse
    rw [hthen, helse]
    exact ⟨hc', ha', hb'⟩

/-- A comprehension without a guard needs the levels of its iterable or of its body. -/
theorem comprehension {u x v w : String} (hi : Needs n fun k => Phrase k 0 xs t (⟨.then, w⟩ :: ys))
    (hb : Needs n' fun k => Phrase k 0 ys t' rest) :
    Needs (max n n') fun k => Term (Phrase k) (⟨.for, u⟩ :: ⟨.identifier, x⟩ :: ⟨.in, v⟩ :: xs)
      (.comprehension .none x t .none t') rest := by
  refine (hi.and hb).congr fun k => ⟨fun hterm => ?_, fun h => .comprehension h.1 h.2⟩
  cases hterm with
  | comprehension hi' hb' =>
    obtain ⟨-, hthen⟩ := hi.holds.unique hi'
    obtain ⟨-, rfl⟩ := List.cons.inj hthen
    rw [hthen]
    exact ⟨hi', hb'⟩

/-- A comprehension with a guard needs the levels of whichever of its three parts needs most. -/
theorem guarded {u x v w z : String} (hi : Needs n fun k => Phrase k 0 xs t (⟨.when, w⟩ :: ys))
    (hg : Needs n' fun k => Phrase k 0 ys t' (⟨.then, z⟩ :: zs))
    (hb : Needs n'' fun k => Phrase k 0 zs t'' rest) :
    Needs (max n (max n' n'')) fun k => Term (Phrase k)
      (⟨.for, u⟩ :: ⟨.identifier, x⟩ :: ⟨.in, v⟩ :: xs)
      (.comprehension .none x t (.some t') t'') rest := by
  refine (hi.and (hg.and hb)).congr fun k => ⟨fun hterm => ?_, fun h => .guarded h.1 h.2.1 h.2.2⟩
  cases hterm with
  | guarded hi' hg' hb' =>
    obtain ⟨-, hwhen⟩ := hi.holds.unique hi'
    obtain ⟨-, rfl⟩ := List.cons.inj hwhen
    obtain ⟨-, hthen⟩ := hg.holds.unique hg'
    obtain ⟨-, rfl⟩ := List.cons.inj hthen
    rw [hwhen, hthen]
    exact ⟨hi', hg', hb'⟩

/-! ## Lists -/

/-- The last element of a list needs the levels of its phrase. -/
theorem last (h : Needs n fun k => Phrase k 0 xs t ys) :
    Needs n fun k => Elements (Phrase k) xs [t] ys := by
  refine h.congr fun k => ⟨fun helements => ?_, .last⟩
  cases helements with
  | last ht => exact ht
  | more _ hmore => cases hmore

/-- An element and those behind it need the levels of whichever needs most. -/
theorem more {v : String} (h : Needs n fun k => Phrase k 0 xs t (⟨.comma, v⟩ :: ys))
    (hmore : Needs n' fun k => Elements (Phrase k) ys ts zs) :
    Needs (max n n') fun k => Elements (Phrase k) xs (t :: ts) zs := by
  refine (h.and hmore).congr fun k => ⟨fun helements => ?_, fun h => .more h.1 h.2⟩
  cases helements with
  | last => cases hmore.holds
  | more ht hmore' =>
    obtain ⟨-, hcomma⟩ := h.holds.unique ht
    obtain ⟨-, rfl⟩ := List.cons.inj hcomma
    rw [hcomma]
    exact ⟨ht, hmore'⟩

/-- A list that is closed needs the levels of its elements. -/
theorem items {closing : TokenKind} {v : String}
    (h : Needs n fun k => Elements (Phrase k) xs ts (⟨closing, v⟩ :: ys)) :
    Needs n fun k => Items (Phrase k) closing xs ts ys := by
  refine h.congr fun k => ⟨fun hitems => ?_, .some⟩
  cases hitems with
  | none => cases h.holds
  | some helements => rwa [h.holds.rest_unique helements]

/-- An array needs the levels of its elements. -/
theorem array {v : String} (h : Needs n fun k => Items (Phrase k) .rightBracket xs ts ys) :
    Needs n fun k => Term (Phrase k) (⟨.leftBracket, v⟩ :: xs) (.array .none ts) ys := by
  refine h.congr fun k => ⟨fun hterm => ?_, .array⟩
  cases hterm with
  | array hitems => exact hitems

/-- A call needs the levels of its arguments. -/
theorem call {v w : String} (h : Needs n fun k => Items (Phrase k) .rightParen xs ts ys) :
    Needs n fun k => Term (Phrase k) (⟨.identifier, v⟩ :: ⟨.leftParen, w⟩ :: xs)
      (.call .none v ts) ys := by
  refine h.congr fun k => ⟨fun hterm => ?_, .call⟩
  cases hterm with
  | call hitems => exact hitems

/-! ## Extensions -/

/-- A chain that ends with an extension needs what the chain in front of it needs, and what the
extension does. -/
theorem extend {x : Symbol} (h : Needs n fun k => Chain (Phrase k) minimum xs t (x :: ys))
    (hext : Needs n' fun k => Extends (Phrase k) minimum x.kind t ys t' zs) :
    Needs (max n n') fun k => Chain (Phrase k) minimum xs t' zs :=
  (h.and hext).congr fun _ => h.holds.snoc_iff hext.holds

/-- An index needs the levels of the expression between its brackets. -/
theorem index {v : String} (hmin : minimum ≤ 11)
    (h : Needs n fun k => Phrase k 0 xs t' (⟨.rightBracket, v⟩ :: ys)) :
    Needs n fun k => Extends (Phrase k) minimum .leftBracket t xs (.index .none t t') ys := by
  refine h.congr fun k => ⟨fun hext => ?_, .index hmin⟩
  cases hext with
  | index _ hi =>
    obtain ⟨-, hclose⟩ := h.holds.unique hi
    rwa [hclose]

/-- A binary operator needs the levels of its right operand. -/
theorem binary {operator : BinaryOp} {kind : TokenKind} (hkind : operator.tokenKind? = some kind)
    (hmin : minimum ≤ operator.precedence)
    (h : Needs n fun k => Phrase k (rightMinimum operator) xs t' ys) :
    Needs n fun k => Extends (Phrase k) minimum kind t xs (.binary .none operator t t') ys := by
  refine h.congr fun k => ⟨fun hext => ?_, fun hright => ?_⟩
  · cases hext with
    | power _ hright => exact hright
    | binary _ hpower _ hright => rwa [rightMinimum_of_ne hpower]
  · by_cases hpower : operator = .power
    · subst hpower
      obtain rfl := Option.some.inj hkind
      exact .power hmin hright
    · rw [rightMinimum_of_ne hpower] at hright
      exact .binary hkind hpower hmin hright

/-- A range needs the levels of its upper bound. -/
theorem range {inclusive : Bool} (hmin : minimum ≤ 6) (h : Needs n fun k => Phrase k 7 xs t' ys) :
    Needs n fun k => Extends (Phrase k) minimum (if inclusive then .dotDotEqual else .dotDot) t xs
      (.range .none t t' inclusive) ys := by
  cases inclusive with
  | true =>
    refine h.congr fun k => ⟨fun hext => ?_, .inclusiveRange hmin⟩
    cases hext with
    | inclusiveRange _ hlast => exact hlast
  | false =>
    refine h.congr fun k => ⟨fun hext => ?_, .range hmin⟩
    cases hext with
    | range _ hlast => exact hlast

/-- An assignment needs the levels of its value. -/
theorem assign {x : String} (hmin : minimum ≤ 1) (h : Needs n fun k => Phrase k 1 xs t ys) :
    Needs n fun k => Extends (Phrase k) minimum .assign (.identifier .none x) xs
      (.assign .none x t) ys := by
  refine h.congr fun k => ⟨fun hext => ?_, .assign hmin⟩
  cases hext with
  | assign _ hvalue => exact hvalue

/-! ## Statements -/

/-- A single statement needs the levels of its phrase. -/
theorem single (h : Needs n fun k => Phrase k 0 xs t []) :
    Needs n fun k => Statements k xs [t] := by
  refine h.congr fun k => ⟨fun hstatements => ?_, .last⟩
  cases hstatements with
  | last ht => exact ht
  | more _ hmore => cases hmore

/-- A statement and those behind it need the levels of whichever needs most. -/
theorem several (h : Needs n fun k => Phrase k 0 xs t ys)
    (hmore : Needs n' fun k => Statements k ys ts) :
    Needs (max n n') fun k => Statements k xs (t :: ts) := by
  refine (h.and hmore).congr fun k => ⟨fun hstatements => ?_, fun h => .more h.1 h.2⟩
  cases hstatements with
  | last => cases hmore.holds
  | more ht hmore' =>
    obtain ⟨-, rfl⟩ := h.holds.unique ht
    exact ⟨ht, hmore'⟩

end Needs

end Grammar

end Formulary
