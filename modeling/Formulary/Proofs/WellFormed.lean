import Formulary.Proofs.Double
import Formulary.Proofs.Recognition

/-!
# Well-formed trees

A tree is well formed if formula text can stand for it: a program only at its root and of two
statements or more, names that are names, operators of the language.  Every tree that the parser
returns is well formed, and its number literals are neither negative nor NaN (`parse_wellFormed`):
the grammar makes every node from symbols that the scanner has read, or from smaller phrases.
-/

set_option autoImplicit false

namespace Formulary

namespace Expr

/-- What formula text asks of a node below the root. -/
def Formed : Expr → Prop
  | .identifier _ name | .call _ name _ | .assign _ name _ | .comprehension _ name _ _ _ =>
    isName name = true
  | .binary _ operator _ _ => operator ∈ BinaryOp.all
  | .unary _ operator _ => operator = .negate ∨ operator = .not
  | .program .. | .foreign _ => False
  | .number .. | .string .. | .boolean .. | .array .. | .conditional .. | .index .. | .range .. =>
    True

/-- What formula text asks of a tree. -/
def WellFormed : Expr → Prop
  | .program _ statements => 2 ≤ statements.length ∧ ∀ e ∈ statements, e.Everywhere Formed
  | e => e.Everywhere Formed

/-- Nothing foreign stands in a well-formed tree. -/
theorem WellFormed.not_foreign {e : Expr} (h : e.WellFormed) :
    e.Everywhere fun node => ∀ item, node ≠ .foreign item := by
  have hformed : ∀ t : Expr, t.Everywhere Formed →
      t.Everywhere fun node => ∀ item, node ≠ .foreign item := by
    rintro t ht node hnode item rfl
    exact ht _ hnode
  cases e with
  | program span es =>
    exact (everywhere_iff _).mpr ⟨by simp, fun part hpart => hformed part (h.2 part hpart)⟩
  | _ => exact hformed _ h

/-- A tree in which nothing foreign stands can be walked over to the end. -/
theorem defect?_eq_none {e : Expr} (h : e.Everywhere fun node => ∀ item, node ≠ .foreign item) :
    e.defect? = none := by
  unfold defect?
  rw [List.findSome?_eq_none_iff]
  intro node hnode
  cases node with
  | foreign item => exact absurd rfl (h _ hnode item)
  | _ => rfl

/-- A number literal is neither negative nor NaN. -/
def Unsigned : Expr → Prop
  | .number _ value => Number.isNegative value = false ∧ Number.isNaN value = false
  | _ => True

/-- Spans do not count for what formula text asks of a node. -/
theorem formed_bare (e : Expr) : e.bare.Formed ↔ e.Formed := by
  cases e with
  | comprehension _ _ _ guard _ => cases guard <;> exact Iff.rfl
  | foreign item => cases item <;> exact Iff.rfl
  | _ => exact Iff.rfl

/-- Spans do not count for whether a number literal is negative or NaN. -/
theorem unsigned_bare (e : Expr) : e.bare.Unsigned ↔ e.Unsigned := by
  cases e with
  | comprehension _ _ _ guard _ => cases guard <;> exact Iff.rfl
  | foreign item => cases item <;> exact Iff.rfl
  | _ => exact Iff.rfl

/-- What spans make no difference to holds everywhere in a tree if it does without its spans. -/
theorem everywhere_of_bare {P : Expr → Prop} (hP : ∀ e : Expr, P e.bare → P e) {e : Expr}
    (h : e.bare.Everywhere P) : e.Everywhere P := by
  intro node hnode
  refine hP node (h _ ?_)
  rw [nodes_map children_bare]
  exact List.mem_map_of_mem hnode

/-- A tree is as formula text asks if it is so without its spans. -/
theorem wellFormed_of_bare {e : Expr} (h : e.bare.WellFormed) : e.WellFormed := by
  have hformed : ∀ t : Expr, t.bare.Everywhere Formed → t.Everywhere Formed :=
    fun t => everywhere_of_bare fun node => (formed_bare node).mp
  cases e with
  | program _ es =>
    simp only [bare, bareAll_eq_map, WellFormed, List.length_map, List.mem_map] at h
    exact ⟨h.1, fun e he => hformed e (h.2 _ ⟨e, he, rfl⟩)⟩
  | comprehension _ _ _ guard _ => cases guard <;> exact hformed _ h
  | foreign item => cases item <;> exact hformed _ h
  | _ => exact hformed _ h

end Expr

open Formulary.Expr

namespace Grammar

/-! ## The trees of the grammar -/

/-- Symbols that the scanner reads: their numbers are numerals and their identifiers names. -/
def Written (xs : List Symbol) : Prop :=
  ∀ x ∈ xs, (x.kind = .number → Numeral x.value.toList) ∧
    (x.kind = .identifier → isName x.value = true)

/-- A node that the grammar makes from written symbols. -/
def Legible (e : Expr) : Prop :=
  e.Formed ∧ e.Unsigned

/-- Phrases of written symbols are legible everywhere. -/
def Yields (sub : Nat → Phrases) : Prop :=
  ∀ minimum xs t ys, Written xs → sub minimum xs t ys → t.Everywhere Legible

/-- What is left of written symbols behind a phrase is written too. -/
theorem Written.behind {xs ys : List Symbol} (h : Written xs) (hys : Behind ys xs) : Written ys :=
  fun x hx => h x (hys.mem hx)

/-- Written symbols are so without the first of them. -/
theorem Written.tail {x : Symbol} {xs : List Symbol} (h : Written (x :: xs)) : Written xs :=
  fun y hy => h y (List.mem_cons_of_mem x hy)

section Yields

variable {sub : Nat → Phrases} (hadvances : Advances sub) (hsub : Yields sub)
include hadvances hsub

/-- Elements of written symbols are legible everywhere. -/
theorem Elements.legible {xs ys : List Symbol} {ts : List Expr} (h : Elements sub xs ts ys)
    (hxs : Written xs) : ∀ t ∈ ts, t.Everywhere Legible := by
  induction h with
  | last h => simpa using hsub _ _ _ _ hxs h
  | more h _ ih =>
    have hmore := ih (hxs.behind (hadvances _ _ _ _ h)).tail
    simpa using ⟨hsub _ _ _ _ hxs h, hmore⟩

/-- The elements of a list of written symbols are legible everywhere. -/
theorem Items.legible {closing : TokenKind} {xs ys : List Symbol} {ts : List Expr}
    (h : Items sub closing xs ts ys) (hxs : Written xs) : ∀ t ∈ ts, t.Everywhere Legible := by
  cases h with
  | none => simp
  | some h => exact h.legible hadvances hsub hxs

/-- A term of written symbols is legible everywhere. -/
theorem Term.legible {xs ys : List Symbol} {t : Expr} (h : Term sub xs t ys) (hxs : Written xs) :
    t.Everywhere Legible := by
  cases h with
  | truth | falsehood | string =>
    exact (everywhere_iff _).mpr ⟨⟨trivial, trivial⟩, by simp [children]⟩
  | @number v x ys hread =>
    have hnumeral : Numeral v.toList := (hxs _ List.mem_cons_self).1 rfl
    obtain ⟨digits, scale, hvalue⟩ := Number.read?_numeral hnumeral
    rw [String.ofList_toList, hread] at hvalue
    obtain rfl := Option.some.inj hvalue
    exact (everywhere_iff _).mpr ⟨⟨trivial, Number.nonnegative_ofDecimal digits scale⟩,
      by simp [children]⟩
  | name =>
    exact (everywhere_iff _).mpr ⟨⟨(hxs _ List.mem_cons_self).2 rfl, trivial⟩, by simp [children]⟩
  | call h =>
    exact (everywhere_iff _).mpr ⟨⟨(hxs _ List.mem_cons_self).2 rfl, trivial⟩,
      h.legible hadvances hsub hxs.tail.tail⟩
  | group h => exact hsub _ _ _ _ hxs.tail h
  | array h =>
    exact (everywhere_iff _).mpr ⟨⟨trivial, trivial⟩, h.legible hadvances hsub hxs.tail⟩
  | negate h =>
    have hargument := hsub _ _ _ _ hxs.tail h
    exact (everywhere_iff _).mpr ⟨⟨.inl rfl, trivial⟩, by simpa [children] using hargument⟩
  | not h =>
    have hargument := hsub _ _ _ _ hxs.tail h
    exact (everywhere_iff _).mpr ⟨⟨.inr rfl, trivial⟩, by simpa [children] using hargument⟩
  | conditional hc ha hb =>
    have hys := (hxs.tail.behind (hadvances _ _ _ _ hc)).tail
    have hzs := (hys.behind (hadvances _ _ _ _ ha)).tail
    have hparts := And.intro (hsub _ _ _ _ hxs.tail hc)
      (And.intro (hsub _ _ _ _ hys ha) (hsub _ _ _ _ hzs hb))
    exact (everywhere_iff _).mpr ⟨⟨trivial, trivial⟩, by simpa [children] using hparts⟩
  | comprehension hi hb =>
    have hxs' := hxs.tail.tail.tail
    have hys := (hxs'.behind (hadvances _ _ _ _ hi)).tail
    have hparts := And.intro (hsub _ _ _ _ hxs' hi) (hsub _ _ _ _ hys hb)
    exact (everywhere_iff _).mpr ⟨⟨(hxs.tail _ List.mem_cons_self).2 rfl, trivial⟩,
      by simpa [children] using hparts⟩
  | guarded hi hg hb =>
    have hxs' := hxs.tail.tail.tail
    have hys := (hxs'.behind (hadvances _ _ _ _ hi)).tail
    have hzs := (hys.behind (hadvances _ _ _ _ hg)).tail
    have hparts := And.intro (hsub _ _ _ _ hxs' hi)
      (And.intro (hsub _ _ _ _ hys hg) (hsub _ _ _ _ hzs hb))
    exact (everywhere_iff _).mpr ⟨⟨(hxs.tail _ List.mem_cons_self).2 rfl, trivial⟩,
      by simpa [children] using hparts⟩

/-- An extension of a legible tree by written symbols is legible everywhere. -/
theorem Extends.legible {minimum : Nat} {kind : TokenKind} {left t : Expr} {xs ys : List Symbol}
    (h : Extends sub minimum kind left xs t ys) (hleft : left.Everywhere Legible)
    (hxs : Written xs) : t.Everywhere Legible := by
  cases h with
  | index _ h | range _ h | inclusiveRange _ h =>
    have hparts := And.intro hleft (hsub _ _ _ _ hxs h)
    exact (everywhere_iff _).mpr ⟨⟨trivial, trivial⟩, by simpa [children] using hparts⟩
  | power _ h =>
    have hparts := And.intro hleft (hsub _ _ _ _ hxs h)
    exact (everywhere_iff _).mpr ⟨⟨by simp [Formed, BinaryOp.all], trivial⟩,
      by simpa [children] using hparts⟩
  | @binary operator _ _ _ _ _ hkind _ _ h =>
    have hparts := And.intro hleft (hsub _ _ _ _ hxs h)
    have hoperator : operator ∈ BinaryOp.all := by
      cases operator <;> first | decide | cases hkind
    exact (everywhere_iff _).mpr ⟨⟨hoperator, trivial⟩, by simpa [children] using hparts⟩
  | ternary _ ha hb =>
    have hys := (hxs.behind (hadvances _ _ _ _ ha)).tail
    have hparts := And.intro hleft (And.intro (hsub _ _ _ _ hxs ha) (hsub _ _ _ _ hys hb))
    exact (everywhere_iff _).mpr ⟨⟨trivial, trivial⟩, by simpa [children] using hparts⟩
  | assign _ h =>
    have hname := hleft.root.1
    have hvalue := hsub _ _ _ _ hxs h
    exact (everywhere_iff _).mpr ⟨⟨hname, trivial⟩, by simpa [children] using hvalue⟩

/-- Any number of extensions of a legible tree by written symbols is legible everywhere. -/
theorem Climbs.legible {minimum : Nat} {left t : Expr} {xs ys : List Symbol}
    (h : Climbs sub minimum left xs t ys) (hleft : left.Everywhere Legible) (hxs : Written xs) :
    t.Everywhere Legible := by
  induction h with
  | done => exact hleft
  | step hext _ ih =>
    exact ih (hext.legible hadvances hsub hleft hxs.tail) (hxs.tail.behind (hext.behind hadvances))

/-- A chain of written symbols is legible everywhere. -/
theorem Chain.legible {minimum : Nat} {t : Expr} {xs ys : List Symbol}
    (h : Chain sub minimum xs t ys) (hxs : Written xs) : t.Everywhere Legible := by
  obtain ⟨first, rest, hterm, hclimbs⟩ := h
  exact hclimbs.legible hadvances hsub (hterm.legible hadvances hsub hxs)
    (hxs.behind (hterm.behind hadvances))

end Yields

/-- Phrases of written symbols are legible everywhere, with however many levels. -/
theorem Phrase.yields (levels : Nat) : Yields (Phrase levels) := by
  induction levels with
  | zero => exact fun _ _ _ _ _ h => h.elim
  | succ levels ih => exact fun _ _ _ _ hxs h => h.1.legible (Phrase.advances levels) ih hxs

/-- Statements of written symbols are legible everywhere. -/
theorem Statements.legible {levels : Nat} {xs : List Symbol} {ts : List Expr}
    (h : Statements levels xs ts) (hxs : Written xs) : ∀ t ∈ ts, t.Everywhere Legible := by
  induction h with
  | last h => simpa using Phrase.yields _ _ _ _ _ hxs h
  | more h _ ih =>
    have hmore := ih (hxs.behind (Phrase.advances _ _ _ _ _ h))
    simpa using ⟨Phrase.yields _ _ _ _ _ hxs h, hmore⟩

/-- The tree of a sentence is well formed, and its numbers are neither negative nor NaN. -/
theorem Sentence.wellFormed {xs : List Symbol} {t : Expr} (h : Sentence xs t) (hxs : Written xs) :
    t.WellFormed ∧ t.Everywhere Unsigned := by
  obtain ⟨levels, ts, hts, rfl⟩ := h
  have hlegible := hts.legible hxs
  match ts, hts with
  | [], hts => cases hts
  | [t], _ =>
    have ht := hlegible t (by simp)
    have hformed : t.Everywhere Formed := ht.imp fun _ h => h.1
    refine ⟨?_, ht.imp fun _ h => h.2⟩
    cases t with
    | program => exact hformed.root.elim
    | _ => exact hformed
  | t :: u :: ts, _ =>
    refine ⟨⟨by simp, fun e he => (hlegible e he).imp fun _ h => h.1⟩, ?_⟩
    exact (everywhere_iff _).mpr ⟨trivial, fun e he => (hlegible e he).imp fun _ h => h.2⟩

end Grammar

/-- A tree that the parser returns is well formed, and its numbers are neither negative nor NaN. -/
theorem parse_wellFormed {source : String} {limits : Limits} {t : Expr}
    (h : parse source limits = .ok t) : t.WellFormed ∧ t.Everywhere Unsigned := by
  cases htokens : tokenize source limits with
  | error failure => simp [parse, htokens] at h
  | ok tokens =>
    obtain ⟨body, eof, rfl, hscans, heof⟩ := tokenize_scans htokens
    have hsound := Parser.parse_sound htokens heof hscans
    rw [h] at hsound
    have hsentence : Grammar.Sentence (body.map Token.symbol) t.bare := hsound
    have hwritten : Grammar.Written (body.map Token.symbol) :=
      fun x hx => ⟨(hscans.proper x hx).1, (hscans.proper x hx).2.1⟩
    obtain ⟨hformed, hunsigned⟩ := hsentence.wellFormed hwritten
    exact ⟨wellFormed_of_bare hformed,
      everywhere_of_bare (fun node => (unsigned_bare node).mp) hunsigned⟩

end Formulary
