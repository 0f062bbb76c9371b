import Formulary.Proofs.Folding
import Formulary.Proofs.Scoping

/-!
# What simplification keeps of the nodes

The head of a node is what is left of it without its span and its parts; all literals have the same
head.  Folding and putting a literal in the place of a name make no heads but that of literals: a
property that is decided at the heads of nodes, and that literals have, goes over to the folded tree
(`Expr.Folds.everywhere`) and to the tree with the literal (`Expr.OfHeads.substitute`).
-/

set_option autoImplicit false

namespace Formulary.Expr

/-- A property of nodes that is decided at their heads, and that literals have. -/
structure OfHeads (P : Expr → Prop) : Prop where
  head : ∀ e, P e.head ↔ P e
  literal : P (.boolean .none true)

namespace OfHeads

variable {P : Expr → Prop} (hP : OfHeads P)
include hP

/-- A property that is decided at the heads of nodes holds of every node of a literal. -/
theorem of_isLiteral {e : Expr} (h : e.isLiteral = true) : e.Everywhere P := by
  rw [everywhere_iff, ← hP.head]
  cases e with
  | number | string | boolean => exact ⟨hP.literal, by simp [children]⟩
  | _ => cases h

/-- A node with the head of another one and parts of its own. -/
theorem node {e f : Expr} (he : e.Everywhere P) (hhead : f.head = e.head)
    (hparts : ∀ part ∈ f.children, part.Everywhere P) : f.Everywhere P := by
  refine (everywhere_iff f).mpr ⟨?_, hparts⟩
  rw [← hP.head, hhead, hP.head]
  exact he.root

end OfHeads

/-- What holds at the heads of a tree holds at those of the folded tree. -/
theorem Folds.everywhere {P : Expr → Prop} (hP : OfHeads P) {e f : Expr} (h : Folds e f)
    (he : e.Everywhere P) :
    f.Everywhere P := by
  revert he
  refine Folds.byOutcome ?_ ?_ ?_ h
  · exact fun e f hliteral _ => hP.of_isLiteral hliteral
  · exact fun e part f hpart ih he => ih (he.part hpart)
  · intro e f hhead hparts he
    exact hP.node he hhead (forall_mem_of_parts hparts fun part hpart g hg => hg (he.part hpart))

/-- What holds at the heads of a tree holds at those of the tree with a literal in the place of a
name. -/
theorem OfHeads.substitute {P : Expr → Prop} (hP : OfHeads P) (name : String) {replacement : Expr}
    (hliteral : replacement.isLiteral = true) {e : Expr} (he : e.Everywhere P) :
    (substitute name replacement e).Everywhere P := by
  revert he
  refine substitute_byNodes ?_ ?_ e
  · exact fun _ _ => hP.of_isLiteral hliteral
  · intro e f hhead _ hparts he
    exact hP.node he hhead (forall_mem_of_parts hparts fun part hpart g hg => hg (he.part hpart))

end Formulary.Expr
