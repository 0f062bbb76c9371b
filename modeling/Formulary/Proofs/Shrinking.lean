import Formulary.Proofs.Heads
import Formulary.Proofs.NormalForm
import Mathlib.Data.List.Flatten

/-!
# Simplified formulas are no larger

Simplification puts literals and parts of the formula in the place of larger parts, and leaves
statements out.  So it makes no formula larger, in nodes or in levels, and brings in no name:
whatever the simplified formula reads, calls, assigns or binds, the formula does the same to that
name, in the same order and at least as often (`Expr.optimize_shrinks`).  `Expr.Shrinks` says this
of two trees.  It holds of a node and what stands in its place as soon as it holds of their parts,
one by one (`Shrinks.node`), and this is what the inductions along folding and along substitution
ask.

What the passes do to a program is said once, by `Expr.optimize_refines`: each statement is refined
any number of times, by putting in a literal and folding, and then some statements are kept.
Well-formedness goes over in the same way.
-/

set_option autoImplicit false

namespace Formulary.Expr

/-! ## What becomes of a program -/

/-- What propagation can make of a statement, in any number of rounds. -/
inductive Refines : Expr → Expr → Prop
  | refl (e : Expr) : Refines e e
  | step {e f g literal : Expr} {name : String} :
      literal.isLiteral = true → Folds (substitute name literal e) f → Refines f g → Refines e g

/-- A round of propagation in front of others makes one round more for each statement. -/
theorem Refines.step_all {literal : Expr} {name : String} (hliteral : literal.isLiteral = true)
    {es fs gs : List Expr} (hfolds : List.Forall₂ (fun e f => Folds (substitute name literal e) f)
      es fs) (hgs : List.Forall₂ Refines fs gs) :
    List.Forall₂ Refines es gs := by
  induction hfolds generalizing gs with
  | nil => exact hgs
  | cons hfold _ ih =>
    cases hgs with
    | cons hrefines hrest => exact .cons (.step hliteral hfold hrefines) (ih hrest)

/-- Propagation makes of each statement what some rounds can make of it. -/
theorem refines_of_propagateFrom {allowed : String → Bool} {count : Nat} {es fs : List Expr}
    {log after : List Event} (h : propagateFrom allowed count es log = .ok fs after) :
    List.Forall₂ Refines es fs := by
  induction count generalizing es fs log with
  | zero =>
    cases h
    exact List.forall₂_same.mpr fun e _ => .refl e
  | succ count ih =>
    cases es with
    | nil =>
      cases h
      exact .nil
    | cons e es =>
      obtain ⟨later, rest, mid, hrest, rfl, rfl | ⟨span, name, literal, -, hliteral, -, hfolds⟩⟩ :=
        propagateFrom_cons h
      · exact .cons (.refl e) (ih hrest)
      · exact .cons (.refl e) (Refines.step_all hliteral hfolds (ih hrest))

/-- The last statement is always kept. -/
theorem dropDead_ne_nil {es kept : List Expr} {live : List String} {log after : List Event}
    (h : dropDead es log = .ok (kept, live) after) (hne : es ≠ []) : kept ≠ [] := by
  induction es generalizing kept live log after with
  | nil => exact absurd rfl hne
  | cons e es ih =>
    cases es with
    | nil =>
      cases h
      exact List.cons_ne_nil _ _
    | cons e' es =>
      obtain ⟨kept', live', mid, hrest, ⟨rfl, -⟩ | ⟨rfl, -⟩⟩ := dropDead_cons h
      · exact List.cons_ne_nil _ _
      · exact ih hrest (List.cons_ne_nil _ _)

/-- A tree is simplified to what it folds to; or that is a program, of whose statements, refined,
some are kept. -/
theorem optimize_refines {e o : Expr} {external : Option (List String)} {log after : List Event}
    (h : optimize e external log = .ok o after) :
    ∃ folded, Folds e folded ∧ (o = folded ∨ ∃ span es fs kept, folded = .program span es ∧
      List.Forall₂ Refines es fs ∧ kept.Sublist fs ∧ (fs ≠ [] → kept ≠ []) ∧
      o = ofStatements span kept) := by
  obtain ⟨folded, hfolds, rfl | ⟨span, es, fs, kept, live, mid, mid', mid'', rfl, rfl,
    hpropagated, hkept⟩⟩ :=
    optimize_cases h
  · exact ⟨o, hfolds, .inl rfl⟩
  · have hrefines : List.Forall₂ Refines es fs := by
      rcases hpropagated with rfl | ⟨names, -, hpropagate⟩
      · exact List.forall₂_same.mpr fun e _ => .refl e
      · exact refines_of_propagateFrom hpropagate
    exact ⟨_, hfolds, .inr ⟨span, es, fs, kept, rfl, hrefines, (dropDead_kept hkept).1,
      dropDead_ne_nil hkept, rfl⟩⟩

/-! ## Trees that are no larger -/

/-- What a node does with a name. -/
inductive Role where
  | reads (name : String)
  | calls (name : String)
  | assigns (name : String)
  | binds (name : String)
deriving DecidableEq

/-- The role of a node. -/
def role? : Expr → Option Role
  | .identifier _ name => some (.reads name)
  | .call _ name _ => some (.calls name)
  | .assign _ name _ => some (.assigns name)
  | .comprehension _ binder _ _ _ => some (.binds binder)
  | _ => none

/-- The roles of all nodes of a tree, in pre-order. -/
def roles (e : Expr) : List Role :=
  e.nodes.filterMap role?

/-- The roles in a tree are that of its root and those in its parts. -/
theorem roles_eq (e : Expr) : e.roles = e.role?.toList ++ e.children.flatMap roles := by
  unfold roles
  rw [nodes_eq, List.filterMap_cons, List.filterMap_flatMap]
  cases e.role? <;> rfl

/-- The second tree has no more nodes and no more levels than the first, and its nodes have roles
that nodes of the first have, in the same order. -/
structure Shrinks (e f : Expr) : Prop where
  weight : f.weight ≤ e.weight
  height : f.height ≤ e.height
  roles : f.roles.Sublist e.roles

/-- Some of several trees weigh no more than all of them. -/
theorem weightAll_le_of_sublist {es fs : List Expr} (h : fs.Sublist es) :
    weightAll fs ≤ weightAll es := by
  induction h with
  | slnil => exact Nat.le_refl _
  | cons e _ ih => exact Nat.le_trans ih (Nat.le_add_left _ _)
  | cons_cons e _ ih => exact Nat.add_le_add_left ih _

namespace Shrinks

/-- A tree is no larger than itself. -/
theorem refl (e : Expr) : Shrinks e e :=
  ⟨Nat.le_refl _, Nat.le_refl _, .refl _⟩

/-- What is no larger than a tree that is no larger than another is no larger than that. -/
theorem trans {e f g : Expr} (hef : Shrinks e f) (hfg : Shrinks f g) : Shrinks e g :=
  ⟨Nat.le_trans hfg.weight hef.weight, Nat.le_trans hfg.height hef.height,
    hfg.roles.trans hef.roles⟩

/-- What shrinks one by one shrinks together. -/
theorem all {es fs : List Expr} (h : List.Forall₂ Shrinks es fs) :
    weightAll fs ≤ weightAll es ∧ heightAll fs ≤ heightAll es ∧
    (fs.flatMap Expr.roles).Sublist (es.flatMap Expr.roles) := by
  induction h with
  | nil => exact ⟨Nat.le_refl _, Nat.le_refl _, .refl _⟩
  | cons hhead _ ih =>
    obtain ⟨hweight, hheight, hroles⟩ := ih
    refine ⟨Nat.add_le_add hhead.weight hweight, ?_, hhead.roles.append hroles⟩
    have hfirst := hhead.height
    simp only [heightAll]
    omega

/-- A node shrinks to one of the same role if its parts shrink. -/
theorem node {e f : Expr} (hrole : f.role? = e.role?)
    (h : List.Forall₂ Shrinks e.children f.children) : Shrinks e f := by
  obtain ⟨hweight, hheight, hroles⟩ := all h
  constructor
  · rw [weight_eq, weight_eq e]
    exact Nat.add_le_add_left hweight 1
  · rw [height_eq, height_eq e]
    exact Nat.add_le_add_left hheight 1
  · rw [roles_eq, roles_eq e, hrole]
    exact (List.Sublist.refl _).append hroles

/-- A node shrinks to each of its parts. -/
theorem part {e part : Expr} (h : part ∈ e.children) : Shrinks e part := by
  constructor
  · exact Nat.le_of_lt (weight_lt_of_mem_children h)
  · rw [height_eq e]
    exact Nat.le_trans (heightAll_le_iff.mp (Nat.le_refl _) part h) (Nat.le_add_left _ 1)
  · rw [roles_eq e]
    exact (List.sublist_flatten_of_mem (List.mem_map_of_mem h)).trans
      (List.sublist_append_right _ _)

/-- Everything shrinks to a literal. -/
theorem literal {f : Expr} (h : f.isLiteral = true) (e : Expr) : Shrinks e f := by
  have hleaf : f.children = [] ∧ f.role? = none := by
    cases f with
    | number | string | boolean => exact ⟨rfl, rfl⟩
    | _ => cases h
  constructor
  · rw [weight_eq, hleaf.1, weight_eq e]
    exact Nat.add_le_add_left (Nat.zero_le _) 1
  · rw [height_eq, hleaf.1, height_eq e]
    exact Nat.add_le_add_left (Nat.zero_le _) 1
  · rw [roles_eq, hleaf.1, hleaf.2]
    exact List.nil_sublist _

/-- A program shrinks when statements are left out. -/
theorem program {es kept : List Expr} (h : kept.Sublist es) (span : Span) :
    Shrinks (.program span es) (.program span kept) := by
  constructor
  · rw [weight_eq, weight_eq (.program span es)]
    exact Nat.add_le_add_left (weightAll_le_of_sublist h) 1
  · rw [height_eq, height_eq (.program span es)]
    refine Nat.add_le_add_left (heightAll_le_iff.mpr fun e he => ?_) 1
    exact heightAll_le_iff.mp (Nat.le_refl _) e (h.subset he)
  · rw [roles_eq, roles_eq (.program span es)]
    exact h.flatMap _

/-- The tree of several statements is no larger than the program of them. -/
theorem ofStatements (span : Span) (es : List Expr) :
    Shrinks (.program span es) (ofStatements span es) := by
  rcases es with _ | ⟨e, _ | ⟨e', es⟩⟩
  · exact .refl _
  · exact .part List.mem_cons_self
  · exact .refl _

end Shrinks

/-! ## The passes -/

/-- The role of a node is decided at its head. -/
theorem role?_head (e : Expr) : e.head.role? = e.role? := by
  cases e <;> rfl

/-- A node with the same head and parts that are no larger is no larger. -/
theorem Shrinks.of_head {e f : Expr} (hhead : f.head = e.head)
    (h : List.Forall₂ Shrinks e.children f.children) :
    Shrinks e f :=
  .node (by rw [← role?_head f, hhead, role?_head]) h

/-- Folding makes no tree larger. -/
theorem Folds.shrinks {e f : Expr} (h : Folds e f) : Shrinks e f := by
  refine Folds.byOutcome ?_ ?_ ?_ h
  · exact fun e f hliteral => .literal hliteral e
  · exact fun e part f hpart ih => (Shrinks.part hpart).trans ih
  · exact fun e f hhead hparts => .of_head hhead hparts

/-- Putting a literal in the place of a name makes no tree larger. -/
theorem shrinks_substitute (name : String) {literal : Expr} (hliteral : literal.isLiteral = true)
    (e : Expr) :
    Shrinks e (substitute name literal e) :=
  substitute_byNodes (fun _ => .literal hliteral _)
    (fun _ _ hhead _ hparts => .of_head hhead hparts) e

/-- Propagation makes no statement larger. -/
theorem Refines.shrinks {e f : Expr} (h : Refines e f) : Shrinks e f := by
  induction h with
  | refl e => exact .refl e
  | step hliteral hfolds _ ih =>
    exact ((shrinks_substitute _ hliteral _).trans hfolds.shrinks).trans ih

/-- Simplification makes no tree larger. -/
theorem shrinks_of_optimize {e o : Expr} {external : Option (List String)} {log after : List Event}
    (h : optimize e external log = .ok o after) : Shrinks e o := by
  obtain ⟨folded, hfolds, rfl | ⟨span, es, fs, kept, rfl, hrefines, hkept, -, rfl⟩⟩ :=
    optimize_refines h
  · exact hfolds.shrinks
  · have hprogram : Shrinks (.program span es) (.program span fs) :=
      .node rfl (hrefines.imp fun _ _ => Refines.shrinks)
    exact ((hfolds.shrinks.trans hprogram).trans (.program hkept span)).trans
      (.ofStatements span kept)

/-! ## Well-formed trees -/

/-- What is decided at the heads of nodes holds of a statement after propagation if it held
before. -/
theorem Refines.everywhere {P : Expr → Prop} (hP : OfHeads P) {e f : Expr} (h : Refines e f)
    (he : e.Everywhere P) :
    f.Everywhere P := by
  induction h with
  | refl => exact he
  | step hliteral hfolds _ ih => exact ih (hfolds.everywhere hP (hP.substitute _ hliteral he))

/-- What holds at the heads in the statements of a formula, and of no program, holds at the heads in
those of the simplified formula.  Of two statements or more, two or more are left, or a single one
that is no program. -/
theorem topLevel_of_optimize {P : Expr → Prop} (hP : OfHeads P)
    (hprogram : ∀ span es, ¬ P (.program span es)) {e o : Expr} {external : Option (List String)}
    {log after : List Event} (h : optimize e external log = .ok o after)
    (he : ∀ s ∈ e.topLevel, s.Everywhere P) :
    o.Everywhere P ∨ ∃ span es kept, e = .program span es ∧ o = .program span kept ∧
      (∀ s ∈ kept, s.Everywhere P) ∧ (2 ≤ es.length → 2 ≤ kept.length) := by
  obtain ⟨folded, hfolds, hcases⟩ := optimize_refines h
  by_cases hroot : ∃ span es, e = .program span es
  · obtain ⟨span, es, rfl⟩ := hroot
    obtain ⟨gs, hgs, rfl⟩ := hfolds.program
    have hfolded : ∀ g ∈ gs, g.Everywhere P :=
      forall_mem_of_parts hgs fun s hs g hg => hg.everywhere hP (he s hs)
    rcases hcases with rfl | ⟨_, _, fs, kept, hgs', hrefines, hkept, hne, rfl⟩
    · exact .inr ⟨span, es, gs, rfl, rfl, hfolded, fun hlength => hgs.length_eq ▸ hlength⟩
    · obtain ⟨rfl, rfl⟩ := Expr.program.inj hgs'
      have hrefined : ∀ f ∈ fs, f.Everywhere P :=
        forall_mem_of_parts hrefines fun g hg f hf => hf.everywhere hP (hfolded g hg)
      have hstatements : ∀ f ∈ kept, f.Everywhere P := fun f hf => hrefined f (hkept.subset hf)
      rcases kept with _ | ⟨single, _ | ⟨second, more⟩⟩
      · refine .inr ⟨span, es, [], rfl, rfl, hstatements, fun hlength => absurd rfl (hne ?_)⟩
        rintro rfl
        rw [hgs.length_eq, hrefines.length_eq] at hlength
        cases hlength
      · exact .inl (hstatements single List.mem_cons_self)
      · exact .inr ⟨span, es, _, rfl, rfl, hstatements, fun _ => by simp⟩
  · have heverywhere : e.Everywhere P := by
      cases e with
      | program span es => exact absurd ⟨span, es, rfl⟩ hroot
      | _ => exact he _ List.mem_cons_self
    have hfolded := hfolds.everywhere hP heverywhere
    rcases hcases with rfl | ⟨span, es, _, _, rfl, -⟩
    · exact .inl hfolded
    · exact absurd hfolded.root (hprogram span es)

/-- Whether a node is a program is decided at its head. -/
theorem ofHeads_ne_program : OfHeads fun node => ∀ span es, node ≠ .program span es where
  head e := by cases e <;> simp [head]
  literal := by simp

/-- What formula text asks of a node is decided at its head. -/
theorem ofHeads_formed : OfHeads Formed where
  head e := by cases e <;> exact Iff.rfl
  literal := trivial

/-- If no program stands below the root of a tree, none does after simplification. -/
theorem programsAtRoot_of_optimize {e o : Expr} {external : Option (List String)}
    {log after : List Event} (h : optimize e external log = .ok o after) (he : e.ProgramsAtRoot) :
    o.ProgramsAtRoot := by
  have htop : ∀ s ∈ e.topLevel, s.Everywhere fun node => ∀ span es, node ≠ .program span es := by
    cases e with
    | program span es => exact he
    | _ => exact List.forall_mem_singleton.mpr ((everywhere_iff _).mpr ⟨by simp, he⟩)
  obtain ho | ⟨span, es, kept, -, rfl, hkept, -⟩ :=
    topLevel_of_optimize ofHeads_ne_program (by simp) h htop
  · exact fun part hpart => ho.part hpart
  · exact hkept

/-- A well-formed tree is simplified to a well-formed tree. -/
theorem wellFormed_of_optimize {e o : Expr} {external : Option (List String)}
    {log after : List Event} (h : optimize e external log = .ok o after) (he : e.WellFormed) :
    o.WellFormed := by
  have htop : ∀ s ∈ e.topLevel, s.Everywhere Formed := by
    cases e with
    | program span es => exact he.2
    | _ => exact List.forall_mem_singleton.mpr he
  obtain ho | ⟨span, es, kept, rfl, rfl, hkept, hlength⟩ :=
    topLevel_of_optimize ofHeads_formed (fun _ _ => id) h htop
  · cases o with
    | program span es => exact ho.root.elim
    | _ => exact ho
  · exact ⟨hlength he.1, hkept⟩

/-- Simplification only shrinks a formula and invents nothing.  What a tree is simplified to, with
the names that the host may supply or without them, has no more nodes and no more levels than the
tree.  Each of its nodes that reads, calls, assigns or binds a name stands for a node of the tree
that does the same to this name, in the order of the tree.  A program stands at most at its root if
this is so in the tree, and it is well formed if the tree is. -/
theorem optimize_shrinks {e o : Expr} {external : Option (List String)} {log after : List Event}
    (h : optimize e external log = .ok o after) :
    o.size ≤ e.size ∧ o.depth ≤ e.depth ∧ o.roles.Sublist e.roles ∧
      (e.ProgramsAtRoot → o.ProgramsAtRoot) ∧ (e.WellFormed → o.WellFormed) := by
  obtain ⟨hweight, hheight, hroles⟩ := shrinks_of_optimize h
  rw [size_eq_weight, size_eq_weight, depth_eq_height, depth_eq_height]
  exact ⟨hweight, hheight, hroles, programsAtRoot_of_optimize h, wellFormed_of_optimize h⟩

/-- A constant is put in the place of its name and its assignment dropped, a choice is made and an
element read: of nineteen nodes nine are left, and of six levels four. -/
theorem optimize_shrinks_of_constants :
    let e : Expr := .program .none [.assign .none "a" (.string .none "u"),
      .assign .none "b" (.conditional .none (.boolean .none true)
        (.call .none "g" [.identifier .none "a"]) (.call .none "h" [.identifier .none "y"])),
      .comprehension .none "x" (.identifier .none "b") none (.call .none "f" [.identifier .none "x",
        .index .none (.array .none [.string .none "v", .string .none "w"]) (.number .none 1.0)])]
    ∃ o after, optimize e (some ["z"]) [] = .ok o after ∧
      e.size = 19 ∧ o.size = 9 ∧ e.depth = 6 ∧ o.depth = 4 ∧
      o.roles = [.assigns "b", .calls "g", .binds "x", .reads "b", .calls "f", .reads "x"] ∧
      o.size ≤ e.size ∧ o.depth ≤ e.depth ∧ o.roles.Sublist e.roles ∧ o.WellFormed := by
  intro e
  have hformed : e.WellFormed := by
    have hnames : ["a", "b", "g", "h", "y", "x", "f"].all isName = true := by decide
    simp only [List.all_cons, List.all_nil, Bool.and_true, Bool.and_eq_true] at hnames
    refine ⟨by decide, fun s hs => ?_⟩
    simp only [List.mem_cons, List.not_mem_nil, or_false] at hs
    rcases hs with rfl | rfl | rfl <;> simp [Everywhere, nodes_eq, children, Formed, hnames]
  have hmeasures : (simplified (optimize e (some ["z"]))).1.toOption.map
      (fun o => (o.size, o.depth, o.roles)) =
      some (9, 4, [.assigns "b", .calls "g", .binds "x", .reads "b", .calls "f", .reads "x"]) := by
    decide +kernel
  have hsize : e.size = 19 ∧ e.depth = 6 := by decide +kernel
  cases h : optimize e (some ["z"]) [] with
  | error failure after =>
    rw [simplified, h] at hmeasures
    cases hmeasures
  | ok o after =>
    rw [simplified, h] at hmeasures
    obtain ⟨ho, hrest⟩ := Prod.mk.inj (Option.some.inj hmeasures)
    obtain ⟨hdepth, hroles⟩ := Prod.mk.inj hrest
    obtain ⟨hsmaller, hflatter, hsublist, -, hwellFormed⟩ := optimize_shrinks h
    exact ⟨o, after, rfl, hsize.1, ho, hsize.2, hdepth, hroles, hsmaller, hflatter, hsublist,
      hwellFormed hformed⟩

end Formulary.Expr
