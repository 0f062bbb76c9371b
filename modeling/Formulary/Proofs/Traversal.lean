import Formulary.Proofs.Mentions
import Formulary.Proofs.Snapshot
import Mathlib.Data.List.Perm.Basic

/-!
# What a walk finds

The size, the depth, the names and the effects of a tree are read off from a walk that keeps a list
of pending nodes.  Here they are said without a walk.  `Expr.MadeOf` gives the parts of each
construct, and `Expr.OccursIn` the nodes of a tree, from the parts alone.  A tree then has one node
more than its parts have together and one level more than the deepest of them; the names it reads
are those of the identifiers that occur in it, and it has effects if a call or an assignment occurs
in it (`Expr.measures_recursive`).

Nor does it matter in which order a walk takes its pending nodes: `Expr.Exhausts` lets it take any
of them, and it visits the same nodes on the same levels (`Expr.Exhausts.perm`), so that all
measures come out the same (`Expr.Exhausts.measures`).
-/

set_option autoImplicit false

namespace Formulary.Expr

/-! ## Parts and nodes -/

/-- The parts that a node is made of, in the order of their evaluation. -/
inductive MadeOf : Expr → List Expr → Prop
  | program {span statements} : MadeOf (.program span statements) statements
  | number {span value} : MadeOf (.number span value) []
  | string {span value} : MadeOf (.string span value) []
  | boolean {span value} : MadeOf (.boolean span value) []
  | array {span elements} : MadeOf (.array span elements) elements
  | identifier {span name} : MadeOf (.identifier span name) []
  | binary {span operator left right} : MadeOf (.binary span operator left right) [left, right]
  | unary {span operator argument} : MadeOf (.unary span operator argument) [argument]
  | call {span name arguments} : MadeOf (.call span name arguments) arguments
  | assign {span name value} : MadeOf (.assign span name value) [value]
  | conditional {span condition consequent alternate} :
      MadeOf (.conditional span condition consequent alternate) [condition, consequent, alternate]
  | unguarded {span binder iterable body} :
      MadeOf (.comprehension span binder iterable none body) [iterable, body]
  | guarded {span binder iterable guard body} :
      MadeOf (.comprehension span binder iterable (some guard) body) [iterable, guard, body]
  | index {span object offset} : MadeOf (.index span object offset) [object, offset]
  | range {span first last inclusive} : MadeOf (.range span first last inclusive) [first, last]
  | foreign {item} : MadeOf (.foreign item) []

/-- Every node is made of its parts. -/
theorem madeOf_children (e : Expr) : e.MadeOf e.children := by
  cases e with
  | comprehension span binder iterable guard body =>
    cases guard with
    | none => exact .unguarded
    | some guard => exact .guarded
  | _ => constructor

/-- A node is made of its parts only. -/
theorem MadeOf.eq_children {e : Expr} {parts : List Expr} (h : e.MadeOf parts) :
    parts = e.children := by
  cases h <;> rfl

/-- A node of a tree: the tree itself, or a node of one of its parts. -/
inductive OccursIn (node : Expr) : Expr → Prop
  | root : OccursIn node node
  | part {e part parts} : e.MadeOf parts → part ∈ parts → OccursIn node part → OccursIn node e

/-- A node of a tree is the tree itself or a node of one of its parts. -/
theorem occursIn_iff {node e : Expr} :
    node.OccursIn e ↔ node = e ∨ ∃ part ∈ e.children, node.OccursIn part := by
  constructor
  · intro h
    cases h with
    | root => exact .inl rfl
    | part hparts hpart hnode => exact .inr ⟨_, hparts.eq_children ▸ hpart, hnode⟩
  · rintro (rfl | ⟨part, hpart, hnode⟩)
    · exact .root
    · exact .part (madeOf_children e) hpart hnode

/-- The walk visits the nodes of a tree and nothing else. -/
theorem mem_nodes_iff {node e : Expr} : node ∈ e.nodes ↔ node.OccursIn e := by
  induction e using byChildren with
  | node e ih =>
    rw [nodes_eq, List.mem_cons, List.mem_flatMap, occursIn_iff]
    exact or_congr_right (exists_congr fun part => and_congr_right fun hpart => ih part hpart)

/-! ## Sizes and depths -/

/-- The weight of several trees is the sum of their sizes. -/
theorem weightAll_eq_sum (es : List Expr) : weightAll es = (es.map size).sum := by
  induction es with
  | nil => rfl
  | cons e es ih => rw [weightAll, ih, List.map_cons, List.sum_cons, size_eq_weight]

/-- The height of several trees is the largest of their depths. -/
theorem heightAll_eq_foldr (es : List Expr) : heightAll es = (es.map depth).foldr max 0 := by
  induction es with
  | nil => rfl
  | cons e es ih => rw [heightAll, ih, List.map_cons, List.foldr_cons, depth_eq_height]

/-- The size of a tree is one more than the sizes of its parts. -/
theorem size_eq (e : Expr) : e.size = 1 + (e.children.map size).sum := by
  rw [size_eq_weight, weight_eq, weightAll_eq_sum]

/-- The depth of a tree is one more than the largest depth of its parts. -/
theorem depth_eq (e : Expr) : e.depth = 1 + (e.children.map depth).foldr max 0 := by
  rw [depth_eq_height, height_eq, heightAll_eq_foldr]

/-! ## Names and effects -/

/-- A node refers to a name if and only if it is an identifier with that name. -/
theorem reference?_eq_some {node : Expr} {name : String} :
    node.reference? = some name ↔ ∃ span, node = .identifier span name := by
  constructor
  · intro h
    cases node with
    | identifier span name' =>
      obtain rfl := Option.some.inj h
      exact ⟨span, rfl⟩
    | _ => cases h
  · rintro ⟨span, rfl⟩
    rfl

/-- A tree refers to a name if and only if an identifier with that name occurs in it. -/
theorem mem_references_iff {e : Expr} {name : String} :
    name ∈ e.references ↔ ∃ span, OccursIn (.identifier span name) e := by
  rw [references, List.mem_filterMap]
  constructor
  · rintro ⟨node, hnode, hname⟩
    obtain ⟨span, rfl⟩ := reference?_eq_some.mp hname
    exact ⟨span, mem_nodes_iff.mp hnode⟩
  · rintro ⟨span, hnode⟩
    exact ⟨_, mem_nodes_iff.mpr hnode, rfl⟩

/-- Without repetitions each name is listed once, for the places where names stand first are
different. -/
theorem nodup_eraseDups (names : List String) : names.eraseDups.Nodup := by
  have hplaces := pairwise_eraseDups_filterMap some names
  rw [List.filterMap_some] at hplaces
  refine hplaces.imp fun {a b} hlt => ?_
  rintro rfl
  exact Nat.lt_irrefl _ hlt

/-- Each name is listed once among the identifiers. -/
theorem nodup_identifiers (e : Expr) : e.identifiers.Nodup :=
  (List.mergeSort_perm _ _).nodup_iff.mpr (nodup_eraseDups _)

/-- Sorting distinct names forgets the order in which they were found. -/
theorem mergeSort_eraseDups_eq {names more : List String} (h : names.Perm more) :
    names.eraseDups.mergeSort (fun a b => decide (a ≤ b)) =
      more.eraseDups.mergeSort (fun a b => decide (a ≤ b)) := by
  have hsorted : ∀ l : List String,
      (l.mergeSort fun a b => decide (a ≤ b)).Pairwise fun a b => decide (a ≤ b) = true := by
    refine List.pairwise_mergeSort (fun a b c hab hbc => ?_) fun a b => ?_
    · exact decide_eq_true (String.le_trans (of_decide_eq_true hab) (of_decide_eq_true hbc))
    · simpa using String.le_total a b
  have hdistinct : names.eraseDups.Perm more.eraseDups := by
    refine (List.perm_ext_iff_of_nodup (nodup_eraseDups _) (nodup_eraseDups _)).mpr fun name => ?_
    rw [List.mem_eraseDups, List.mem_eraseDups, h.mem_iff]
  refine List.Perm.eq_of_pairwise (fun a b _ _ hab hba => ?_) (hsorted _) (hsorted _) ?_
  · exact String.le_antisymm (of_decide_eq_true hab) (of_decide_eq_true hba)
  · exact (List.mergeSort_perm _ _).trans (hdistinct.trans (List.mergeSort_perm _ _).symm)

/-- A node is an effect if and only if it is a call or an assignment. -/
theorem isEffect_iff {node : Expr} :
    node.isEffect = true ↔
      (∃ span name arguments, node = .call span name arguments) ∨
      ∃ span name value, node = .assign span name value := by
  cases node <;> simp [isEffect]

/-- A tree has effects if and only if a call or an assignment occurs in it. -/
theorem hasEffects_iff {e : Expr} :
    e.hasEffects = true ↔
      (∃ span name arguments, OccursIn (.call span name arguments) e) ∨
        ∃ span name value, OccursIn (.assign span name value) e := by
  rw [hasEffects, List.any_eq_true]
  constructor
  · rintro ⟨node, hnode, heffect⟩
    have hoccurs := mem_nodes_iff.mp hnode
    rcases isEffect_iff.mp heffect with ⟨span, name, arguments, rfl⟩ | ⟨span, name, value, rfl⟩
    · exact .inl ⟨span, name, arguments, hoccurs⟩
    · exact .inr ⟨span, name, value, hoccurs⟩
  · rintro (⟨span, name, arguments, hoccurs⟩ | ⟨span, name, value, hoccurs⟩)
    · exact ⟨_, mem_nodes_iff.mpr hoccurs, rfl⟩
    · exact ⟨_, mem_nodes_iff.mpr hoccurs, rfl⟩

/-! ## Walks in any order -/

/-- A walk that takes its pending nodes in any order until none is left, and the nodes that it
visits. -/
inductive Exhausts : List (Nat × Expr) → List (Nat × Expr) → Prop
  | done : Exhausts [] []
  | visit {pending rest visited level e} : pending.Perm ((level, e) :: rest) →
      Exhausts (e.children.map (fun child => (level + 1, child)) ++ rest) visited →
      Exhausts pending ((level, e) :: visited)

/-- The walk in pre-order is a walk that exhausts its pending nodes. -/
theorem exhausts_descend (pending : List (Nat × Expr)) : Exhausts pending (descend pending) := by
  fun_induction descend pending with
  | case1 => exact .done
  | case2 level e rest ih => exact .visit (.refl _) ih

/-- What is visited from several pending nodes is what is visited from each of them. -/
theorem descend_eq_flatMap (pending : List (Nat × Expr)) :
    descend pending = pending.flatMap fun p => descend [p] := by
  induction pending with
  | nil => simp [descend]
  | cons p pending ih =>
    rw [List.flatMap_cons, ← ih, ← descend_append, List.singleton_append]

/-- Walks from the same pending nodes in another order visit the same nodes. -/
theorem descend_perm {pending more : List (Nat × Expr)} (h : pending.Perm more) :
    (descend pending).Perm (descend more) := by
  rw [descend_eq_flatMap pending, descend_eq_flatMap more]
  exact h.flatMap_right _

/-- The same nodes are visited on the same levels in whatever order the pending ones are taken. -/
theorem Exhausts.perm {pending visited : List (Nat × Expr)} (h : Exhausts pending visited) :
    visited.Perm (descend pending) := by
  induction h with
  | done => rw [descend]
  | @visit pending rest visited level e hpending _ ih =>
    -- Bringing the node that is taken to the front changes only the order of what the walk visits.
    have hfirst := descend_perm hpending
    rw [descend] at hfirst
    exact (ih.cons _).trans hfirst.symm

/-- Whatever order a walk takes, it counts the same nodes, comes to the same depth, finds the same
names, and finds an effect exactly if any other walk does. -/
theorem Exhausts.measures {e : Expr} {visited : List (Nat × Expr)}
    (h : Exhausts [(1, e)] visited) :
    visited.length = e.size ∧
    visited.foldl (fun deepest node => max deepest node.1) 0 = e.depth ∧
    ((visited.map (·.2)).filterMap reference?).Perm e.references ∧
    ((visited.map (·.2)).filterMap reference?).eraseDups.mergeSort (fun a b => decide (a ≤ b)) =
      e.identifiers ∧
    (visited.map (·.2)).any isEffect = e.hasEffects := by
  have hlevels : visited.Perm e.levels := h.perm
  have hnodes : (visited.map (·.2)).Perm e.nodes := hlevels.map _
  have hnames : ((visited.map (·.2)).filterMap reference?).Perm e.references :=
    hnodes.filterMap reference?
  -- The deepest of some levels does not depend on the order in which they are compared.
  have hdeepest : RightCommutative fun (deepest : Nat) (node : Nat × Expr) => max deepest node.1 :=
    ⟨fun deepest node node' => by omega⟩
  exact ⟨hlevels.length_eq, hlevels.foldl_eq 0, hnames, mergeSort_eraseDups_eq hnames,
    hnodes.any_eq⟩

/-! ## The measures -/

/-- What the walk finds is what recursion over the parts finds.  A tree has one node more than its
parts have together, and one level more than the deepest of them; the names that it reads are the
names of the identifiers that occur in it, each listed once; and it has effects exactly if a call or
an assignment occurs in it.  The walk may take the pending nodes in any order: it visits the same
nodes on the same levels, and so finds the same count, depth, names and effects. -/
theorem measures_recursive (e : Expr) :
    e.MadeOf e.children ∧
    e.size = 1 + (e.children.map size).sum ∧
    e.depth = 1 + (e.children.map depth).foldr max 0 ∧
    (∀ name, name ∈ e.references ↔ ∃ span, OccursIn (.identifier span name) e) ∧
    (∀ name, name ∈ e.identifiers ↔ ∃ span, OccursIn (.identifier span name) e) ∧
    e.identifiers.Nodup ∧
    (e.hasEffects = true ↔
      (∃ span name arguments, OccursIn (.call span name arguments) e) ∨
        ∃ span name value, OccursIn (.assign span name value) e) ∧
    Exhausts [(1, e)] e.levels ∧
    ∀ visited, Exhausts [(1, e)] visited →
      visited.Perm e.levels ∧
      visited.length = e.size ∧
      visited.foldl (fun deepest node => max deepest node.1) 0 = e.depth ∧
      ((visited.map (·.2)).filterMap reference?).Perm e.references ∧
      ((visited.map (·.2)).filterMap reference?).eraseDups.mergeSort (fun a b => decide (a ≤ b)) =
        e.identifiers ∧
      (visited.map (·.2)).any isEffect = e.hasEffects :=
  ⟨madeOf_children e, size_eq e, depth_eq e, fun _ => mem_references_iff,
    fun _ => mem_identifiers.trans mem_references_iff, nodup_identifiers e, hasEffects_iff,
    exhausts_descend _, fun _ h => ⟨h.perm, h.measures⟩⟩

/-- A guard is a part like the iterable and the body: its call is counted, found to be an effect,
and read for names. -/
example :
    let guard : Expr := .call .none "f" [.identifier .none "x"]
    let e : Expr := .comprehension .none "x" (.identifier .none "xs") (some guard)
      (.identifier .none "y")
    e.size = 5 ∧ e.depth = 3 ∧ e.references = ["xs", "x", "y"] ∧
      e.hasEffects = true := by decide +kernel

end Formulary.Expr
