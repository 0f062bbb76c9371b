import Formulary.Expr.Measure

/-!
# Reasoning about trees

Three tools that every argument over trees uses.  `Expr.byParts` is induction on a tree in which a
construct with a list of parts gets one hypothesis for all of them.  `nodes_eq` reads the walk over
a tree as a recursion: a tree's nodes are itself and then the nodes of its parts.  `Everywhere` is
what holds of every node of a tree, and `everywhere_iff` takes it down to the parts.

`Expr.bare` forgets all spans: two trees are the same, spans aside, if their bare forms are equal.
`Expr.head` is what is left of a node without its span and its parts.  `Expr.height` counts levels
by recursion, as `Expr.weight` counts nodes, and the walk agrees with both.  Spans make no
difference to the size and the depth of a tree.
-/

set_option autoImplicit false

namespace Formulary.Expr

/-- Induction on a tree: what holds of a node whenever it holds of its parts holds of every tree. -/
@[elab_as_elim]
theorem byParts {motive : Expr → Prop}
    (program : ∀ span statements, (∀ e ∈ statements, motive e) → motive (.program span statements))
    (number : ∀ span value, motive (.number span value))
    (string : ∀ span value, motive (.string span value))
    (boolean : ∀ span value, motive (.boolean span value))
    (array : ∀ span elements, (∀ e ∈ elements, motive e) → motive (.array span elements))
    (identifier : ∀ span name, motive (.identifier span name))
    (binary : ∀ span operator left right, motive left → motive right →
      motive (.binary span operator left right))
    (unary : ∀ span operator argument, motive argument → motive (.unary span operator argument))
    (call : ∀ span name arguments, (∀ e ∈ arguments, motive e) →
      motive (.call span name arguments))
    (assign : ∀ span name value, motive value → motive (.assign span name value))
    (conditional : ∀ span condition consequent alternate, motive condition → motive consequent →
      motive alternate → motive (.conditional span condition consequent alternate))
    (comprehension : ∀ span binder iterable guard body, motive iterable →
      (∀ g, guard = some g → motive g) → motive body →
      motive (.comprehension span binder iterable guard body))
    (index : ∀ span object offset, motive object → motive offset →
      motive (.index span object offset))
    (range : ∀ span first last inclusive, motive first → motive last →
      motive (.range span first last inclusive))
    (foreign : ∀ item, motive (.foreign item))
    (e : Expr) : motive e := by
  refine @Expr.rec motive (fun es => ∀ e ∈ es, motive e)
    (fun guard => ∀ g, guard = some g → motive g)
    program number string boolean array identifier binary unary call assign conditional
    comprehension index range foreign ?_ ?_ ?_ ?_ e
  · intro e he
    simp at he
  · intro head tail hhead htail e he
    rcases List.mem_cons.mp he with rfl | he
    · exact hhead
    · exact htail e he
  · intro g hg
    simp at hg
  · intro g hg g' hg'
    obtain rfl := Option.some.inj hg'
    exact hg

/-! ## The nodes of a tree -/

/-- The walk over two lists of pending nodes is the walk over the first and then over the second. -/
theorem descend_append (pending more : List (Nat × Expr)) :
    descend (pending ++ more) = descend pending ++ descend more := by
  fun_induction descend pending with
  | case1 => simp
  | case2 level e rest ih =>
    rw [List.cons_append, descend, ← List.append_assoc, ih, List.cons_append]

/-- Which nodes the walk visits does not depend on the levels it starts with. -/
theorem descend_nodes_congr (pending more : List (Nat × Expr))
    (h : pending.map (·.2) = more.map (·.2)) :
    (descend pending).map (·.2) = (descend more).map (·.2) := by
  fun_induction descend pending generalizing more with
  | case1 =>
    have hmore : more = [] := by simpa using h.symm
    rw [hmore, descend]
  | case2 level e rest ih =>
    cases more with
    | nil => simp at h
    | cons node more =>
      obtain ⟨level', e'⟩ := node
      simp only [List.map_cons, List.cons.injEq] at h
      obtain ⟨rfl, hrest⟩ := h
      rw [descend, List.map_cons, List.map_cons]
      congr 1
      apply ih
      simp [Function.comp_def, hrest]

/-- The nodes that the walk visits from several pending nodes are those of each in turn. -/
theorem descend_nodes (level : Nat) (es : List Expr) :
    (descend (es.map fun e => (level, e))).map (·.2) = es.flatMap nodes := by
  induction es with
  | nil => simp [descend]
  | cons e es ih =>
    have hsplit : (e :: es).map (fun e => (level, e)) = [(level, e)] ++ es.map fun e =>
        (level, e) := by
      simp
    rw [hsplit, descend_append, List.map_append, ih, List.flatMap_cons]
    congr 1
    exact descend_nodes_congr _ _ rfl

/-- The nodes of a tree are itself and then the nodes of its parts, in order. -/
theorem nodes_eq (e : Expr) : e.nodes = e :: e.children.flatMap nodes := by
  unfold nodes levels
  rw [descend, List.map_cons, List.append_nil]
  congr 1
  exact descend_nodes 2 e.children

/-! ## What holds of every node -/

/-- A property holds of every node of a tree. -/
def Everywhere (P : Expr → Prop) (e : Expr) : Prop :=
  ∀ node ∈ e.nodes, P node

/-- A property holds everywhere in a tree exactly if it holds of its root and everywhere in its
parts. -/
theorem everywhere_iff {P : Expr → Prop} (e : Expr) :
    e.Everywhere P ↔ P e ∧ ∀ part ∈ e.children, part.Everywhere P := by
  unfold Everywhere
  rw [nodes_eq]
  constructor
  · intro h
    refine ⟨h e List.mem_cons_self, fun part hpart node hnode => ?_⟩
    exact h node (List.mem_cons_of_mem _ (List.mem_flatMap.mpr ⟨part, hpart, hnode⟩))
  · rintro ⟨hroot, hparts⟩ node hnode
    rcases List.mem_cons.mp hnode with rfl | hnode
    · exact hroot
    · obtain ⟨part, hpart, hnode⟩ := List.mem_flatMap.mp hnode
      exact hparts part hpart node hnode

/-- What holds of every node of a tree holds of its root. -/
theorem Everywhere.root {P : Expr → Prop} {e : Expr} (h : e.Everywhere P) : P e :=
  ((everywhere_iff e).mp h).1

/-- What holds of every node of a tree holds of every node of its parts. -/
theorem Everywhere.part {P : Expr → Prop} {e : Expr} (h : e.Everywhere P) {part : Expr}
    (hpart : part ∈ e.children) : part.Everywhere P :=
  ((everywhere_iff e).mp h).2 part hpart

/-- A property of every node can be weakened at each of them. -/
theorem Everywhere.imp {P Q : Expr → Prop} {e : Expr} (h : e.Everywhere P) (himp : ∀ e, P e → Q e) :
    e.Everywhere Q :=
  fun node hnode => himp node (h node hnode)

/-! ## Trees without spans -/

mutual

/-- A tree with all its spans forgotten. -/
def bare : Expr → Expr
  | .program _ statements => .program .none (bareAll statements)
  | .number _ value => .number .none value
  | .string _ value => .string .none value
  | .boolean _ value => .boolean .none value
  | .array _ elements => .array .none (bareAll elements)
  | .identifier _ name => .identifier .none name
  | .binary _ operator left right => .binary .none operator left.bare right.bare
  | .unary _ operator argument => .unary .none operator argument.bare
  | .call _ name arguments => .call .none name (bareAll arguments)
  | .assign _ name value => .assign .none name value.bare
  | .conditional _ condition consequent alternate =>
    .conditional .none condition.bare consequent.bare alternate.bare
  | .comprehension _ binder iterable none body =>
    .comprehension .none binder iterable.bare none body.bare
  | .comprehension _ binder iterable (some guard) body =>
    .comprehension .none binder iterable.bare (some guard.bare) body.bare
  | .index _ object offset => .index .none object.bare offset.bare
  | .range _ first last inclusive => .range .none first.bare last.bare inclusive
  | .foreign (.node kind _) => .foreign (.node kind .none)
  | .foreign item => .foreign item

/-- Several trees with all their spans forgotten. -/
def bareAll : List Expr → List Expr
  | [] => []
  | e :: es => e.bare :: bareAll es

end

/-- Forgetting the spans of several trees is forgetting them tree by tree. -/
@[simp] theorem bareAll_eq_map (es : List Expr) : bareAll es = es.map bare := by
  induction es with
  | nil => rfl
  | cons e es ih => rw [bareAll, ih, List.map_cons]

/-- The spans of a comprehension are forgotten in its iterable, its guard and its body alike. -/
theorem bare_comprehension (span : Span) (binder : String) (iterable : Expr) (guard : Option Expr)
    (body : Expr) :
    (Expr.comprehension span binder iterable guard body).bare =
      .comprehension .none binder iterable.bare (guard.map bare) body.bare := by
  cases guard <;> rfl

/-- Only an identifier is an identifier once its span is forgotten. -/
theorem bare_eq_identifier {e : Expr} {span : Span} {name : String}
    (h : e.bare = .identifier span name) : ∃ span', e = .identifier span' name := by
  cases e with
  | identifier span' name' =>
    simp only [bare, identifier.injEq] at h
    exact ⟨span', by rw [h.2]⟩
  | comprehension _ _ _ g _ => cases g <;> simp [bare] at h
  | foreign item => cases item <;> simp [bare] at h
  | _ => simp [bare] at h

/-- There is nothing left to forget in a tree without spans. -/
theorem bare_bare (e : Expr) : e.bare.bare = e.bare := by
  have hall : ∀ es : List Expr, (∀ e ∈ es, e.bare.bare = e.bare) →
      (es.map bare).map bare = es.map bare := by
    intro es hes
    rw [List.map_map]
    exact List.map_congr_left hes
  induction e using byParts with
  | number | string | boolean | identifier => rfl
  | foreign item => cases item <;> rfl
  | program span es ih | array span es ih | call span name es ih =>
    simp only [bare, bareAll_eq_map, hall es ih]
  | unary span operator argument ih | assign span name value ih => simp only [bare, ih]
  | binary span operator l r hl hr | index span l r hl hr | range span l r inclusive hl hr =>
    simp only [bare, hl, hr]
  | conditional span c x y hc hx hy => simp only [bare, hc, hx, hy]
  | comprehension span binder iterable guard body hi hg hb =>
    cases guard with
    | none => simp only [bare, hi, hb]
    | some g => simp only [bare, hi, hg g rfl, hb]

/-- The parts of a tree without spans are its parts without spans. -/
theorem children_bare (e : Expr) : e.bare.children = e.children.map bare := by
  cases e with
  | comprehension _ _ _ guard _ => cases guard <;> simp [bare, children]
  | foreign item => cases item <;> rfl
  | _ => simp [bare, children]

/-! ## Heads -/

/-- A node without its span and its parts; all literals have the same head. -/
def head : Expr → Expr
  | .program .. => .program .none []
  | .number .. | .string .. | .boolean .. => .boolean .none true
  | .array .. => .array .none []
  | .identifier _ name => .identifier .none name
  | .binary _ operator _ _ => .binary .none operator (.boolean .none true) (.boolean .none true)
  | .unary _ operator _ => .unary .none operator (.boolean .none true)
  | .call _ name _ => .call .none name []
  | .assign _ name _ => .assign .none name (.boolean .none true)
  | .conditional .. =>
    .conditional .none (.boolean .none true) (.boolean .none true) (.boolean .none true)
  | .comprehension _ binder _ _ _ =>
    .comprehension .none binder (.boolean .none true) none (.boolean .none true)
  | .index .. => .index .none (.boolean .none true) (.boolean .none true)
  | .range _ _ _ inclusive => .range .none (.boolean .none true) (.boolean .none true) inclusive
  | .foreign item => .foreign item

/-! ## Measures -/

/-- The walk visits as many nodes as the trees have. -/
theorem length_descend (pending : List (Nat × Expr)) :
    (descend pending).length = weightAll (pending.map (·.2)) := by
  fun_induction descend pending with
  | case1 => rfl
  | case2 level e rest ih =>
    rw [List.length_cons, ih, List.map_append, List.map_map, weightAll_append, List.map_cons,
      weightAll, weight_eq e]
    simp only [Function.comp_def, List.map_id']
    omega

/-- Counting the nodes of a tree on the walk over them gives the weight found by recursion. -/
theorem size_eq_weight (e : Expr) : e.size = e.weight := by
  rw [size, levels, length_descend]
  simp [weightAll]

/-- A tree of a list weighs no more than the whole list. -/
theorem weight_le_weightAll {e : Expr} {es : List Expr} (h : e ∈ es) : e.weight ≤ weightAll es := by
  induction es with
  | nil => simp at h
  | cons e' es ih =>
    rw [weightAll]
    rcases List.mem_cons.mp h with rfl | h
    · omega
    · have := ih h
      omega

/-- A part weighs less than the node that it is a part of. -/
theorem weight_lt_of_mem_children {e part : Expr} (h : part ∈ e.children) :
    part.weight < e.weight := by
  have hpart := weight_le_weightAll h
  rw [weight_eq e]
  omega

/-- Induction on a tree where all parts of a node are treated alike. -/
@[elab_as_elim]
theorem byChildren {motive : Expr → Prop}
    (node : ∀ e, (∀ part ∈ e.children, motive part) → motive e) (e : Expr) : motive e := by
  induction hn : e.weight using Nat.strongRecOn generalizing e with
  | ind n ih =>
    subst hn
    exact node e fun part hpart => ih _ (weight_lt_of_mem_children hpart) part rfl

/-- Every tree of a list adds at least one to its weight. -/
theorem length_le_weightAll (es : List Expr) : es.length ≤ weightAll es := by
  induction es with
  | nil => simp
  | cons e es ih =>
    rw [weightAll, List.length_cons, weight_eq e]
    omega

mutual

/-- How many nodes lie on the longest path down from the root of a tree. -/
def height : Expr → Nat
  | .program _ statements => 1 + heightAll statements
  | .array _ elements => 1 + heightAll elements
  | .binary _ _ left right => 1 + max left.height right.height
  | .unary _ _ argument => 1 + argument.height
  | .call _ _ arguments => 1 + heightAll arguments
  | .assign _ _ value => 1 + value.height
  | .conditional _ condition consequent alternate =>
    1 + max condition.height (max consequent.height alternate.height)
  | .comprehension _ _ iterable none body => 1 + max iterable.height body.height
  | .comprehension _ _ iterable (some guard) body =>
    1 + max iterable.height (max guard.height body.height)
  | .index _ object offset => 1 + max object.height offset.height
  | .range _ first last _ => 1 + max first.height last.height
  | .number .. | .string .. | .boolean .. | .identifier .. | .foreign _ => 1

/-- The height of the highest tree of a list. -/
def heightAll : List Expr → Nat
  | [] => 0
  | e :: es => max e.height (heightAll es)

end

/-- A tree is one higher than its highest part. -/
theorem height_eq (e : Expr) : e.height = 1 + heightAll e.children := by
  cases e with
  | comprehension span binder iterable guard body =>
    cases guard <;> simp [height, heightAll, children]
  | _ => simp [height, heightAll, children]

/-- The deepest of several trees that stand one level below another. -/
theorem foldl_max_height (level start : Nat) (es : List Expr) :
    es.foldl (fun deepest e => max deepest (level + e.height)) (max start level) =
      max start (level + heightAll es) := by
  induction es generalizing start with
  | nil => rfl
  | cons e es ih =>
    have hstart : max (max start level) (level + e.height) =
        max (max start (level + e.height)) level := by
      omega
    rw [List.foldl_cons, hstart, ih, heightAll]
    omega

/-- The deepest level that the walk comes to is found by measuring the pending nodes alone. -/
theorem foldl_descend (pending : List (Nat × Expr)) (start : Nat) :
    (descend pending).foldl (fun deepest node => max deepest node.1) start =
      pending.foldl (fun deepest p => max deepest (p.1 + heightAll p.2.children)) start := by
  fun_induction descend pending generalizing start with
  | case1 => rfl
  | case2 level e rest ih =>
    have hpart : ∀ part : Expr, level + 1 + heightAll part.children = level + part.height := by
      intro part
      rw [height_eq, Nat.add_assoc]
    rw [List.foldl_cons, ih, List.foldl_append, List.foldl_map, List.foldl_cons]
    simp only [hpart, foldl_max_height]

/-- The walk finds as many levels as the recursion. -/
theorem depth_eq_height (e : Expr) : e.depth = e.height := by
  rw [depth, levels, foldl_descend, height_eq]
  simp

/-- A list of trees is no higher than a bound if and only if none of its trees is. -/
theorem heightAll_le_iff {es : List Expr} {bound : Nat} :
    heightAll es ≤ bound ↔ ∀ e ∈ es, e.height ≤ bound := by
  induction es with
  | nil => simp [heightAll]
  | cons e es ih => rw [heightAll, Nat.max_le, ih, List.forall_mem_cons]

/-- A tree has no more levels than nodes. -/
theorem depth_le_weight (e : Expr) : e.depth ≤ e.weight := by
  rw [depth_eq_height]
  induction e using byChildren with
  | node e ih =>
    rw [height_eq, weight_eq]
    refine Nat.add_le_add_left (heightAll_le_iff.mpr fun part hpart => ?_) 1
    exact Nat.le_trans (ih part hpart) (weight_le_weightAll hpart)

/-! A change of nodes that keeps the parts in their places makes no difference to the walk. -/

section Shape

variable {f : Expr → Expr} (hf : ∀ e, (f e).children = e.children.map f)
include hf

/-- The changed nodes come up in the order and at the levels of the nodes that they are made
from. -/
theorem descend_map (pending : List (Nat × Expr)) :
    descend (pending.map fun p => (p.1, f p.2)) = (descend pending).map fun p => (p.1, f p.2) := by
  fun_induction descend pending with
  | case1 => simp [descend]
  | case2 level e rest ih =>
    rw [List.map_cons, descend, List.map_cons, ← ih, hf]
    simp [Function.comp_def]

/-- The levels of a changed tree are those of the tree, with each node changed. -/
theorem levels_map (e : Expr) : (f e).levels = e.levels.map fun p => (p.1, f p.2) :=
  descend_map hf [(1, e)]

/-- The nodes of a changed tree are the changed nodes of the tree. -/
theorem nodes_map (e : Expr) : (f e).nodes = e.nodes.map f := by
  rw [nodes, levels_map hf, List.map_map, nodes, List.map_map]
  rfl

/-- What holds of the change of every node holds of every node of the changed tree. -/
theorem everywhere_map {P Q : Expr → Prop} (himp : ∀ e, P e → Q (f e)) {e : Expr}
    (h : e.Everywhere P) :
    (f e).Everywhere Q := by
  intro node hnode
  rw [nodes_map hf] at hnode
  obtain ⟨origin, horigin, rfl⟩ := List.mem_map.mp hnode
  exact himp origin (h origin horigin)

/-- A change of nodes keeps the size of a tree. -/
theorem size_map (e : Expr) : (f e).size = e.size := by
  rw [size, levels_map hf, List.length_map, size]

/-- A change of nodes keeps the depth of a tree. -/
theorem depth_map (e : Expr) : (f e).depth = e.depth := by
  rw [depth, levels_map hf, List.foldl_map, depth]

end Shape

/-- Spans do not count for the size of a tree. -/
theorem size_bare (e : Expr) : e.bare.size = e.size :=
  size_map children_bare e

/-- Spans do not count for the depth of a tree. -/
theorem depth_bare (e : Expr) : e.bare.depth = e.depth :=
  depth_map children_bare e

/-! ## The nodes outside of loops -/

/-- The parts of a node that are evaluated in the scope of the node itself. -/
def outerParts : Expr → List Expr
  | .comprehension _ _ iterable _ _ => [iterable]
  | e => e.children

/-- The parts that are evaluated in the scope of a node are among its parts. -/
theorem outerParts_subset_children {e part : Expr} (h : part ∈ e.outerParts) :
    part ∈ e.children := by
  cases e with
  | comprehension span binder iterable guard body =>
    obtain rfl := List.mem_singleton.mp h
    exact List.mem_cons_self
  | _ => exact h

/-- The nodes of a tree that are not inside the guard or the body of a comprehension. -/
def outer (e : Expr) : List Expr :=
  e :: e.outerParts.attach.flatMap fun part => outer part.1
termination_by e.weight
decreasing_by exact weight_lt_of_mem_children (outerParts_subset_children part.2)

/-- The nodes outside of loops are the root and those of its parts that are not the inside of a
loop. -/
theorem outer_eq (e : Expr) : e.outer = e :: e.outerParts.flatMap outer := by
  rw [outer, List.flatMap_subtype (g := outer) fun _ _ => rfl, List.unattach_attach]

/-- The root of a tree is outside of its loops. -/
theorem mem_outer_self (e : Expr) : e ∈ e.outer := by
  rw [outer_eq]
  exact List.mem_cons_self

/-- What holds of the nodes outside of the loops of a tree holds of those of its outer parts. -/
theorem forall_outer_part {P : Expr → Prop} {e part : Expr} (h : ∀ node ∈ e.outer, P node)
    (hpart : part ∈ e.outerParts) : ∀ node ∈ part.outer, P node := by
  intro node hnode
  apply h
  rw [outer_eq]
  exact List.mem_cons_of_mem _ (List.mem_flatMap.mpr ⟨part, hpart, hnode⟩)

/-- The nodes outside of loops are nodes of the tree. -/
theorem outer_subset_nodes (e : Expr) : ∀ node ∈ e.outer, node ∈ e.nodes := by
  fun_induction outer e with
  | case1 e ih =>
    intro node hnode
    rw [nodes_eq]
    rcases List.mem_cons.mp hnode with rfl | hnode
    · exact List.mem_cons_self
    · obtain ⟨part, -, hnode⟩ := List.mem_flatMap.mp hnode
      exact List.mem_cons_of_mem _
        (List.mem_flatMap.mpr ⟨part.1, outerParts_subset_children part.2, ih part node hnode⟩)

end Formulary.Expr
