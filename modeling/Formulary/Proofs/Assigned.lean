import Formulary.Expr.Names
import Formulary.Proofs.Tree
import Mathlib.Data.List.Induction

/-!
# The names that a formula assigns

The assigned names are gathered by a walk with rules, which keeps a list of the names found so far
and adds a name at an assignment before it goes on to the value.  `Expr.assignedNames` says which
list this is without a walk: the targets of the nodes in pre-order, without repetitions.  The walk
gathers this list, unless it comes to a foreign item, which it fails at (`Expr.assigned_eq`).

The names of the list are those that some node assigns (`Expr.mem_assignedNames_iff`), and they are
listed by their first assignments (`Expr.pairwise_assignedNames`).
-/

set_option autoImplicit false

namespace Formulary.Expr

/-! ## Walks with rules -/

section Walks

variable {m : Type → Type} {α : Type} [MonadExcept Fault m]

/-- The walks over several trees are the walks over each. -/
theorem walks_eq_map (rules : Rules m α) (es : List Expr) :
    walks rules es = es.map (walk rules) := by
  induction es with
  | nil => rfl
  | cons e es ih => rw [walks, ih, List.map_cons]

/-- A walk does at a node what its rules say, given the walks over the parts of the node. -/
theorem walk_eq (rules : Rules m α) (e : Expr) :
    e.walk rules = rules.apply e (e.children.map (walk rules)) := by
  cases e with
  | program | array | call => simp only [walk, children, walks_eq_map]
  | comprehension span binder iterable guard body => cases guard <;> rfl
  | _ => rfl

end Walks

/-! ## Gathering names -/

/-- What gathering does at one node, without its parts: it fails at a foreign item and notes the
name of an assignment. -/
def gatherAt (names : List String) (node : Expr) : Except Fault (List String) :=
  match node.fault? with
  | some fault => .error fault
  | none => .ok (node.target?.elim names (noted names))

/-- The rules treat the node itself first and all its parts then. -/
theorem run_apply_targetRules (e : Expr) (parts : List (Gathering Unit)) (names : List String) :
    (targetRules.apply e parts).run names = (do
      let found ← gatherAt names e
      (parts.forM id).run found) := by
  cases e <;> rfl

/-- Gathering over several trees, one after the other, is a fold over all their nodes. -/
theorem run_forM_walk {es : List Expr}
    (h : ∀ e ∈ es, ∀ names, (e.walk targetRules).run names =
      (fun found => ((), found)) <$> e.nodes.foldlM gatherAt names) (names : List String) :
    ((es.map (walk targetRules)).forM id).run names =
      (fun found => ((), found)) <$> (es.flatMap nodes).foldlM gatherAt names := by
  induction es generalizing names with
  | nil => rfl
  | cons e es ih =>
    show (walk targetRules e >>= fun _ => (es.map (walk targetRules)).forM id).run names = _
    rw [StateT.run_bind, h e List.mem_cons_self, bind_map_left, List.flatMap_cons,
      List.foldlM_append, map_bind]
    congr 1
    funext found
    exact ih (fun e he => h e (List.mem_cons_of_mem _ he)) found

/-- Gathering over a tree is a fold over its nodes in pre-order. -/
theorem run_walk (e : Expr) (names : List String) :
    (e.walk targetRules).run names =
      (fun found => ((), found)) <$> e.nodes.foldlM gatherAt names := by
  induction e using byChildren generalizing names with
  | node e ih =>
    rw [walk_eq, run_apply_targetRules, nodes_eq, List.foldlM_cons, map_bind]
    congr 1
    funext found
    exact run_forM_walk ih found

/-- The fold over nodes fails at the first foreign item, and else notes the targets in order. -/
theorem foldlM_gatherAt (nodes : List Expr) (names : List String) :
    nodes.foldlM gatherAt names = match nodes.findSome? fault? with
      | some fault => .error fault
      | none => .ok ((nodes.filterMap target?).foldl noted names) := by
  induction nodes generalizing names with
  | nil => rfl
  | cons node nodes ih =>
    rw [List.foldlM_cons, List.findSome?_cons]
    cases hfault : node.fault? with
    | some fault =>
      rw [gatherAt, hfault]
      rfl
    | none =>
      have hnode : gatherAt names node = .ok (node.target?.elim names (noted names)) := by
        rw [gatherAt, hfault]
      rw [hnode]
      refine (ih _).trans ?_
      cases htarget : node.target? <;> simp [htarget]

/-! ## The list of assigned names -/

/-- The assigned names, nested ones included, each once and in the order of first occurrence. -/
def assignedNames (e : Expr) : List String :=
  (e.nodes.filterMap target?).eraseDups

/-- Where in the walk over a tree, which comes to each node before its parts, a name is assigned for
the first time. -/
def firstAssignment (e : Expr) (name : String) : Nat :=
  e.nodes.findIdx fun node => node.target? == some name

/-- A name is among the assigned ones if and only if some node of the tree is an assignment to
it. -/
theorem mem_assignedNames_iff (e : Expr) (name : String) :
    name ∈ e.assignedNames ↔ ∃ span value, .assign span name value ∈ e.nodes := by
  unfold assignedNames
  rw [List.mem_eraseDups, List.mem_filterMap]
  constructor
  · rintro ⟨node, hnode, htarget⟩
    cases node with
    | assign span other value =>
      obtain rfl := Option.some.inj htarget
      exact ⟨span, value, hnode⟩
    | _ => cases htarget
  · rintro ⟨span, value, hnode⟩
    exact ⟨_, hnode, rfl⟩

/-- A name behind a list is kept by the removal of repetitions if it is not in the list. -/
theorem eraseDups_concat (names : List String) (name : String) :
    (names ++ [name]).eraseDups =
      if name ∈ names then names.eraseDups else names.eraseDups ++ [name] := by
  rw [List.eraseDups_append]
  by_cases h : name ∈ names <;> simp [List.removeAll, h, List.eraseDups_cons]

/-- Removing repetitions keeps the order of first occurrences.  By induction from the end of the
list: another element is kept exactly if it has not occurred, and it is the last one then. -/
theorem pairwise_eraseDups_filterMap {α : Type} (f : α → Option String) (l : List α) :
    (l.filterMap f).eraseDups.Pairwise fun a b =>
      (l.findIdx fun x => f x == some a) < l.findIdx fun x => f x == some b := by
  have hoccurs : ∀ (l : List α) (a : String), (l.findIdx fun x => f x == some a) < l.length ↔
      a ∈ l.filterMap f := by
    intro l a
    simp [List.findIdx_lt_length, List.mem_filterMap]
  induction l using List.reverseRecOn with
  | nil => exact .nil
  | append_singleton l x ih =>
    have hkept : ∀ a ∈ l.filterMap f,
        ((l ++ [x]).findIdx fun x => f x == some a) = l.findIdx fun x => f x == some a := by
      intro a ha
      rw [List.findIdx_append, if_pos ((hoccurs l a).mpr ha)]
    have hbefore : (l.filterMap f).eraseDups.Pairwise fun a b =>
        ((l ++ [x]).findIdx fun x => f x == some a) <
          (l ++ [x]).findIdx fun x => f x == some b := by
      refine ih.imp_of_mem fun ha hb hlt => ?_
      rw [hkept _ (List.mem_eraseDups.mp ha), hkept _ (List.mem_eraseDups.mp hb)]
      exact hlt
    cases hx : f x with
    | none => simpa [hx] using hbefore
    | some b =>
      have hlist : (l ++ [x]).filterMap f = l.filterMap f ++ [b] := by simp [hx]
      rw [hlist, eraseDups_concat]
      by_cases hb : b ∈ l.filterMap f
      · rw [if_pos hb]
        exact hbefore
      · rw [if_neg hb, List.pairwise_append]
        refine ⟨hbefore, List.pairwise_singleton _ _, fun a ha c hc => ?_⟩
        obtain rfl := List.mem_singleton.mp hc
        have ha := List.mem_eraseDups.mp ha
        rw [hkept a ha, List.findIdx_append, if_neg (mt (hoccurs l c).mp hb)]
        have hlt := (hoccurs l a).mpr ha
        omega

/-- The assigned names are in the order of their first assignments, and so each is listed once. -/
theorem pairwise_assignedNames (e : Expr) :
    e.assignedNames.Pairwise fun a b => e.firstAssignment a < e.firstAssignment b :=
  pairwise_eraseDups_filterMap target? e.nodes

/-- Noting names one after the other removes the repetitions. -/
theorem foldl_noted (names : List String) : names.foldl noted [] = names.eraseDups := by
  induction names using List.reverseRecOn with
  | nil => rfl
  | append_singleton names name ih =>
    rw [List.foldl_append, ih, eraseDups_concat]
    by_cases h : name ∈ names <;> simp [noted, h]

/-- The walk gathers the assigned names, unless it comes to a foreign item. -/
theorem assigned_eq (e : Expr) :
    e.assigned = match e.defect? with
      | some fault => .error fault
      | none => .ok e.assignedNames := by
  rw [assigned, run_walk, foldlM_gatherAt, defect?, assignedNames, foldl_noted]
  cases e.nodes.findSome? fault? <;> rfl

end Formulary.Expr
