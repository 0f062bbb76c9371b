import Formulary.Proofs.Circulation
import Mathlib.Data.List.Forall2

/-!
# Normalizing the values of a host

A host's value is a tree of lists and tuples over leaves.  Normalizing goes through the leaves from
left to right and fails with the fault of the first one that has no counterpart in the language, if
there is one: an integer beyond the doubles, nothing, or an object that the language cannot use
(`Value.leafFault?`).  Otherwise it keeps the nesting, makes every array a list and every leaf its
counterpart, and normalizing again changes nothing (`Value.normalize_leafwise`).
-/

set_option autoImplicit false

namespace Formulary.Value

/-! ## Leaves and nesting -/

mutual

/-- What a value holds that is no list or tuple, from left to right. -/
def leaves : Value → List Value
  | .list items => leavesAll items
  | .tuple items => leavesAll items
  | v => [v]

/-- What several values hold that is no list or tuple, from left to right. -/
def leavesAll : List Value → List Value
  | [] => []
  | v :: vs => leaves v ++ leavesAll vs

end

/-- The leaves of several values are those of each, one after the other. -/
theorem leavesAll_eq (vs : List Value) : leavesAll vs = vs.flatMap leaves := by
  induction vs with
  | nil => rfl
  | cons v vs ih => rw [leavesAll, ih, List.flatMap_cons]

/-- How lists and tuples are nested in a value. -/
inductive Shape where
  | leaf
  | array (items : List Shape)

mutual

/-- How lists and tuples are nested in a value; a list and a tuple are the same here. -/
def shape : Value → Shape
  | .list items => .array (shapes items)
  | .tuple items => .array (shapes items)
  | _ => .leaf

/-- How lists and tuples are nested in several values. -/
def shapes : List Value → List Shape
  | [] => []
  | v :: vs => shape v :: shapes vs

end

/-- Why a leaf has no counterpart in the language. -/
def leafFault? : Value → Option EvaluationFault
  | .integer n => if Number.overflow ≤ n.natAbs then some .numberOutOfRange else none
  | .null => some (.unsupportedValue "NoneType")
  | .object typeName => some (.unsupportedValue typeName)
  | _ => none

/-- The value of the language that a leaf stands for. -/
inductive Counterpart : Value → Value → Prop
  | self {v : Value} : v.Normal → Counterpart v v
  | integer {n : Int} {x : Float} : Number.ofInt? n = some x → Counterpart (.integer n) (.number x)
  | moment (m : Moment) : Counterpart (.moment m) (.timestamp (.ofMoment m))

/-! ## One walk over the leaves -/

/-- What normalizing comes to by the leaves: the fault of the first bad one, or a value that is
nested in the same way over their counterparts. -/
def Settles (v : Value) : Prop :=
  (∃ fault, v.leaves.findSome? leafFault? = some fault ∧ v.normalize = .error fault) ∨
    ∃ w, v.leaves.findSome? leafFault? = none ∧ v.normalize = .ok w ∧
      w.shape = v.shape ∧ List.Forall₂ Counterpart v.leaves w.leaves

/-- Items are normalized from left to right, up to the first that fails. -/
theorem normalizeAll_settles {vs : List Value} (h : ∀ v ∈ vs, v.Settles) :
    (∃ fault, (leavesAll vs).findSome? leafFault? = some fault ∧ normalizeAll vs = .error fault) ∨
      ∃ ws, (leavesAll vs).findSome? leafFault? = none ∧ normalizeAll vs = .ok ws ∧
        shapes ws = shapes vs ∧ List.Forall₂ Counterpart (leavesAll vs) (leavesAll ws) := by
  induction vs with
  | nil => exact .inr ⟨[], rfl, rfl, rfl, .nil⟩
  | cons v vs ih =>
    obtain ⟨hv, hvs⟩ := List.forall_mem_cons.mp h
    rw [normalizeAll, leavesAll, List.findSome?_append]
    rcases hv with ⟨fault, hfirst, hnormal⟩ | ⟨w, hfirst, hnormal, hshape, hleaves⟩
    · rw [hfirst, hnormal]
      exact .inl ⟨fault, rfl, rfl⟩
    · rw [hfirst, hnormal]
      rcases ih hvs with ⟨fault, hrest, hall⟩ | ⟨ws, hrest, hall, hshapes, hleaves'⟩
      · rw [hrest, hall]
        exact .inl ⟨fault, rfl, rfl⟩
      · rw [hrest, hall]
        refine .inr ⟨w :: ws, rfl, rfl, ?_, ?_⟩
        · rw [shapes, shapes, hshape, hshapes]
        · rw [leavesAll]
          exact List.rel_append hleaves hleaves'

/-- An array of a host is settled by its items. -/
theorem settles_of_items {v : Value} {items : List Value} (hleaves : v.leaves = leavesAll items)
    (hshape : v.shape = .array (shapes items))
    (hnormal : v.normalize = (normalizeAll items).map .list) (h : ∀ item ∈ items, item.Settles) :
    v.Settles := by
  unfold Settles
  rw [hleaves, hshape, hnormal]
  rcases normalizeAll_settles h with ⟨fault, hfirst, hall⟩ | ⟨ws, hfirst, hall, hshapes, hleaves'⟩
  · rw [hall]
    exact .inl ⟨fault, hfirst, rfl⟩
  · rw [hall]
    exact .inr ⟨.list ws, hfirst, rfl, congrArg Shape.array hshapes, hleaves'⟩

/-- Every value is normalized as its leaves say. -/
theorem settles (v : Value) : v.Settles := by
  induction v using byItems with
  | boolean b => exact .inr ⟨_, rfl, rfl, rfl, .cons (.self (.boolean b)) .nil⟩
  | number x => exact .inr ⟨_, rfl, rfl, rfl, .cons (.self (.number x)) .nil⟩
  | string s => exact .inr ⟨_, rfl, rfl, rfl, .cons (.self (.string s)) .nil⟩
  | timestamp t => exact .inr ⟨_, rfl, rfl, rfl, .cons (.self (.timestamp t)) .nil⟩
  | range r => exact .inr ⟨_, rfl, rfl, rfl, .cons (.self (.range r)) .nil⟩
  | moment m => exact .inr ⟨_, rfl, rfl, rfl, .cons (.moment m) .nil⟩
  | null => exact .inl ⟨_, rfl, rfl⟩
  | object typeName => exact .inl ⟨_, rfl, rfl⟩
  | list items ih => exact settles_of_items rfl rfl rfl ih
  | tuple items ih => exact settles_of_items rfl rfl rfl ih
  | integer n =>
    have hleaves : (Value.integer n).leaves = [.integer n] := rfl
    unfold Settles
    rw [hleaves, List.findSome?_singleton, leafFault?, normalize]
    cases hdouble : Number.ofInt? n with
    | none =>
      rw [if_pos ((Number.ofInt?_eq_none_iff n).mp hdouble)]
      exact .inl ⟨_, rfl, rfl⟩
    | some x =>
      have hsmall : ¬ Number.overflow ≤ n.natAbs := by
        rw [← Number.ofInt?_eq_none_iff, hdouble]
        intro h
        cases h
      rw [if_neg hsmall]
      exact .inr ⟨_, rfl, rfl, rfl, .cons (.integer hdouble) .nil⟩

/-- Normalizing fails exactly with the fault of the first leaf that has one, and fails only if a
leaf has one; else it gives a value of the language with the same nesting and the counterparts of
the leaves, which is its own normal form. -/
theorem normalize_leafwise (v : Value) :
    (∀ fault, v.normalize = .error fault ↔ ∃ before leaf after, v.leaves = before ++ leaf :: after ∧
      leaf.leafFault? = some fault ∧ ∀ u ∈ before, u.leafFault? = none) ∧
    ((∃ fault, v.normalize = .error fault) ↔ ∃ leaf ∈ v.leaves, leaf.leafFault? ≠ none) ∧
    ((∀ leaf ∈ v.leaves, leaf.leafFault? = none) → ∃ w, v.normalize = .ok w ∧
      w.shape = v.shape ∧ List.Forall₂ Counterpart v.leaves w.leaves ∧ w.Normal ∧
      w.normalize = .ok w) := by
  simp only [← List.findSome?_eq_some_iff]
  rcases v.settles with ⟨fault, hfirst, hnormal⟩ | ⟨w, hfirst, hnormal, hshape, hleaves⟩
  · have hbad : ¬ ∀ leaf ∈ v.leaves, leaf.leafFault? = none := by
      rw [← List.findSome?_eq_none_iff, hfirst]
      nofun
    refine ⟨fun fault' => ?_, ⟨fun _ => by simpa using hbad, fun _ => ⟨fault, hnormal⟩⟩,
      fun h => absurd h hbad⟩
    rw [hfirst, hnormal, Except.error.injEq, Option.some.injEq]
  · have hgood : ∀ leaf ∈ v.leaves, leaf.leafFault? = none := List.findSome?_eq_none_iff.mp hfirst
    have hw : w.Normal := normal_of_normalize hnormal
    rw [hfirst, hnormal]
    refine ⟨fun fault => ⟨nofun, nofun⟩, ⟨nofun, ?_⟩, fun _ =>
      ⟨w, rfl, hshape, hleaves, hw, hw.normalize_eq⟩⟩
    rintro ⟨leaf, hleaf, hfault⟩
    exact absurd (hgood leaf hleaf) hfault

end Formulary.Value
