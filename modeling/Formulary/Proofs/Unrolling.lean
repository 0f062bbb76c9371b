import Formulary.Proofs.Circulation
import Formulary.Proofs.Comparing
import Mathlib.Data.List.GetD

/-!
# Ranges and the lists they stand for

`Value.unroll` replaces ranges by the lists of their elements, at any depth.  No operation can tell
a value from its unrolled form, as long as the ranges are exact: the outcomes are the same once
their own ranges are unrolled (`SameBy`).  Ranges and lists are treated alike in `View`, so that an
operation that looks at its operands through their views has one case to be considered, that of
arrays; counting an array (`Sequence.length_unrolled`), listing it (`Sequence.toList_unrolled`) and
comparing it (`Sequence.equal_unrolled`) are the facts behind it.
-/

set_option autoImplicit false

namespace Formulary

/-! ## Outcomes -/

/-- Two outcomes that a function on values cannot tell apart: the same failure, or values with the
same image. -/
def SameBy {ε α β : Type} (f : α → β) (x y : Except ε α) : Prop :=
  x.map f = y.map f

namespace SameBy

variable {ε α β γ δ : Type} {f : α → β} {g : γ → δ} {x y : Except ε α}

/-- Equal outcomes cannot be told apart. -/
theorem of_eq (h : x = y) : SameBy f x y :=
  congrArg (Except.map f) h

/-- Outcomes that cannot be told apart from a third one cannot be told apart from one another. -/
theorem trans {z : Except ε α} (hxy : SameBy f x y) (hyz : SameBy f y z) : SameBy f x z :=
  Eq.trans hxy hyz

/-- Outcomes cannot be told apart in either order. -/
theorem symm (h : SameBy f x y) : SameBy f y x :=
  Eq.symm h

/-- Values with the same image cannot be told apart. -/
theorem ok {a b : α} (h : f a = f b) : SameBy f (.ok a : Except ε α) (.ok b) :=
  congrArg Except.ok h

/-- Outcomes that cannot be told apart are values with the same image or the same failure. -/
theorem cases (h : SameBy f x y) :
    (∃ a b, x = .ok a ∧ y = .ok b ∧ f a = f b) ∨ ∃ e, x = .error e ∧ y = .error e := by
  cases x with
  | ok a =>
    cases y with
    | ok b => exact .inl ⟨a, b, rfl, rfl, Except.ok.inj h⟩
    | error e => cases h
  | error e =>
    cases y with
    | ok b => cases h
    | error e' =>
      obtain rfl : e = e' := Except.error.inj h
      exact .inr ⟨e, rfl, rfl⟩

/-- Outcomes that cannot be told apart lead to such outcomes if what follows does from values with
the same image. -/
theorem bind {k l : α → Except ε γ} (hxy : SameBy f x y)
    (hkl : ∀ a b, f a = f b → SameBy g (k a) (l b)) :
    SameBy g (x >>= k) (y >>= l) := by
  rcases hxy.cases with ⟨a, b, rfl, rfl, hab⟩ | ⟨e, rfl, rfl⟩
  · exact hkl a b hab
  · exact of_eq rfl

/-- Outcomes that cannot be told apart stay so if their values are mapped to the same images. -/
theorem map {k l : α → γ} (hxy : SameBy f x y) (hkl : ∀ a b, f a = f b → g (k a) = g (l b)) :
    SameBy g (x.map k) (y.map l) :=
  hxy.bind fun a b hab => ok (hkl a b hab)

/-- What goes on in the same way from the same outcome. -/
theorem bind_same {k l : α → Except ε γ} (hkl : ∀ a, x = .ok a → SameBy g (k a) (l a)) :
    SameBy g (x >>= k) (x >>= l) := by
  cases x with
  | ok a => exact hkl a rfl
  | error e => exact of_eq rfl

/-- Outcomes that cannot be told apart stay so if their failures are mapped. -/
theorem mapError {φ : Type} (h : SameBy f x y) (g : ε → φ) :
    SameBy f (x.mapError g) (y.mapError g) := by
  rcases h.cases with ⟨a, b, rfl, rfl, hab⟩ | ⟨e, rfl, rfl⟩
  · exact ok hab
  · exact of_eq rfl

/-- Computations that cannot be told apart are operations that cannot. -/
theorem orFault {x y : Except Fault α} (h : SameBy f x y) :
    SameBy f (Value.orFault x) (Value.orFault y) :=
  h.mapError Refusal.fault

/-- What does the same with the images of its arguments does the same with arguments of one
image. -/
theorem transfer {u : γ → γ} {k : γ → Except ε α} (hk : ∀ c, SameBy f (k (u c)) (k c)) {c c' : γ}
    (h : u c = u c') :
    SameBy f (k c) (k c') := by
  have hc' := hk c'
  rw [← h] at hc'
  exact (hk c).symm.trans hc'

/-- An operation that cannot tell two arguments from their images gives the same for arguments with
the same images. -/
theorem transfer₂ {u : γ → γ} {k : γ → γ → Except ε α}
    (hk : ∀ c d, SameBy f (k (u c) (u d)) (k c d)) {c c' d d' : γ} (hc : u c = u c')
    (hd : u d = u d') : SameBy f (k c d) (k c' d') := by
  have hcd' := hk c' d'
  rw [← hc, ← hd] at hcd'
  exact (hk c d).symm.trans hcd'

end SameBy

/-! ## Unrolling -/

namespace Value

mutual

/-- A value with some of its ranges replaced by the lists of their elements.  A range that cannot be
listed stays. -/
def unroll (which : IntRange → Bool) : Value → Value
  | .range r => if which r then ((Sequence.range r).toList.toOption.map .list).getD
    (.range r) else .range r
  | .list items => .list (unrollAll which items)
  | .tuple items => .tuple (unrollAll which items)
  | v => v

/-- Several values with some of their ranges replaced. -/
def unrollAll (which : IntRange → Bool) : List Value → List Value
  | [] => []
  | v :: vs => unroll which v :: unrollAll which vs

end

/-- Several values are unrolled one by one. -/
theorem unrollAll_eq_map (which : IntRange → Bool) (vs : List Value) :
    unrollAll which vs = vs.map (unroll which) := by
  induction vs with
  | nil => rfl
  | cons v vs ih => rw [unrollAll, ih, List.map_cons]

/-- A list is unrolled in its elements. -/
theorem unroll_list (which : IntRange → Bool) (vs : List Value) :
    unroll which (.list vs) = .list (vs.map (unroll which)) := by
  rw [unroll, unrollAll_eq_map]

/-- A tuple is unrolled in its elements. -/
theorem unroll_tuple (which : IntRange → Bool) (vs : List Value) :
    unroll which (.tuple vs) = .tuple (vs.map (unroll which)) := by
  rw [unroll, unrollAll_eq_map]

/-- The elements of a range are numbers, and there is nothing to unroll in them. -/
theorem map_unroll_elements (which : IntRange → Bool) {r : IntRange} {vs : List Value}
    (h : (Sequence.range r).toList = .ok vs) : vs.map (unroll which) = vs := by
  have hnumber : ∀ n ∈ r.toList, Yields (fun v => ∃ x, v = .number x) (fun _ => True)
      (ofRangeElement n) := by
    intro n _
    unfold ofRangeElement
    cases Number.ofInt? n with
    | none => trivial
    | some x => exact ⟨x, rfl⟩
  have hnumbers := Yields.mapM hnumber
  change r.toList.mapM ofRangeElement = .ok vs at h
  rw [h] at hnumbers
  refine (List.map_congr_left fun v hv => ?_).trans (List.map_id vs)
  obtain ⟨x, rfl⟩ := hnumbers.1 v hv
  rfl

/-- A value with its exact ranges replaced by lists. -/
def unrolled : Value → Value :=
  unroll IntRange.isExact

/-- A list is unrolled in its elements, exact ranges among them. -/
@[simp] theorem unrolled_list (vs : List Value) : unrolled (.list vs) = .list (vs.map unrolled) :=
  unroll_list _ vs

/-- A tuple is unrolled in its elements, exact ranges among them. -/
@[simp] theorem unrolled_tuple (vs : List Value) :
    unrolled (.tuple vs) = .tuple (vs.map unrolled) :=
  unroll_tuple _ vs

/-- A range is unrolled to the list of its numbers if it is exact, and stays otherwise. -/
theorem unrolled_range (r : IntRange) :
    unrolled (.range r) = if r.isExact then .list (r.toList.map ofExact) else .range r := by
  show unroll _ _ = _
  rw [unroll]
  by_cases h : r.isExact = true
  · rw [if_pos h, if_pos h, toList_exact h]
    rfl
  · rw [if_neg h, if_neg h]

end Value

open Value

/-- The elements of an array that is unrolled with its elements. -/
def Sequence.unrolled : Sequence → Sequence
  | .items vs => .items (vs.map Value.unrolled)
  | .range r => if r.isExact then .items (r.toList.map ofExact) else .range r

/-- The view of a value that is unrolled. -/
def Value.View.unrolled : View → View
  | .array s => .array s.unrolled
  | view => view

/-- What the language can do with an unrolled value is what it can do with the value, unrolled. -/
theorem Value.view_unrolled (v : Value) : v.unrolled.view = v.view.unrolled := by
  cases v with
  | list vs | tuple vs =>
    simp only [unrolled_list, unrolled_tuple]
    rfl
  | range r =>
    rw [unrolled_range]
    show _ = View.array (if r.isExact then _ else _)
    by_cases h : r.isExact = true
    · rw [if_pos h, if_pos h]
      rfl
    · rw [if_neg h, if_neg h]
      rfl
  | _ => rfl

namespace Value

/-- Unrolling does not change which number a value is. -/
@[simp] theorem numeric?_unrolled (v : Value) : v.unrolled.numeric? = v.numeric? := by
  unfold numeric?
  rw [view_unrolled]
  cases v.view <;> rfl

/-- The elements of an unrolled value are those of the value, unrolled. -/
@[simp] theorem sequence?_unrolled (v : Value) :
    v.unrolled.sequence? = v.sequence?.map Sequence.unrolled := by
  unfold sequence?
  rw [view_unrolled]
  cases v.view <;> rfl

/-- What makes no difference between arrays is blind to unrolling. -/
theorem unrolled_congr {α : Type} {f : Value → α} {a : α} (hrange : ∀ r, f (.range r) = a)
    (hlist : ∀ vs, f (.list vs) = a) (htuple : ∀ vs, f (.tuple vs) = a) (v : Value) :
    f v.unrolled = f v := by
  cases v with
  | list vs => rw [unrolled_list, hlist, hlist]
  | tuple vs => rw [unrolled_tuple, htuple, htuple]
  | range r =>
    rw [unrolled_range]
    by_cases h : r.isExact = true
    · rw [if_pos h, hlist, hrange]
    · rw [if_neg h]
  | _ => rfl

/-- Unrolling does not change the name of a value's type. -/
@[simp] theorem typeName_unrolled (v : Value) : v.unrolled.typeName = v.typeName :=
  unrolled_congr (fun _ => rfl) (fun _ => rfl) (fun _ => rfl) v

/-- Unrolling leaves no exact range behind. -/
theorem unrolled_unrolled (v : Value) : v.unrolled.unrolled = v.unrolled := by
  have hitems : ∀ vs : List Value, (∀ v ∈ vs, v.unrolled.unrolled = v.unrolled) →
      (vs.map unrolled).map unrolled = vs.map unrolled := by
    intro vs h
    rw [List.map_map]
    exact List.map_congr_left h
  induction v using byItems with
  | list vs ih => rw [unrolled_list, unrolled_list, hitems vs ih]
  | tuple vs ih => rw [unrolled_tuple, unrolled_tuple, hitems vs ih]
  | range r =>
    rw [unrolled_range]
    by_cases h : r.isExact = true
    · rw [if_pos h, unrolled_list, List.map_map]
      rfl
    · rw [if_neg h, unrolled_range, if_neg h]
  | _ => rfl

/-- Unrolling all ranges goes on from where the exact ones are unrolled. -/
theorem unroll_unrolled (v : Value) :
    v.unrolled.unroll (fun _ => true) = v.unroll fun _ => true := by
  have hitems : ∀ vs : List Value,
      (∀ v ∈ vs, v.unrolled.unroll (fun _ => true) = v.unroll fun _ => true) →
      (vs.map unrolled).map (unroll fun _ => true) = vs.map (unroll fun _ => true) := by
    intro vs h
    rw [List.map_map]
    exact List.map_congr_left h
  induction v using byItems with
  | list vs ih => rw [unrolled_list, unroll_list, unroll_list, hitems vs ih]
  | tuple vs ih => rw [unrolled_tuple, unroll_tuple, unroll_tuple, hitems vs ih]
  | range r =>
    rw [unrolled_range]
    by_cases h : r.isExact = true
    · have hlist := toList_exact h
      rw [if_pos h, unroll_list, map_unroll_elements _ hlist, unroll, if_pos rfl, hlist]
      rfl
    · rw [if_neg h]
  | _ => rfl

end Value

/-! ## Arrays -/

namespace Sequence

/-- Unrolling does not change the number of elements. -/
theorem size_unrolled (s : Sequence) : s.unrolled.size = s.size := by
  cases s with
  | items vs => exact List.length_map _
  | range r =>
    show (if r.isExact then items (r.toList.map ofExact) else range r).size = r.length
    by_cases h : r.isExact = true
    · rw [if_pos h]
      exact (List.length_map _).trans r.length_toList
    · rw [if_neg h]
      rfl

/-- Unrolling does not change the length, or the fault of counting. -/
theorem length_unrolled (s : Sequence) : s.unrolled.length = s.length := by
  unfold length
  rw [size_unrolled]

/-- The list of an unrolled array's elements is that of the array, unrolled. -/
theorem toList_unrolled (s : Sequence) :
    s.unrolled.toList = s.toList.map (List.map Value.unrolled) := by
  cases s with
  | items vs => rfl
  | range r =>
    show (if r.isExact then items (r.toList.map ofExact) else range r).toList = _
    by_cases h : r.isExact = true
    · rw [if_pos h, toList_exact h]
      show Except.ok (r.toList.map ofExact) = .ok ((r.toList.map ofExact).map Value.unrolled)
      rw [List.map_map]
      rfl
    · rw [if_neg h]
      show (range r).toList = (range r).toList.map (List.map Value.unrolled)
      cases hlist : (range r).toList with
      | error fault => rfl
      | ok vs =>
        exact congrArg Except.ok (map_unroll_elements IntRange.isExact hlist).symm

/-- The lists of an array and of its unrolled form differ in what is unrolled only. -/
theorem sameBy_toList (s : Sequence) :
    SameBy (List.map Value.unrolled) s.unrolled.toList s.toList := by
  rw [toList_unrolled]
  cases s.toList with
  | error e => rfl
  | ok vs =>
    refine .ok ?_
    rw [List.map_map]
    exact List.map_congr_left fun v _ => unrolled_unrolled v

end Sequence

/-! ## Equality -/

/-- Unrolling does not change whether a value equals an integer. -/
@[simp] theorem Value.equalsInteger_unrolled (n : Int) (v : Value) :
    equalsInteger n v.unrolled = equalsInteger n v := by
  unfold equalsInteger
  rw [numeric?_unrolled]

namespace Sequence

/-- An unrolled range on the left is compared as the range is. -/
theorem unrolled_range_equal (r : IntRange) (a : Sequence) :
    (range r).unrolled.equal a = (range r).equal a := by
  show (if r.isExact then items (r.toList.map ofExact) else range r).equal a = _
  by_cases h : r.isExact = true
  · rw [if_pos h]
    cases a with
    | items vs => exact numbers_equal h vs
    | range s => exact numbers_equal_range h s
  · rw [if_neg h]

/-- An unrolled range on the right is compared as the range is. -/
theorem equal_unrolled_range (a : Sequence) (r : IntRange) :
    a.equal (range r).unrolled = a.equal (range r) := by
  show a.equal (if r.isExact then items (r.toList.map ofExact) else range r) = _
  by_cases h : r.isExact = true
  · rw [if_pos h]
    cases a with
    | items vs => exact equal_numbers h vs
    | range s => exact range_equal_numbers h s
  · rw [if_neg h]

/-- A range is compared with unrolled values as with the values. -/
theorem equalRangeList_unrolled (r : IntRange) (vs : List Value) :
    equalRangeList r (vs.map Value.unrolled) = equalRangeList r vs := by
  have hzip : (r.toList.zip (vs.map Value.unrolled)).all (fun p => equalsInteger p.1 p.2) =
      (r.toList.zip vs).all fun p => equalsInteger p.1 p.2 := by
    rw [List.zip_map_right, List.all_map]
    refine List.all_congr rfl fun p => ?_
    exact equalsInteger_unrolled p.1 p.2
  unfold equalRangeList
  rw [List.length_map]
  cases (range r).length with
  | error fault => rfl
  | ok length => exact congrArg (fun same => Except.ok (length == vs.length && same)) hzip

/-- Unrolled lists are compared as the lists are, if their elements are. -/
theorem equalAll_unrolled {vs : List Value}
    (h : ∀ v ∈ vs, ∀ w : Value, v.unrolled.equal w.unrolled = v.equal w) (ws : List Value) :
    equalAll (vs.map Value.unrolled) (ws.map Value.unrolled) = equalAll vs ws := by
  induction vs generalizing ws with
  | nil => cases ws <;> rfl
  | cons v vs ih =>
    cases ws with
    | nil => rfl
    | cons w ws =>
      rw [List.map_cons, List.map_cons, equalAll, equalAll, h v List.mem_cons_self,
        ih fun v hv => h v (List.mem_cons_of_mem _ hv)]

/-- Comparing arrays is blind to unrolling if comparing their elements is. -/
theorem equal_unrolled {a : Sequence}
    (h : ∀ vs, a = .items vs → ∀ v ∈ vs, ∀ w : Value, v.unrolled.equal w.unrolled = v.equal w)
    (b : Sequence) :
    a.unrolled.equal b.unrolled = a.equal b := by
  cases b with
  | range s =>
    rw [equal_unrolled_range]
    cases a with
    | range r => exact unrolled_range_equal r _
    | items vs => exact equalRangeList_unrolled s vs
  | items ws =>
    cases a with
    | range r => exact (unrolled_range_equal r _).trans (equalRangeList_unrolled r ws)
    | items vs =>
      show (if (vs.map Value.unrolled).length =
        (ws.map Value.unrolled).length then equalAll _ _ else _) =
        if vs.length = ws.length then equalAll vs ws else _
      rw [List.length_map, List.length_map, equalAll_unrolled (h vs rfl)]

end Sequence

namespace Value

/-- An unrolled value is compared with others as the value is, if the elements of its list are. -/
theorem equal_unrolled_of_items {v : Value}
    (h : ∀ vs, v.view = .array (.items vs) →
      ∀ v ∈ vs, ∀ w : Value, v.unrolled.equal w.unrolled = v.equal w) (w : Value) :
    v.unrolled.equal w.unrolled = v.equal w := by
  rw [equal_eq, equal_eq, view_unrolled, view_unrolled]
  cases hv : v.view with
  | array a =>
    cases w.view with
    | array b =>
      exact Sequence.equal_unrolled (fun vs ha => h vs (hv.trans (congrArg View.array ha))) b
    | _ => rfl
  | _ => cases w.view <;> rfl

/-- Equality is blind to unrolling. -/
theorem equal_unrolled (v w : Value) : v.unrolled.equal w.unrolled = v.equal w := by
  induction v using byItems generalizing w with
  | list vs ih | tuple vs ih =>
    apply equal_unrolled_of_items
    rintro _ ⟨⟩
    exact ih
  | _ =>
    apply equal_unrolled_of_items
    nofun

/-! ## Operators -/

/-- Unrolling does not change the refusal of a type. -/
@[simp] theorem mismatch_unrolled {α : Type} (expected : String) (v : Value)
    (context : Option String) :
    (mismatch expected v.unrolled context : Except Refusal α) = mismatch expected v context := by
  unfold mismatch
  rw [typeName_unrolled]

/-- Unrolling does not change the truth of a value. -/
@[simp] theorem truth_unrolled (v : Value) : v.unrolled.truth = v.truth := by
  unfold truth
  rw [view_unrolled, mismatch_unrolled]
  cases v.view <;> rfl

/-- Unrolling does not change which two numbers are demanded, or their refusal. -/
@[simp] theorem bothNumbers_unrolled (operator : BinaryOp) (v w : Value) :
    bothNumbers operator v.unrolled w.unrolled = bothNumbers operator v w := by
  unfold bothNumbers
  rw [numeric?_unrolled, numeric?_unrolled, mismatch_unrolled, mismatch_unrolled]

/-- The sum of unrolled values is the sum of the values, up to unrolling. -/
theorem add_unrolled (limits : Limits) (v w : Value) :
    SameBy unrolled (add limits v.unrolled w.unrolled) (add limits v w) := by
  unfold add
  simp only [view_unrolled, mismatch_unrolled]
  cases v.view with
  | array a =>
    cases w.view with
    | array b =>
      simp only [View.unrolled, Sequence.length_unrolled]
      refine .bind_same fun m _ => .bind_same fun n _ => .bind_same fun _ _ => ?_
      refine a.sameBy_toList.orFault.bind fun xs xs' hxs => ?_
      refine b.sameBy_toList.orFault.bind fun ys ys' hys => .ok ?_
      rw [unrolled_list, unrolled_list, List.map_append, List.map_append, hxs, hys]
    | _ => exact .of_eq rfl
  | _ => cases w.view <;> exact .of_eq rfl

/-- Unrolling does not change the answer of a comparison. -/
theorem compare_unrolled (operator : BinaryOp) (comparison : Comparison) (v w : Value) :
    compare operator comparison v.unrolled w.unrolled = compare operator comparison v w := by
  unfold compare
  simp only [view_unrolled, typeName_unrolled, mismatch_unrolled]
  cases v.view <;> cases w.view <;> rfl

/-- Unrolling does not change a difference. -/
theorem subtract_unrolled (v w : Value) : subtract v.unrolled w.unrolled = subtract v w := by
  unfold subtract
  simp only [view_unrolled, mismatch_unrolled, bothNumbers_unrolled]
  cases v.view <;> cases w.view <;> rfl

/-- Operators are blind to unrolling. -/
theorem applyBinary_unrolled (limits : Limits) (operator : BinaryOp) (v w : Value) :
    SameBy unrolled (applyBinary limits operator v.unrolled w.unrolled)
      (applyBinary limits operator v w) := by
  cases operator with
  | add => exact add_unrolled limits v w
  | subtract => exact .of_eq (subtract_unrolled v w)
  | multiply | divide | modulo | power =>
    refine .of_eq ?_
    simp only [applyBinary, divideBy, bothNumbers_unrolled]
  | equal | notEqual =>
    refine .of_eq ?_
    simp only [applyBinary, equal_unrolled]
  | less | greater | lessEqual | greaterEqual => exact .of_eq (compare_unrolled _ _ v w)
  | and | or =>
    refine .of_eq ?_
    simp only [applyBinary, connect, truth_unrolled]
  | other symbol => exact .of_eq rfl

/-- Unrolling does not change the result of a unary operation. -/
theorem applyUnary_unrolled (operator : UnaryOp) (v : Value) :
    applyUnary operator v.unrolled = applyUnary operator v := by
  cases operator with
  | negate => simp only [applyUnary, numeric?_unrolled, mismatch_unrolled]
  | not => simp only [applyUnary, truth_unrolled]
  | other symbol => rfl

/-! ## Elements -/

/-- Unrolling does not change which whole number is demanded, or its refusal. -/
@[simp] theorem demandWhole_unrolled (v : Value) (context : String) :
    v.unrolled.demandWhole context = v.demandWhole context := by
  unfold demandWhole
  rw [numeric?_unrolled, mismatch_unrolled]

/-- Unrolling the bounds does not change the range that is built. -/
theorem buildRange_unrolled (limits : Limits) (v w : Value) (inclusive : Bool) :
    buildRange limits v.unrolled w.unrolled inclusive = buildRange limits v w inclusive := by
  unfold buildRange
  rw [demandWhole_unrolled, demandWhole_unrolled]

/-- A position that is located lies within the length. -/
theorem locate_lt {requested : Int} {length position : Nat}
    (h : locate requested length = .ok position) :
    position < length := by
  have hlocate := @Native.locate .standard requested length
  rw [h] at hlocate
  exact hlocate

/-- An element of an exact range is the number that stands in its place. -/
theorem getD_numbers {r : IntRange} (h : r.isExact = true) {position : Nat}
    (hposition : position < r.length) :
    ofRangeElement (r.get position) = .ok ((r.toList.map ofExact).getD position .null) := by
  have hmem : r.get position ∈ r.toList := r.mem_toList_iff.mpr ⟨position, hposition, rfl⟩
  rw [ofRangeElement_exact (IntRange.natAbs_le_of_isExact h hmem), List.getD_eq_getElem?_getD,
    List.getElem?_map, r.getElem?_toList hposition]
  rfl

/-- Index access is blind to unrolling. -/
theorem element_unrolled (v w : Value) :
    SameBy unrolled (v.unrolled.element w.unrolled) (v.element w) := by
  unfold element
  simp only [view_unrolled, mismatch_unrolled, demandWhole_unrolled]
  cases v.view with
  | array a =>
    cases a with
    | items vs =>
      show SameBy unrolled (do
        let requested ← w.demandWhole indexContext
        let position ← locate requested (vs.map unrolled).length
        return (vs.map unrolled).getD position (unrolled .null)) _
      rw [List.length_map]
      refine .bind_same fun requested _ => .bind_same fun position _ => .ok ?_
      rw [List.getD_map, unrolled_unrolled]
    | range r =>
      by_cases h : r.isExact = true
      · have hunrolled : View.unrolled (.array (.range r)) =
            .array (.items (r.toList.map ofExact)) :=
          congrArg View.array (if_pos h)
        rw [hunrolled]
        dsimp only
        rw [Sequence.length_exact h, List.length_map, r.length_toList]
        refine .bind_same fun requested _ => .bind_same fun position hposition => .of_eq ?_
        rw [getD_numbers h (locate_lt hposition)]
        rfl
      · have hunrolled : View.unrolled (.array (.range r)) = .array (.range r) :=
          congrArg View.array (if_neg h)
        rw [hunrolled]
        exact .of_eq rfl
  | _ => exact .of_eq rfl

/-- The items of a comprehension are those of the unrolled value, up to unrolling. -/
theorem items_unrolled (v : Value) : SameBy (List.map unrolled) v.unrolled.items v.items := by
  unfold items
  simp only [view_unrolled, mismatch_unrolled]
  cases v.view with
  | array a => exact a.sameBy_toList.orFault
  | _ => exact .of_eq rfl

/-! ## Normal values -/

/-- Unrolled values are normalized as the values are, up to unrolling, if each of them is. -/
theorem normalizeAll_unrolled {vs : List Value}
    (h : ∀ v ∈ vs, SameBy unrolled v.unrolled.normalize v.normalize) :
    SameBy (List.map unrolled) (normalizeAll (vs.map unrolled)) (normalizeAll vs) := by
  induction vs with
  | nil => exact .of_eq rfl
  | cons v vs ih =>
    rw [List.map_cons, normalizeAll, normalizeAll]
    refine (h v List.mem_cons_self).bind fun w w' hw => ?_
    refine (ih fun v hv => h v (List.mem_cons_of_mem _ hv)).bind fun ws ws' hws => .ok ?_
    rw [List.map_cons, List.map_cons, hw, hws]

/-- What a host hands over becomes the same value, up to unrolling. -/
theorem normalize_unrolled (v : Value) : SameBy unrolled v.unrolled.normalize v.normalize := by
  induction v using byItems with
  | list vs ih =>
    rw [unrolled_list, normalize, normalize]
    exact (normalizeAll_unrolled ih).map fun ws ws' hws => by rw [unrolled_list, unrolled_list, hws]
  | tuple vs ih =>
    rw [unrolled_tuple, normalize, normalize]
    exact (normalizeAll_unrolled ih).map fun ws ws' hws => by rw [unrolled_list, unrolled_list, hws]
  | range r =>
    rw [unrolled_range]
    by_cases h : r.isExact = true
    · have hnumbers : normalizeAll (r.toList.map ofExact) = .ok (r.toList.map ofExact) := by
        apply normalizeAll_eq
        intro v hv
        obtain ⟨n, -, rfl⟩ := List.mem_map.mp hv
        rfl
      have hrange : unrolled (.range r) = .list (r.toList.map ofExact) := by
        rw [unrolled_range, if_pos h]
      rw [if_pos h, normalize, normalize, hnumbers]
      refine .ok ?_
      rw [← hrange, unrolled_unrolled]
    · rw [if_neg h]
      exact .of_eq rfl
  | _ => exact .of_eq rfl

end Value

end Formulary
