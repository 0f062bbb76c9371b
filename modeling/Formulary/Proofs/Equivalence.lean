import Formulary.Proofs.Comparing
import Formulary.Proofs.Normalizing

/-!
# Equality as a partial equivalence

Equality sees of a number where it lies and of an array the row of its elements, whether they are
kept in a list, a tuple or a range (`Value.form?`).  A NaN and what the language does not know have
no form.  Two values are equal exactly if they have one form in common (`Value.equal_decides`), so
that equality is symmetric and transitive, and reflexive where there is a form.  Equal arrays of the
language have as many elements, and equal ones at every index (`Value.equal_isPartialEquivalence`).
-/

set_option autoImplicit false

namespace Formulary

open Value

/-! ## Forms -/

/-- What equality sees of a value. -/
inductive Form where
  | boolean (b : Bool)
  | number (p : Number.Place)
  | string (s : String)
  | timestamp (millis : Int)
  | array (items : List Form)

/-- The form of an integer. -/
def Form.ofInt (n : Int) : Form :=
  .number (Number.placeOfInt n)

/-- Different integers have different forms. -/
theorem Form.ofInt_inj {m n : Int} : Form.ofInt m = .ofInt n ↔ m = n := by
  rw [ofInt, ofInt, Form.number.injEq, Number.placeOfInt_inj]

namespace Value

mutual

/-- The form of a value, if it has one. -/
def form? : Value → Option Form
  | .boolean b => some (.boolean b)
  | .number x => (Number.place x).map .number
  | .integer n => some (.ofInt n)
  | .string s => some (.string s)
  | .timestamp t => some (.timestamp t.millis)
  | .range r => some (.array (r.toList.map .ofInt))
  | .list items => (forms? items).map .array
  | .tuple items => (forms? items).map .array
  | _ => none

/-- The forms of several values, if all have one. -/
def forms? : List Value → Option (List Form)
  | [] => some []
  | v :: vs => (form? v).bind fun f => (forms? vs).map (f :: ·)

end

/-- Two values have one form. -/
def SameForm (v w : Value) : Prop :=
  ∃ f, v.form? = some f ∧ w.form? = some f

/-- If two values have one form, so have they the other way round. -/
theorem SameForm.symm {v w : Value} (h : v.SameForm w) : w.SameForm v := by
  obtain ⟨f, hv, hw⟩ := h
  exact ⟨f, hw, hv⟩

/-- If two values have one form and the second has one with a third, so has the first with the
third. -/
theorem SameForm.trans {u v w : Value} (huv : u.SameForm v) (hvw : v.SameForm w) :
    u.SameForm w := by
  obtain ⟨f, hu, hv⟩ := huv
  obtain ⟨g, hv', hw⟩ := hvw
  obtain rfl : f = g := Option.some.inj (hv.symm.trans hv')
  exact ⟨f, hu, hw⟩

/-- The forms of a list are the form of its first value and those of the others. -/
theorem forms?_cons_eq_some_iff {v : Value} {vs : List Value} {fs : List Form} :
    forms? (v :: vs) = some fs ↔ ∃ f gs, v.form? = some f ∧ forms? vs = some gs ∧ f :: gs = fs := by
  rw [forms?, Option.bind_eq_some_iff]
  simp only [Option.map_eq_some_iff, exists_and_left]

/-- There are as many forms as values. -/
theorem length_of_forms? {vs : List Value} {fs : List Form} (h : forms? vs = some fs) :
    fs.length = vs.length := by
  induction vs generalizing fs with
  | nil =>
    obtain rfl := Option.some.inj h
    rfl
  | cons v vs ih =>
    obtain ⟨f, gs, -, hgs, rfl⟩ := forms?_cons_eq_some_iff.mp h
    exact congrArg (· + 1) (ih hgs)

/-- A value within the length of a list is one of the list. -/
theorem getD_mem {vs : List Value} {k : Nat} (hk : k < vs.length) : vs.getD k .null ∈ vs := by
  rw [List.getD_eq_getElem?_getD, List.getElem?_eq_getElem hk]
  exact List.getElem_mem hk

/-- The item at a position has the form at that position. -/
theorem form?_getD {vs : List Value} {fs : List Form} (h : forms? vs = some fs) {k : Nat}
    (hk : k < vs.length) :
    ∃ f, fs[k]? = some f ∧ (vs.getD k .null).form? = some f := by
  induction vs generalizing fs k with
  | nil => cases hk
  | cons v vs ih =>
    obtain ⟨f, gs, hf, hgs, rfl⟩ := forms?_cons_eq_some_iff.mp h
    cases k with
    | zero => exact ⟨f, rfl, hf⟩
    | succ k => exact ih hgs (Nat.lt_of_succ_lt_succ hk)

end Value

/-- The forms of the elements of an array. -/
def Sequence.forms? : Sequence → Option (List Form)
  | .items vs => Value.forms? vs
  | .range r => some (r.toList.map .ofInt)

/-- There are as many forms as elements in an array. -/
theorem Sequence.length_of_forms? {s : Sequence} {fs : List Form} (h : s.forms? = some fs) :
    fs.length = s.size := by
  cases s with
  | items vs => exact Value.length_of_forms? h
  | range r =>
    obtain rfl := Option.some.inj h
    rw [List.length_map, r.length_toList]
    rfl

/-- The form of a value, by what the language can do with it. -/
def Value.View.form? : View → Option Form
  | .boolean b => some (.boolean b)
  | .number a => a.place.map .number
  | .string s => some (.string s)
  | .timestamp t => some (.timestamp t.millis)
  | .array s => s.forms?.map .array
  | .other => none

/-- The form of a value depends on nothing but what the language can do with it. -/
theorem Value.form?_eq (v : Value) : v.form? = v.view.form? := by
  cases v <;> rfl

/-! ## Equality decides on one form -/

/-- A comparison comes to an answer, which says whether something is so. -/
def Decides (result : Except Fault Bool) (P : Prop) : Prop :=
  ∃ b, result = .ok b ∧ (b = true ↔ P)

/-- A comparison that decides on something finds it true if and only if it is so. -/
theorem Decides.ok_true_iff {result : Except Fault Bool} {P : Prop} (h : Decides result P) :
    result = .ok true ↔ P := by
  obtain ⟨b, rfl, hb⟩ := h
  rw [Except.ok.injEq, hb]

/-- A comparison that decides on something decides on whatever is equivalent to it. -/
theorem Decides.congr {result : Except Fault Bool} {P Q : Prop} (h : Decides result P)
    (hPQ : P ↔ Q) :
    Decides result Q := by
  obtain ⟨b, hresult, hb⟩ := h
  exact ⟨b, hresult, hb.trans hPQ⟩

/-- Two numbers are equal if and only if they lie at one place. -/
theorem Numeric.equal_iff (a b : Numeric) :
    a.equal b = true ↔ ∃ p, a.place = some p ∧ b.place = some p := by
  unfold equal
  cases a.place with
  | none => simp
  | some p =>
    cases b.place with
    | none => simp
    | some q => simpa using eq_comm

namespace Value

/-- A value equals an integer if and only if it has the form of the integer. -/
theorem equalsInteger_iff_form? (n : Int) (v : Value) :
    equalsInteger n v = true ↔ v.form? = some (.ofInt n) := by
  rw [form?_eq, equalsInteger, numeric?]
  cases v.view with
  | number a =>
    refine (Numeric.equal_integer_iff a n).trans ?_
    simp [View.form?, Form.ofInt]
  | _ => simp [View.form?, Form.ofInt]

/-- A list holds given integers exactly if it has their forms. -/
theorem all_equalsInteger_iff {ns : List Int} {vs : List Value} :
    ns.length = vs.length ∧ (ns.zip vs).all (fun p => equalsInteger p.1 p.2) = true ↔
      forms? vs = some (ns.map .ofInt) := by
  induction ns generalizing vs with
  | nil =>
    cases vs with
    | nil => simp [forms?]
    | cons v vs => simp [forms?_cons_eq_some_iff]
  | cons n ns ih =>
    cases vs with
    | nil => simp [forms?]
    | cons v vs =>
      rw [List.length_cons, List.length_cons, Nat.add_right_cancel_iff, List.zip_cons_cons,
        List.all_cons,
        Bool.and_eq_true, and_left_comm, ih, equalsInteger_iff_form?, forms?_cons_eq_some_iff,
          List.map_cons]
      constructor
      · rintro ⟨hv, hvs⟩
        exact ⟨_, _, hv, hvs, rfl⟩
      · rintro ⟨_, _, hv, hvs, heq⟩
        obtain ⟨rfl, rfl⟩ := List.cons.inj heq
        exact ⟨hv, hvs⟩

/-- If the comparison of elements decides on one form, that of lists of the same length does so
too. -/
theorem equalAll_decides {vs ws : List Value} (hlength : vs.length = ws.length)
    (h : ∀ v ∈ vs, ∀ w ∈ ws, Decides (v.equal w) (v.SameForm w)) :
    Decides (equalAll vs ws) (∃ fs, forms? vs = some fs ∧ forms? ws = some fs) := by
  induction vs generalizing ws with
  | nil =>
    obtain rfl := List.eq_nil_of_length_eq_zero hlength.symm
    exact ⟨true, rfl, by simp [forms?]⟩
  | cons v vs ih =>
    cases ws with
    | nil => cases hlength
    | cons w ws =>
      obtain ⟨first, hfirst, hsame⟩ := h v List.mem_cons_self w List.mem_cons_self
      have hrest := ih (Nat.succ.inj hlength) fun v hv w hw =>
        h v (List.mem_cons_of_mem _ hv) w (List.mem_cons_of_mem _ hw)
      have hcons : (∃ fs, forms? (v :: vs) = some fs ∧ forms? (w :: ws) = some fs) ↔
          v.SameForm w ∧ ∃ fs, forms? vs = some fs ∧ forms? ws = some fs := by
        simp only [forms?_cons_eq_some_iff]
        constructor
        · rintro ⟨_, ⟨f, fs, hf, hfs, rfl⟩, _, _, hg, hgs, heq⟩
          obtain ⟨rfl, rfl⟩ := List.cons.inj heq
          exact ⟨⟨_, hf, hg⟩, _, hfs, hgs⟩
        · rintro ⟨⟨f, hf, hg⟩, fs, hfs, hgs⟩
          exact ⟨_, ⟨f, fs, hf, hfs, rfl⟩, f, fs, hg, hgs, rfl⟩
      rw [equalAll, hfirst]
      show Decides (if first then equalAll vs ws else .ok false) _
      cases first with
      | true => exact hrest.congr (by simp [hcons, hsame.mp rfl])
      | false => exact ⟨false, rfl, by simp [hcons, ← hsame]⟩

end Value

namespace Sequence

/-- The comparison of a range with a list decides on whether the list has the forms of the integers
of the range. -/
theorem equalRangeList_decides {r : IntRange} (hr : r.length ≤ longest) (vs : List Value) :
    Decides (equalRangeList r vs) (Value.forms? vs = some (r.toList.map .ofInt)) := by
  have hlength : (range r).length = .ok r.length := length_of_size_le hr
  refine ⟨r.length == vs.length && (r.toList.zip vs).all fun p => equalsInteger p.1 p.2, ?_, ?_⟩
  · unfold equalRangeList
    rw [hlength]
    rfl
  · rw [Bool.and_eq_true, beq_iff_eq, ← r.length_toList, all_equalsInteger_iff]

/-- The comparison of two ranges decides on whether their integers have the same forms. -/
theorem equalRanges_decides {r q : IntRange} (hr : r.length ≤ longest) (hq : q.length ≤ longest) :
    Decides (equalRanges r q) (r.toList.map Form.ofInt = q.toList.map .ofInt) := by
  have hr' : (range r).length = .ok r.length := length_of_size_le hr
  have hq' : (range q).length = .ok q.length := length_of_size_le hq
  refine ⟨r.sameElements q, ?_, ?_⟩
  · unfold equalRanges
    rw [hr', hq']
    rfl
  · rw [r.sameElements_iff q]
    exact (List.map_inj_right fun _ _ => Form.ofInt_inj.mp).symm

/-- Equality of arrays decides on one row of forms, if the ranges among them can be counted and
equality of items decides on one form. -/
theorem equal_decides {s t : Sequence} (hs : ∀ r, s = .range r → r.length ≤ longest)
    (ht : ∀ r, t = .range r → r.length ≤ longest)
    (h : ∀ vs ws, s = .items vs → t = .items ws → ∀ v ∈ vs, ∀ w ∈ ws, Decides (v.equal w)
      (v.SameForm w)) :
    Decides (s.equal t) (∃ fs, s.forms? = some fs ∧ t.forms? = some fs) := by
  cases s with
  | range r =>
    cases t with
    | range q =>
      refine (equalRanges_decides (hs r rfl) (ht q rfl)).congr ?_
      simp [Sequence.forms?, eq_comm]
    | items ws =>
      refine (equalRangeList_decides (hs r rfl) ws).congr ?_
      simp [Sequence.forms?]
  | items vs =>
    cases t with
    | range q =>
      refine (equalRangeList_decides (ht q rfl) vs).congr ?_
      simp [Sequence.forms?]
    | items ws =>
      show Decides (if vs.length = ws.length then equalAll vs ws else .ok false) _
      by_cases hlength : vs.length = ws.length
      · rw [if_pos hlength]
        exact equalAll_decides hlength (h vs ws rfl rfl)
      · rw [if_neg hlength]
        refine ⟨false, rfl, ⟨nofun, ?_⟩⟩
        rintro ⟨fs, hvs, hws⟩
        exact absurd ((Value.length_of_forms? hvs).symm.trans (Value.length_of_forms? hws)) hlength

end Sequence

namespace Value

/-- If the comparison of arrays decides on one form, that of all values does so too. -/
theorem View.equal_decides {a b : View}
    (h : ∀ s t, a = .array s → b = .array t → Decides (s.equal t)
      (∃ fs, s.forms? = some fs ∧ t.forms? = some fs)) :
    Decides (a.equal b) (∃ f, a.form? = some f ∧ b.form? = some f) := by
  cases a with
  | boolean x =>
    cases b with
    | boolean y => exact ⟨x == y, rfl, by simpa [View.form?] using eq_comm⟩
    | _ => exact ⟨false, rfl, by simp [View.form?]⟩
  | number x =>
    cases b with
    | number y => exact ⟨x.equal y, rfl, (x.equal_iff y).trans (by simp [View.form?])⟩
    | _ => exact ⟨false, rfl, by simp [View.form?]⟩
  | string x =>
    cases b with
    | string y => exact ⟨x == y, rfl, by simpa [View.form?] using eq_comm⟩
    | _ => exact ⟨false, rfl, by simp [View.form?]⟩
  | timestamp x =>
    cases b with
    | timestamp y => exact ⟨x.millis == y.millis, rfl, by simpa [View.form?] using eq_comm⟩
    | _ => exact ⟨false, rfl, by simp [View.form?]⟩
  | array s =>
    cases b with
    | array t => exact (h s t rfl rfl).congr (by simp [View.form?])
    | _ => exact ⟨false, rfl, by simp [View.form?]⟩
  | other => exact ⟨false, by cases b <;> rfl, by simp [View.form?]⟩

/-- Every range in a value can be counted. -/
def Countable (v : Value) : Prop :=
  ∀ r, .range r ∈ v.leaves → r.length ≤ Sequence.longest

/-- The leaves of a list are those of its elements. -/
theorem leaves_of_items {v : Value} {items : List Value} (h : v.view = .array (.items items)) :
    v.leaves = items.flatMap leaves := by
  rw [← leavesAll_eq]
  cases v with
  | list | tuple => cases h; rfl
  | _ => cases h

/-- A value that is a range for the language is a range. -/
theorem eq_range_of_view {v : Value} {r : IntRange} (h : v.view = .array (.range r)) :
    v = .range r := by
  cases v with
  | range => cases h; rfl
  | _ => cases h

/-- The elements of a countable list are countable. -/
theorem Countable.of_mem {v : Value} (hv : v.Countable) {items : List Value}
    (h : v.view = .array (.items items)) {item : Value} (hitem : item ∈ items) :
    item.Countable := by
  intro r hr
  apply hv r
  rw [leaves_of_items h]
  exact List.mem_flatMap.mpr ⟨item, hitem, hr⟩

/-- A countable range is not too long to be counted. -/
theorem Countable.length_le {v : Value} (hv : v.Countable) {r : IntRange}
    (h : v.view = .array (.range r)) :
    r.length ≤ Sequence.longest := by
  obtain rfl := eq_range_of_view h
  exact hv r List.mem_cons_self

/-- Equality decides on one form, if it does so for the items of lists and tuples. -/
theorem equal_decides_of_items {v w : Value} (hv : v.Countable) (hw : w.Countable)
    (h : ∀ vs ws, v.view = .array (.items vs) → w.view = .array (.items ws) →
      ∀ x ∈ vs, ∀ y ∈ ws, Decides (x.equal y) (x.SameForm y)) : Decides (v.equal w)
        (v.SameForm w) := by
  unfold SameForm
  rw [equal_eq, form?_eq, form?_eq w]
  refine View.equal_decides fun s t hs ht => Sequence.equal_decides ?_ ?_ ?_
  · rintro r rfl
    exact hv.length_le hs
  · rintro r rfl
    exact hw.length_le ht
  · rintro vs ws rfl rfl
    exact h vs ws hs ht

/-- Equality decides on one form. -/
theorem equal_decides {v w : Value} (hv : v.Countable) (hw : w.Countable) :
    Decides (v.equal w) (v.SameForm w) := by
  induction v using byItems generalizing w with
  | list items ih | tuple items ih =>
    refine equal_decides_of_items hv hw ?_
    rintro _ ws ⟨⟩ hws x hx y hy
    exact ih x hx (hv.of_mem rfl hx) (hw.of_mem hws hy)
  | _ =>
    refine equal_decides_of_items hv hw ?_
    rintro _ _ ⟨⟩

/-- Two countable values are equal if and only if they have one form. -/
theorem equal_iff_sameForm {v w : Value} (hv : v.Countable) (hw : w.Countable) :
    v.equal w = .ok true ↔ v.SameForm w :=
  (equal_decides hv hw).ok_true_iff

end Value

/-! ## Values that equal themselves -/

/-- A double lies somewhere unless it is a NaN. -/
theorem Number.place_isSome (x : Float) : (place x).isSome = !isNaN x := by
  unfold place isNaN
  cases parts x with
  | infinite negative => cases negative <;> rfl
  | _ => rfl

namespace Value

/-- A leaf is no NaN, and nothing that equality does not know. -/
def isDefinite : Value → Bool
  | .number x => !Number.isNaN x
  | .moment _ | .null | .object _ => false
  | _ => true

/-- A list has forms if and only if each of its values has one. -/
theorem forms?_isSome {vs : List Value} : (forms? vs).isSome = vs.all fun v => v.form?.isSome := by
  induction vs with
  | nil => rfl
  | cons v vs ih =>
    rw [forms?, List.all_cons, ← ih]
    cases v.form? with
    | none => rfl
    | some f => simp

/-- The values that have a form are those whose leaves are all definite. -/
theorem form?_isSome (v : Value) : v.form?.isSome = v.leaves.all isDefinite := by
  induction v using byItems with
  | number x => simp [form?, leaves, isDefinite, Number.place_isSome]
  | list items ih | tuple items ih =>
    rw [form?, leaves, Option.isSome_map, forms?_isSome, leavesAll_eq, List.all_flatMap,
      Bool.eq_iff_iff, List.all_eq_true, List.all_eq_true]
    refine forall₂_congr fun item hitem => ?_
    rw [ih item hitem]
  | _ => rfl

/-! ## Elements at an index -/

/-- A whole number that a double can hold is seen to be one. -/
theorem whole?_of_equalsInteger {v : Value} {n : Int} (hv : equalsInteger n v = true)
    (hn : n.natAbs < Number.overflow) : ∃ a, v.numeric? = some a ∧ a.whole? = .ok (some n) := by
  unfold equalsInteger at hv
  cases hnumeric : v.numeric? with
  | none => rw [hnumeric] at hv; cases hv
  | some a =>
    rw [hnumeric] at hv
    refine ⟨a, rfl, ?_⟩
    have hplace := (Numeric.equal_integer_iff a n).mp hv
    cases a with
    | double x => exact congrArg Except.ok (Number.whole?_eq_some_iff.mpr hplace)
    | integer m =>
      obtain rfl : m = n := Number.placeOfInt_inj.mp (Option.some.inj hplace)
      obtain ⟨x, hx⟩ := Number.ofInt?_of_lt_overflow hn
      simp only [Numeric.whole?, Numeric.toFloat, hx]
      rfl

/-- A whole number that a double can hold is accepted as an index. -/
theorem demandWhole_of_equalsInteger {i : Value} {n : Int} (hi : equalsInteger n i = true)
    (hn : n.natAbs < Number.overflow) (context : String) : i.demandWhole context = .ok n := by
  obtain ⟨a, hnumeric, hwhole⟩ := whole?_of_equalsInteger hi hn
  unfold demandWhole
  rw [hnumeric]
  simp only [hwhole]
  rfl

/-- An index from the front or from the back that is in reach stands for a position. -/
theorem exists_locate {n : Int} {length : Nat} (hlow : -(length : Int) ≤ n) (hhigh : n < length) :
    ∃ k < length, locate n length = .ok k := by
  unfold locate
  by_cases hnegative : n < 0
  · refine ⟨(n + length).toNat, by omega, ?_⟩
    simp only [if_pos hnegative]
    rw [if_neg (by omega)]
  · refine ⟨n.toNat, by omega, ?_⟩
    simp only [if_neg hnegative]
    rw [if_neg (by omega)]

end Value

/-- The element of an array at a position. -/
def Sequence.get : Sequence → Nat → Except Fault Value
  | .items vs, k => .ok (vs.getD k .null)
  | .range r, k => ofRangeElement (r.get k)

/-- The element at an index is the one at the position that the index stands for. -/
theorem Value.element_eq_get {v i : Value} {s : Sequence} (hv : v.view = .array s)
    (hsize : s.size ≤ Sequence.longest) {n : Int} (hi : i.demandWhole indexContext = .ok n)
    {k : Nat} (hk : locate n s.size = .ok k) :
    v.element i = orFault (s.get k) := by
  unfold element
  rw [hv]
  cases s with
  | items vs =>
    show (do
      let requested ← i.demandWhole indexContext
      let position ← locate requested (Sequence.items vs).size
      return vs.getD position .null) = _
    rw [hi]
    show (do
      let position ← locate n (Sequence.items vs).size
      return vs.getD position .null) = _
    rw [hk]
    rfl
  | range r =>
    show (do
      let requested ← i.demandWhole indexContext
      let length ← orFault (Sequence.range r).length
      let position ← locate requested length
      orFault (ofRangeElement (r.get position))) = _
    rw [hi, Sequence.length_of_size_le hsize]
    show (do
      let position ← locate n (Sequence.range r).size
      orFault (ofRangeElement (r.get position))) = _
    rw [hk]
    rfl

/-- The double of an integer is no NaN. -/
theorem Number.place_isSome_of_ofInt? {n : Int} {x : Float} (h : ofInt? n = some x) :
    (place x).isSome = true := by
  unfold ofInt? at h
  dsimp only at h
  by_cases hfinite : isFinite (Float.ofScientific n.natAbs false 0) = true
  · rw [if_pos hfinite] at h
    obtain rfl := Option.some.inj h
    unfold isFinite at hfinite
    cases hparts : parts (Float.ofScientific n.natAbs false 0) with
    | nan | infinite => rw [hparts] at hfinite; cases hfinite
    | finite negative m q =>
      have hnumber : parts (Float.ofScientific n.natAbs false 0) ≠ .nan := by
        rw [hparts]
        intro h
        cases h
      by_cases hnegative : n < 0
      · rw [if_pos hnegative, place, parts_neg _ hnumber, hparts]
        rfl
      · rw [if_neg hnegative, place, hparts]
        rfl
  · rw [if_neg hfinite] at h
    cases h

/-- A value of the language with the form of a number is a double. -/
theorem Value.Normal.exists_number {v : Value} (hv : v.Normal) {p : Number.Place}
    (h : v.form? = some (.number p)) :
    ∃ x, v = .number x ∧ Number.place x = some p := by
  cases hv with
  | number x =>
    obtain ⟨q, hq, heq⟩ := Option.map_eq_some_iff.mp h
    obtain rfl := Form.number.inj heq
    exact ⟨x, rfl, hq⟩
  | list =>
    obtain ⟨fs, -, heq⟩ := Option.map_eq_some_iff.mp h
    cases heq
  | _ => cases h

namespace Sequence

/-- A range and a list of normal values with the same forms have elements of one form at every
position. -/
theorem get_range_of_items {r : IntRange} {vs : List Value}
    (hvs : Value.forms? vs = some (r.toList.map .ofInt)) (hnormal : ∀ v ∈ vs, v.Normal) {k : Nat}
    (hk : k < r.length) :
    ∃ x, (range r).get k = .ok x ∧ x.SameForm (vs.getD k .null) := by
  have hlength : r.length = vs.length := by
    rw [← Value.length_of_forms? hvs, List.length_map, r.length_toList]
  obtain ⟨f, hf, hform⟩ := form?_getD hvs (hlength ▸ hk)
  rw [List.getElem?_map, r.getElem?_toList hk] at hf
  obtain rfl := Option.some.inj hf
  -- The item lies where the element of the range lies, so that there is a double at that place.
  obtain ⟨x, -, hx⟩ := (hnormal _ (getD_mem (hlength ▸ hk))).exists_number hform
  obtain ⟨y, hy, hplace⟩ := Number.exists_ofInt?_of_place hx
  refine ⟨.number y, ?_, .ofInt (r.get k), ?_, hform⟩
  · rw [get, ofRangeElement, hy]
  · rw [form?, hplace]
    rfl

/-- Arrays of the language with the same forms have elements of one form at every position, if the
elements of a range are within the doubles. -/
theorem get_of_forms? {s t : Sequence} {fs : List Form} (hs : s.forms? = some fs)
    (ht : t.forms? = some fs) (hs' : ∀ vs, s = .items vs → ∀ v ∈ vs, v.Normal)
    (ht' : ∀ vs, t = .items vs → ∀ v ∈ vs, v.Normal) (hdoubles : ∀ r, s = .range r → ∀ n ∈ r.toList,
      n.natAbs < Number.overflow) {k : Nat} (hk : k < s.size) :
    ∃ x y, s.get k = .ok x ∧ t.get k = .ok y ∧ x.SameForm y := by
  have hsize : s.size = t.size := (length_of_forms? hs).symm.trans (length_of_forms? ht)
  cases s with
  | items vs =>
    cases t with
    | items ws =>
      obtain ⟨f, hf, hv⟩ := form?_getD hs hk
      obtain ⟨g, hg, hw⟩ := form?_getD ht (hsize ▸ hk)
      obtain rfl : f = g := Option.some.inj (hf.symm.trans hg)
      exact ⟨_, _, rfl, rfl, f, hv, hw⟩
    | range q =>
      obtain rfl := Option.some.inj ht
      obtain ⟨y, hy, hsame⟩ := get_range_of_items hs (hs' vs rfl) (hsize ▸ hk)
      exact ⟨_, y, rfl, hy, hsame.symm⟩
  | range r =>
    obtain rfl := Option.some.inj hs
    cases t with
    | items ws =>
      obtain ⟨x, hx, hsame⟩ := get_range_of_items ht (ht' ws rfl) hk
      exact ⟨x, _, hx, rfl, hsame⟩
    | range q =>
      -- Different integers have different forms, so that the two ranges list the same integers.
      have hsame : q.toList = r.toList :=
        (List.map_inj_right fun _ _ => Form.ofInt_inj.mp).mp (Option.some.inj ht)
      have hget : r.get k = q.get k := by
        apply Option.some.inj
        rw [← r.getElem?_toList hk, ← q.getElem?_toList (Nat.lt_of_lt_of_eq hk hsize), hsame]
      obtain ⟨x, hx⟩ :=
        Number.ofInt?_of_lt_overflow (hdoubles r rfl _ (r.mem_toList_iff.mpr ⟨k, hk, rfl⟩))
      obtain ⟨p, hp⟩ := Option.isSome_iff_exists.mp (Number.place_isSome_of_ofInt? hx)
      have hform : (Value.number x).form? = some (.number p) := by
        rw [form?, hp]
        rfl
      refine ⟨.number x, .number x, ?_, ?_, _, hform, hform⟩
      · rw [get, ofRangeElement, hx]
      · rw [get, ofRangeElement, ← hget, hx]

end Sequence

/-- An array that can be counted is shorter than the numbers that overflow. -/
theorem Sequence.longest_lt_overflow : longest < Number.overflow :=
  calc longest
    _ < Number.twoTo 63 := Nat.sub_lt (Number.twoTo_pos 63) Nat.one_pos
    _ ≤ Number.twoTo 970 := Number.twoTo_le (by decide)
    _ ≤ Number.overflow := Nat.le_mul_of_pos_left _ (by decide)

namespace Value

/-- A value with elements is an array for the language. -/
theorem view_of_sequence? {v : Value} {s : Sequence} (h : v.sequence? = some s) :
    v.view = .array s := by
  unfold sequence? at h
  cases hview : v.view with
  | array t =>
    rw [hview] at h
    exact congrArg View.array (Option.some.inj h)
  | _ => rw [hview] at h; cases h

/-- The elements of a normal list are normal. -/
theorem Normal.of_mem {v : Value} (hv : v.Normal) {vs : List Value}
    (h : v.view = .array (.items vs)) :
    ∀ item ∈ vs, item.Normal := by
  cases hv with
  | list hitems => cases h; exact hitems
  | _ => cases h

/-- The elements of a countable array are countable. -/
theorem Countable.get {v : Value} (hv : v.Countable) {s : Sequence}
    (h : v.view = .array s) {k : Nat} (hk : k < s.size) {x : Value} (hx : s.get k = .ok x) :
    x.Countable := by
  cases s with
  | items vs =>
    obtain rfl := Except.ok.inj hx
    exact hv.of_mem h (getD_mem hk)
  | range r =>
    rw [Sequence.get, ofRangeElement] at hx
    cases hdouble : Number.ofInt? (r.get k) with
    | none => rw [hdouble] at hx; cases hx
    | some y =>
      rw [hdouble] at hx
      obtain rfl := Except.ok.inj hx
      intro q hq
      cases List.mem_singleton.mp hq

/-- Equal arrays of the language have as many elements, and equal ones at every index. -/
theorem element_of_equal {u v : Value} (hu : u.Countable) (hv : v.Countable) {s t : Sequence}
    (hs : u.view = .array s) (ht : v.view = .array t) (hu' : u.Normal) (hv' : v.Normal)
    (hsize : s.size ≤ Sequence.longest)
    (hdoubles : ∀ r, s = .range r → ∀ n ∈ r.toList, n.natAbs < Number.overflow)
    (h : u.equal v = .ok true) :
    s.size = t.size ∧ ∀ i n, equalsInteger n i = true → -(s.size : Int) ≤ n → n < s.size →
      ∃ x y, u.element i = .ok x ∧ v.element i = .ok y ∧ x.equal y = .ok true := by
  obtain ⟨f, hf, hg⟩ := (equal_iff_sameForm hu hv).mp h
  rw [form?_eq, hs] at hf
  rw [form?_eq, ht] at hg
  obtain ⟨fs, hfs, rfl⟩ := Option.map_eq_some_iff.mp hf
  obtain ⟨gs, hgs, heq⟩ := Option.map_eq_some_iff.mp hg
  obtain rfl := Form.array.inj heq
  have hsizes : s.size = t.size :=
    (Sequence.length_of_forms? hfs).symm.trans (Sequence.length_of_forms? hgs)
  refine ⟨hsizes, fun i n hi hlow hhigh => ?_⟩
  have hwhole : i.demandWhole indexContext = .ok n := by
    have hlongest := Sequence.longest_lt_overflow
    exact demandWhole_of_equalsInteger hi (by omega) indexContext
  obtain ⟨k, hk, hlocate⟩ := exists_locate hlow hhigh
  obtain ⟨x, y, hx, hy, hsame⟩ :=
    Sequence.get_of_forms? hfs hgs (fun vs hvs => hu'.of_mem (hvs ▸ hs))
    (fun vs hvs => hv'.of_mem (hvs ▸ ht)) hdoubles hk
  refine ⟨x, y, ?_, ?_, ?_⟩
  · rw [element_eq_get hs hsize hwhole hlocate, hx]
    rfl
  · rw [element_eq_get ht (hsizes ▸ hsize) hwhole (hsizes ▸ hlocate), hy]
    rfl
  · exact (equal_iff_sameForm (hu.get hs hk hx) (hv.get ht (hsizes ▸ hk) hy)).mpr hsame

/-- Equality comes to the same answer in both directions and is transitive; the values that are
equal to themselves are those whose leaves are all definite; and equal arrays of the language have
as many elements, and equal ones at every index. -/
theorem equal_isPartialEquivalence {u v w : Value} (hu : u.Countable) (hv : v.Countable)
    (hw : w.Countable) :
    (∃ b, u.equal v = .ok b ∧ v.equal u = .ok b) ∧
    (u.equal v = .ok true → v.equal w = .ok true → u.equal w = .ok true) ∧
    (u.equal u = .ok true ↔ ∀ leaf ∈ u.leaves, leaf.isDefinite = true) ∧
    (∀ s t, u.sequence? = some s → v.sequence? = some t → u.Normal → v.Normal →
      s.size ≤ Sequence.longest →
      (∀ r, s = .range r → ∀ n ∈ r.toList, n.natAbs < Number.overflow) → u.equal v = .ok true →
      s.size = t.size ∧ ∀ i n, equalsInteger n i = true → -(s.size : Int) ≤ n → n < s.size →
        ∃ x y, u.element i = .ok x ∧ v.element i = .ok y ∧ x.equal y = .ok true) := by
  refine ⟨?_, ?_, ?_, ?_⟩
  · obtain ⟨b, hb, hsame⟩ := equal_decides hu hv
    obtain ⟨c, hc, hsame'⟩ := equal_decides hv hu
    have hbc : b = c := by
      rw [Bool.eq_iff_iff, hsame, hsame']
      exact ⟨SameForm.symm, SameForm.symm⟩
    exact ⟨b, hb, hbc ▸ hc⟩
  · rw [equal_iff_sameForm hu hv, equal_iff_sameForm hv hw, equal_iff_sameForm hu hw]
    exact SameForm.trans
  · have hself : u.SameForm u ↔ u.form?.isSome = true := by
      rw [Option.isSome_iff_exists, SameForm]
      simp only [and_self]
    rw [equal_iff_sameForm hu hu, hself, form?_isSome, List.all_eq_true]
  · intro s t hs ht hu' hv' hsize hdoubles h
    exact element_of_equal hu hv (view_of_sequence? hs)
      (view_of_sequence? ht) hu' hv' hsize hdoubles h

/-- The range of 0 and 1, a list with a negative zero and a tuple with an integer are equal, and
have equal last elements. -/
theorem equal_isPartialEquivalence_of_zeros :
    let u : Value := .range (.upTo 0 2)
    let v : Value := .list [.number (-0.0), .number 1.0]
    let w : Value := .tuple [.integer 0, .number 1.0]
    (u.Countable ∧ v.Countable ∧ w.Countable) ∧ u.Normal ∧ v.Normal ∧
      v.equal u = .ok true ∧ u.equal w = .ok true ∧ u.equal u = .ok true ∧
      ∃ x y, u.element (.integer (-1)) = .ok x ∧ v.element (.integer (-1)) = .ok y ∧
        x.equal y = .ok true := by
  intro u v w
  have hu : u.Countable := by
    intro r hr
    obtain rfl := Value.range.inj (List.mem_singleton.mp hr)
    decide
  have hv : v.Countable := by
    intro r hr
    simp [v, leaves, leavesAll] at hr
  have hw : w.Countable := by
    intro r hr
    simp [w, leaves, leavesAll] at hr
  have hu' : u.Normal := .range _
  have hv' : v.Normal := .list (by simp [Normal.number])
  have hanswer : ∀ result : Except Fault Bool, result.toOption = some true → result = .ok true := by
    rintro (_ | _) ⟨⟩
    rfl
  have huv : u.equal v = .ok true := hanswer _ (by decide +kernel)
  have hvw : v.equal w = .ok true := hanswer _ (by decide +kernel)
  have hdoubles : ∀ r, Sequence.range (.upTo 0 2) = .range r →
      ∀ n ∈ r.toList, n.natAbs < Number.overflow := by
    rintro _ ⟨⟩ n hn
    have hexact : n.natAbs ≤ Sequence.longest :=
      Nat.le_trans (IntRange.natAbs_le_of_isExact (by decide) hn) (by decide)
    exact Nat.lt_of_le_of_lt hexact Sequence.longest_lt_overflow
  have hlast : equalsInteger (-1) (.integer (-1)) = true := by decide +kernel
  obtain ⟨⟨b, hb, hb'⟩, htrans, hself, hindex⟩ := equal_isPartialEquivalence hu hv hw
  obtain rfl : true = b := Except.ok.inj (huv.symm.trans hb)
  obtain ⟨-, hat⟩ := hindex _ _ rfl rfl hu' hv' (by decide) hdoubles huv
  exact ⟨⟨hu, hv, hw⟩, hu', hv', hb', htrans huv hvw, hself.mpr (by decide),
    hat _ _ hlast (by decide) (by decide)⟩

end Value

end Formulary
