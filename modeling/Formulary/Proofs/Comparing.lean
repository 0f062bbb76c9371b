import Formulary.Proofs.Native
import Formulary.Proofs.Progression

/-!
# Comparing values

Equality looks at values through their views (`Value.equal_eq`), so that lists and tuples are the
same to it.  An exact range is compared with anything as the list of its elements is: with a list
(`Sequence.numbers_equal`, `Sequence.equal_numbers`) and with another range, exact or not
(`Sequence.numbers_equal_range`, `Sequence.range_equal_numbers`).
-/

set_option autoImplicit false

namespace Formulary

open Value

/-! ## Equality by views -/

/-- Whether two arrays are equal. -/
def Sequence.equal : Sequence → Sequence → Except Fault Bool
  | .range r, .range s => equalRanges r s
  | .range r, .items ws => equalRangeList r ws
  | .items vs, .range s => equalRangeList s vs
  | .items vs, .items ws => if vs.length = ws.length then equalAll vs ws else .ok false

/-- Whether two values are equal, by what the language can do with them. -/
def Value.View.equal : View → View → Except Fault Bool
  | .boolean a, .boolean b => .ok (a == b)
  | .number a, .number b => .ok (a.equal b)
  | .string s, .string t => .ok (s == t)
  | .timestamp t, .timestamp u => .ok (t.millis == u.millis)
  | .array a, .array b => a.equal b
  | _, _ => .ok false

/-- Two values are compared by what the language can do with them. -/
theorem Value.equal_eq (v w : Value) : v.equal w = v.view.equal w.view := by
  cases v <;> cases w <;> rfl

namespace Numeric

/-- The order in which two numbers are compared for equality does not matter. -/
theorem equal_comm (a b : Numeric) : a.equal b = b.equal a := by
  unfold equal
  cases a.place with
  | none => cases b.place <;> rfl
  | some p =>
    cases b.place with
    | none => rfl
    | some q => exact Bool.beq_comm

/-- A numeric value is compared by where it lies. -/
theorem equal_of_place {a a' : Numeric} (h : a.place = a'.place) (b : Numeric) :
    a.equal b = a'.equal b := by
  unfold equal
  rw [h]

/-- A number is equal to an integer if and only if it lies at the place of the integer. -/
theorem equal_integer_iff (a : Numeric) (n : Int) :
    a.equal (.integer n) = true ↔ a.place = some (Number.placeOfInt n) := by
  have hinteger : (Numeric.integer n).place = some (Number.placeOfInt n) := rfl
  unfold equal
  rw [hinteger]
  cases a.place with
  | none => simp
  | some p => simp

end Numeric

/-! ## Exact integers -/

namespace Value

/-- The number of an integer that is a double. -/
def ofExact (n : Int) : Value :=
  .number ((Number.ofInt? n).getD 0.0)

/-- An integer of at most `2 ^ 53` in amount is a double, so that it can be an element of a
range. -/
theorem ofRangeElement_exact {n : Int} (h : n.natAbs ≤ Number.twoTo 53) :
    ofRangeElement n = .ok (ofExact n) := by
  obtain ⟨x, hx, -⟩ := Number.exists_ofInt?_exact h
  unfold ofRangeElement ofExact
  rw [hx]
  rfl

/-- Integers of at most `2 ^ 53` in amount can all be elements of a range. -/
theorem mapM_ofRangeElement_exact {ns : List Int} (h : ∀ n ∈ ns, n.natAbs ≤ Number.twoTo 53) :
    ns.mapM ofRangeElement = .ok (ns.map ofExact) := by
  induction ns with
  | nil => rfl
  | cons n ns ih =>
    rw [List.mapM_cons, ofRangeElement_exact (h n List.mem_cons_self), ih fun n hn =>
      h n (List.mem_cons_of_mem _ hn)]
    rfl

/-- The elements of an exact range as numbers. -/
theorem toList_exact {r : IntRange} (h : r.isExact = true) :
    (Sequence.range r).toList = .ok (r.toList.map ofExact) :=
  mapM_ofRangeElement_exact fun _ hn => IntRange.natAbs_le_of_isExact h hn

/-- Lists whose elements can be compared one by one. -/
theorem equalAll_map {α : Type} {f g : α → Value} {test : α → Bool} {as : List α}
    (h : ∀ a ∈ as, (f a).equal (g a) = .ok (test a)) :
    equalAll (as.map f) (as.map g) = .ok (as.all test) := by
  induction as with
  | nil => rfl
  | cons a as ih =>
    rw [List.map_cons, List.map_cons, equalAll, h a List.mem_cons_self, List.all_cons]
    show (if test a then equalAll (as.map f) (as.map g) else _) = _
    rw [ih fun a ha => h a (List.mem_cons_of_mem _ ha)]
    cases test a <;> rfl

section Exact

variable {n : Int} (hn : n.natAbs ≤ Number.twoTo 53)
include hn

/-- The number of an exact integer lies where the integer lies. -/
theorem exists_ofExact :
    ∃ x, ofExact n = .number x ∧ (Numeric.double x).place = (Numeric.integer n).place := by
  obtain ⟨x, hx, hplace⟩ := Number.exists_ofInt?_exact hn
  refine ⟨x, ?_, hplace⟩
  rw [ofExact, hx]
  rfl

/-- The number of an exact integer is equal to what the integer is equal to. -/
theorem ofExact_equal (v : Value) : (ofExact n).equal v = .ok (equalsInteger n v) := by
  obtain ⟨x, hx, hplace⟩ := exists_ofExact hn
  rw [hx, equal_eq, equalsInteger, numeric?]
  show View.equal (.number (.double x)) v.view = _
  cases v.view with
  | number a =>
    exact congrArg Except.ok ((Numeric.equal_of_place hplace a).trans (Numeric.equal_comm _ _))
  | _ => rfl

/-- To compare a value with the number of an exact integer is to ask whether it is that integer. -/
theorem equal_ofExact (v : Value) : v.equal (ofExact n) = .ok (equalsInteger n v) := by
  rw [← ofExact_equal hn, equal_eq, equal_eq]
  show v.view.equal (.number _) = View.equal (.number _) v.view
  cases v.view with
  | number a => exact congrArg Except.ok (Numeric.equal_comm _ _)
  | _ => rfl

/-- The number of an exact integer is equal to an integer if and only if the two integers are the
same. -/
theorem equalsInteger_ofExact (m : Int) : equalsInteger m (ofExact n) = (m == n) := by
  obtain ⟨x, hx, hplace⟩ := exists_ofExact hn
  have hinteger : (Numeric.integer n).place = some (Number.placeOfInt n) := rfl
  rw [hx]
  show (Numeric.double x).equal (.integer m) = _
  rw [Bool.eq_iff_iff, Numeric.equal_integer_iff, hplace, hinteger, Option.some.injEq,
    Number.placeOfInt_inj, beq_iff_eq]
  exact eq_comm

end Exact

end Value

/-! ## Exact ranges -/

namespace Sequence

/-- Where an array has a length, it is the number of its elements. -/
theorem size_of_length {s : Sequence} {length : Nat} (h : s.length = .ok length) :
    length = s.size := by
  unfold Sequence.length at h
  by_cases hlong : longest < s.size
  · rw [if_pos hlong] at h
    cases h
  · rw [if_neg hlong] at h
    exact (Except.ok.inj h).symm

/-- The numbers of a range and a list of as many values, seen as one list of pairs. -/
theorem map_zip_numbers {r : IntRange} {vs : List Value} (hlength : r.length = vs.length) :
    (r.toList.zip vs).map (fun p => ofExact p.1) = r.toList.map ofExact ∧
    (r.toList.zip vs).map (·.2) = vs := by
  have hzip : r.toList.length = vs.length := r.length_toList.trans hlength
  refine ⟨?_, List.map_snd_zip (Nat.le_of_eq hzip.symm)⟩
  calc (r.toList.zip vs).map (fun p => ofExact p.1)
    _ = ((r.toList.zip vs).map Prod.fst).map ofExact := by
      rw [List.map_map]
      rfl
    _ = r.toList.map ofExact := by rw [List.map_fst_zip (Nat.le_of_eq hzip)]

/-- Lists of one length are the same if their elements are, one by one. -/
theorem all_zip_iff {ms ns : List Int} (hlength : ms.length = ns.length) :
    ((ms.zip ns).all fun p => p.1 == p.2) = true ↔ ms = ns := by
  induction ms generalizing ns with
  | nil =>
    obtain rfl := List.eq_nil_of_length_eq_zero hlength.symm
    simp
  | cons m ms ih =>
    cases ns with
    | nil => cases hlength
    | cons n ns => simp [ih (Nat.succ.inj hlength)]

section Exact

variable {r : IntRange} (h : r.isExact = true)
include h

/-- A range of exact integers has a length. -/
theorem length_exact : (range r).length = .ok r.length :=
  if_neg (Nat.not_lt.mpr (IntRange.length_le_of_isExact h))

/-- A range of exact integers is equal to a list if and only if they are as long and their elements
are pairwise equal. -/
theorem equalRangeList_exact (vs : List Value) : equalRangeList r vs =
    .ok (r.length == vs.length && (r.toList.zip vs).all fun p => equalsInteger p.1 p.2) := by
  unfold equalRangeList
  rw [length_exact h]
  rfl

/-- The numbers of an exact range are compared with a list as the range is. -/
theorem numbers_equal (vs : List Value) :
    (items (r.toList.map ofExact)).equal (items vs) = (range r).equal (items vs) := by
  show (if (r.toList.map ofExact).length = vs.length then equalAll _ _ else _) = equalRangeList r vs
  rw [equalRangeList_exact h, List.length_map, r.length_toList]
  by_cases hlength : r.length = vs.length
  · obtain ⟨hnumbers, hvalues⟩ := map_zip_numbers hlength
    have hall := @equalAll_map _ (fun p : Int × Value => ofExact p.1) (·.2)
      (fun p => equalsInteger p.1 p.2)
      (r.toList.zip vs) fun p hp =>
        ofExact_equal (IntRange.natAbs_le_of_isExact h (List.of_mem_zip hp).1) p.2
    rw [hnumbers, hvalues] at hall
    rw [if_pos hlength, hall, beq_iff_eq.mpr hlength, Bool.true_and]
  · rw [if_neg hlength, beq_eq_false_iff_ne.mpr hlength, Bool.false_and]

/-- A list is equal to the numbers of an exact range if and only if it is equal to the range. -/
theorem equal_numbers (vs : List Value) :
    (items vs).equal (items (r.toList.map ofExact)) = (items vs).equal (range r) := by
  show (if vs.length = (r.toList.map ofExact).length then equalAll _ _ else _) = equalRangeList r vs
  rw [equalRangeList_exact h, List.length_map, r.length_toList]
  by_cases hlength : r.length = vs.length
  · obtain ⟨hnumbers, hvalues⟩ := map_zip_numbers hlength
    have hall := @equalAll_map _ (·.2) (fun p : Int × Value => ofExact p.1)
      (fun p => equalsInteger p.1 p.2)
      (r.toList.zip vs) fun p hp =>
        equal_ofExact (IntRange.natAbs_le_of_isExact h (List.of_mem_zip hp).1) p.2
    rw [hnumbers, hvalues] at hall
    rw [if_pos hlength.symm, hall, beq_iff_eq.mpr hlength, Bool.true_and]
  · rw [if_neg (Ne.symm hlength), beq_eq_false_iff_ne.mpr hlength, Bool.false_and]

/-- The integers of a range are those of an exact one if they are equal to its numbers. -/
theorem equalsInteger_numbers (s : IntRange) :
    (s.length == (r.toList.map ofExact).length &&
      (s.toList.zip (r.toList.map ofExact)).all fun p => equalsInteger p.1 p.2) =
        s.sameElements r := by
  have hzip : (s.toList.zip (r.toList.map ofExact)).all (fun p => equalsInteger p.1 p.2) =
      (s.toList.zip r.toList).all fun p => p.1 == p.2 := by
    rw [List.zip_map_right, List.all_map, Bool.eq_iff_iff, List.all_eq_true, List.all_eq_true]
    refine forall₂_congr fun p hp => ?_
    show equalsInteger p.1 (ofExact p.2) = true ↔ _
    rw [equalsInteger_ofExact (IntRange.natAbs_le_of_isExact h (List.of_mem_zip hp).2)]
  rw [hzip, List.length_map, r.length_toList, Bool.eq_iff_iff, s.sameElements_iff,
    Bool.and_eq_true, beq_iff_eq]
  constructor
  · rintro ⟨hlength, hall⟩
    exact (all_zip_iff (by rw [s.length_toList, r.length_toList, hlength])).mp hall
  · intro hsame
    have hlength : s.length = r.length := by rw [← s.length_toList, ← r.length_toList, hsame]
    exact ⟨hlength, (all_zip_iff (congrArg List.length hsame)).mpr hsame⟩

/-- The numbers of an exact range are compared with a range as the range is. -/
theorem equalRangeList_numbers (s : IntRange) :
    equalRangeList s (r.toList.map ofExact) = (range s).length.map fun _ => s.sameElements r := by
  unfold equalRangeList
  cases hlength : (range s).length with
  | error fault => rfl
  | ok length =>
    obtain rfl : length = s.length := size_of_length hlength
    exact congrArg Except.ok (equalsInteger_numbers h s)

/-- A range is equal to the numbers of an exact range if and only if it is equal to that range. -/
theorem range_equal_numbers (s : IntRange) :
    (range s).equal (items (r.toList.map ofExact)) = (range s).equal (range r) := by
  show equalRangeList s _ = equalRanges s r
  rw [equalRangeList_numbers h, equalRanges, length_exact h]
  cases (range s).length <;> rfl

/-- The numbers of an exact range are equal to a range if and only if the exact range is. -/
theorem numbers_equal_range (s : IntRange) :
    (items (r.toList.map ofExact)).equal (range s) = (range r).equal (range s) := by
  have hsame : s.sameElements r = r.sameElements s := by
    rw [Bool.eq_iff_iff, IntRange.sameElements_iff, IntRange.sameElements_iff]
    exact eq_comm
  show equalRangeList s _ = equalRanges r s
  rw [equalRangeList_numbers h, equalRanges, length_exact h, hsame]
  cases (range s).length <;> rfl

end Exact

end Sequence

end Formulary
