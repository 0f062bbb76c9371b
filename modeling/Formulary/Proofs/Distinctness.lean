import Formulary.Proofs.Equivalence
import Mathlib.Data.List.GetD
import Mathlib.Data.List.Induction

/-!
# Distinct elements

The library finds the distinct elements of an array by comparing each element with those kept so
far.  Since equality is transitive, an element equals a kept one exactly if it equals any of the
elements before it (`Library.any_distinct`), although elements need not equal themselves.  So the
elements that are kept are those at the positions where the array has an element for the first time
(`Library.distinct_eq_map`), and keeping the distinct ones of them changes nothing
(`Library.unique_first_occurrences`).
-/

set_option autoImplicit false

namespace Formulary

namespace Value

/-! ## The answer of a comparison -/

/-- Whether two values are found equal. -/
def isEqual (v w : Value) : Bool :=
  (v.equal w).toOption == some true

/-- An answer is what is left of it as an option. -/
theorem eq_ok_of_toOption {α : Type} {answer : Except Fault α} {a : α}
    (h : answer.toOption = some a) :
    answer = .ok a := by
  cases answer with
  | error fault => cases h
  | ok b => exact congrArg Except.ok (Option.some.inj h)

/-- A comparison of two countable values comes to an answer. -/
theorem equal_eq_isEqual {v w : Value} (hv : v.Countable) (hw : w.Countable) :
    v.equal w = .ok (v.isEqual w) := by
  obtain ⟨b, hb, -⟩ := equal_decides hv hw
  rw [isEqual, hb]
  cases b <;> rfl

/-- Two countable values are found equal if and only if they have one form. -/
theorem isEqual_iff_sameForm {v w : Value} (hv : v.Countable) (hw : w.Countable) :
    v.isEqual w = true ↔ v.SameForm w := by
  rw [← equal_iff_sameForm hv hw, equal_eq_isEqual hv hw, Except.ok.injEq]

/-- To be found equal is transitive on countable values. -/
theorem isEqual_trans {u v w : Value} (hu : u.Countable) (hv : v.Countable) (hw : w.Countable)
    (huv : u.isEqual v = true) (hvw : v.isEqual w = true) : u.isEqual w = true := by
  rw [isEqual_iff_sameForm hu hv] at huv
  rw [isEqual_iff_sameForm hv hw] at hvw
  exact (isEqual_iff_sameForm hu hw).mpr (huv.trans hvw)

/-- The integers of every range in a value are doubles. -/
def ExactRanges (v : Value) : Prop :=
  ∀ r, .range r ∈ v.leaves → ∀ n ∈ r.toList, n.natAbs ≤ Number.twoTo 53

/-- A value whose ranges consist of doubles is countable. -/
theorem ExactRanges.countable {v : Value} (h : v.ExactRanges) : v.Countable :=
  fun r hr => IntRange.length_le_of_natAbs_le (h r hr)

/-- A number is countable. -/
theorem countable_ofExact (n : Int) : (ofExact n).Countable := by
  intro r hr
  cases List.mem_singleton.mp hr

/-- An array with exact ranges has a list of elements, which can all be compared. -/
theorem ExactRanges.exists_toList {v : Value} (h : v.ExactRanges) {s : Sequence}
    (hs : v.sequence? = some s) :
    ∃ values, s.toList = .ok values ∧ ∀ w ∈ values, w.Countable := by
  have hview := view_of_sequence? hs
  cases s with
  | items values => exact ⟨values, rfl, fun _ hw => h.countable.of_mem hview hw⟩
  | range r =>
    obtain rfl := eq_range_of_view hview
    refine ⟨r.toList.map ofExact, mapM_ofRangeElement_exact (h r List.mem_cons_self), ?_⟩
    intro w hw
    obtain ⟨n, -, rfl⟩ := List.mem_map.mp hw
    exact countable_ofExact n

end Value

namespace Library

open Value

/-! ## The loop without failures -/

/-- Keeps a value unless it equals one that is kept. -/
def keep (found : List Value) (v : Value) : List Value :=
  if found.any v.isEqual then found else found ++ [v]

/-- The values that are kept, from left to right. -/
def distinct (values : List Value) : List Value :=
  values.foldl keep []

/-- A value at the end of a list is kept or not after all the others. -/
theorem distinct_snoc (values : List Value) (v : Value) :
    distinct (values ++ [v]) = keep (distinct values) v := by
  rw [distinct, List.foldl_append]
  rfl

/-- What is kept was kept before or is the new value. -/
theorem mem_keep {found : List Value} {v w : Value} (h : w ∈ keep found v) : w ∈ found ∨ w = v := by
  unfold keep at h
  by_cases hany : found.any v.isEqual = true
  · rw [if_pos hany] at h
    exact .inl h
  · rw [if_neg hany] at h
    exact (List.mem_append.mp h).imp_right List.mem_singleton.mp

/-- Whether a countable value equals one of several others comes to an answer. -/
theorem anyM_equal {v : Value} (hv : v.Countable) {found : List Value}
    (hfound : ∀ w ∈ found, w.Countable) :
    found.anyM v.equal = .ok (found.any v.isEqual) := by
  induction found with
  | nil => rfl
  | cons w found ih =>
    rw [List.anyM, equal_eq_isEqual hv (hfound w List.mem_cons_self), List.any_cons]
    cases hequal : v.isEqual w with
    | true => rfl
    | false => exact ih fun w hw => hfound w (List.mem_cons_of_mem _ hw)

/-- One turn of the loop over countable values keeps the value unless it equals one that is kept. -/
theorem addDistinct_eq {v : Value} (hv : v.Countable) {found : List Value}
    (hfound : ∀ w ∈ found, w.Countable) :
    addDistinct found v = .ok (keep found v) := by
  unfold addDistinct keep
  rw [anyM_equal hv hfound]
  cases found.any v.isEqual <;> rfl

/-- The loop over countable values keeps those that equal none before them. -/
theorem foldlM_addDistinct {values found : List Value} (hvalues : ∀ w ∈ values, w.Countable)
    (hfound : ∀ w ∈ found, w.Countable) :
    values.foldlM addDistinct found = .ok (values.foldl keep found) := by
  induction values generalizing found with
  | nil => rfl
  | cons v values ih =>
    have hv := hvalues v List.mem_cons_self
    rw [List.foldlM_cons, addDistinct_eq hv hfound]
    refine ih (fun w hw => hvalues w (List.mem_cons_of_mem _ hw)) fun w hw => ?_
    rcases mem_keep hw with hw | rfl
    · exact hfound w hw
    · exact hv

/-- The distinct elements of an array of countable values are those that are kept from left to
right. -/
theorem unique_eq {a : Value} {s : Sequence} (hs : a.sequence? = some s) {values : List Value}
    (hvalues : s.toList = .ok values) (hcountable : ∀ w ∈ values, w.Countable) :
    unique [a] = .ok (.list (distinct values)) := by
  have harray : array "unique" "a" a = .ok s := by
    unfold array
    rw [hs]
  show (do
    let elements ← array "unique" "a" a
    let values ← orFault elements.toList
    let found ← orFault (values.foldlM addDistinct [])
    return Value.list found) = _
  rw [harray]
  show (do
    let values ← orFault s.toList
    let found ← orFault (values.foldlM addDistinct [])
    return Value.list found) = _
  rw [hvalues]
  show (do
    let found ← orFault (values.foldlM addDistinct [])
    return Value.list found) = _
  rw [foldlM_addDistinct hcountable fun w hw => absurd hw List.not_mem_nil]
  rfl

/-! ## What is kept -/

/-- What is kept stands in the order of the list. -/
theorem distinct_sublist (values : List Value) : (distinct values).Sublist values := by
  induction values using List.reverseRecOn with
  | nil => exact List.Sublist.refl _
  | append_singleton values v ih =>
    rw [distinct_snoc, keep]
    by_cases hany : (distinct values).any v.isEqual = true
    · rw [if_pos hany]
      exact ih.trans (List.sublist_append_left _ _)
    · rw [if_neg hany]
      exact ih.append (List.Sublist.refl _)

/-- No value that is kept equals one that is kept before it. -/
theorem distinct_pairwise (values : List Value) :
    (distinct values).Pairwise fun earlier later => later.isEqual earlier = false := by
  induction values using List.reverseRecOn with
  | nil => exact List.Pairwise.nil
  | append_singleton values v ih =>
    rw [distinct_snoc, keep]
    by_cases hany : (distinct values).any v.isEqual = true
    · rw [if_pos hany]
      exact ih
    · rw [if_neg hany]
      refine List.pairwise_append.mpr ⟨ih, List.pairwise_singleton _ _,
        fun earlier hearlier later hlater => ?_⟩
      obtain rfl := List.mem_singleton.mp hlater
      exact Bool.eq_false_iff.mpr fun hequal =>
        hany (List.any_eq_true.mpr ⟨earlier, hearlier, hequal⟩)

/-- Values of which none equals an earlier one are all kept. -/
theorem foldl_keep_of_pairwise {found values : List Value}
    (h : (found ++ values).Pairwise fun earlier later => later.isEqual earlier = false) :
    values.foldl keep found = found ++ values := by
  induction values generalizing found with
  | nil => exact (List.append_nil found).symm
  | cons v values ih =>
    have hnew : found.any v.isEqual = false := by
      rw [List.any_eq_false]
      intro w hw
      rw [(List.pairwise_append.mp h).2.2 w hw v List.mem_cons_self]
      exact Bool.false_ne_true
    rw [List.append_cons] at h ⊢
    rw [List.foldl_cons, keep, hnew]
    exact ih h

/-- Of values that are distinct already, all are kept. -/
theorem distinct_distinct (values : List Value) : distinct (distinct values) = distinct values :=
  foldl_keep_of_pairwise (distinct_pairwise values)

/-- A value equals a kept one exactly if it equals any: what was not kept equals a kept one
itself. -/
theorem any_distinct {v : Value} (hv : v.Countable) {values : List Value}
    (hvalues : ∀ w ∈ values, w.Countable) :
    (distinct values).any v.isEqual = values.any v.isEqual := by
  induction values using List.reverseRecOn with
  | nil => rfl
  | append_singleton values w ih =>
    have hw : w.Countable := hvalues w (List.mem_append_right _ (List.mem_singleton_self w))
    have hbefore : ∀ u ∈ values, u.Countable := fun u hu => hvalues u (List.mem_append_left _ hu)
    rw [distinct_snoc, keep, List.any_append, ← ih hbefore]
    by_cases hany : (distinct values).any w.isEqual = true
    · rw [if_pos hany]
      cases hequal : v.isEqual w with
      | false => simp [hequal]
      | true =>
        obtain ⟨u, hu, hwu⟩ := List.any_eq_true.mp hany
        have hvu := isEqual_trans hv hw (hbefore u ((distinct_sublist values).subset hu)) hequal hwu
        rw [List.any_eq_true.mpr ⟨u, hu, hvu⟩, Bool.true_or]
    · rw [if_neg hany, List.any_append]

/-- The positions of a list at which no earlier element equals the one there. -/
def firstPositions (values : List Value) : List Nat :=
  (List.range values.length).filter fun i => !(values.take i).any (values.getD i .null).isEqual

/-- The last position of a list is a first one if and only if no earlier element equals the one
there. -/
theorem firstPositions_snoc (values : List Value) (v : Value) : firstPositions (values ++ [v]) =
    firstPositions values ++ if values.any v.isEqual then [] else [values.length] := by
  have hlast : (values ++ [v]).getD values.length .null = v := by simp
  unfold firstPositions
  rw [List.length_append, List.length_singleton, List.range_succ, List.filter_append]
  congr 1
  · refine List.filter_congr fun i hi => ?_
    rw [List.mem_range] at hi
    rw [List.take_append_of_le_length (Nat.le_of_lt hi), List.getD_append _ _ _ _ hi]
  · rw [List.filter_singleton, hlast, List.take_left]
    cases values.any v.isEqual <;> rfl

/-- A position is a first one if and only if no earlier element equals the one there. -/
theorem mem_firstPositions {values : List Value} {i : Nat} : i ∈ firstPositions values ↔
    i < values.length ∧ ∀ j < i, (values.getD i .null).isEqual (values.getD j .null) = false := by
  rw [firstPositions, List.mem_filter, List.mem_range, Bool.not_eq_true', List.any_eq_false]
  refine and_congr_right fun hi => ⟨fun h j hj => ?_, fun h w hw => ?_⟩
  · have hget : values.getD j .null ∈ values.take i := by
      rw [List.mem_take_iff_getElem]
      exact ⟨j, by omega, by simp [List.getD_eq_getElem?_getD, Nat.lt_trans hj hi]⟩
    exact Bool.eq_false_iff.mpr (h _ hget)
  · obtain ⟨j, hj, rfl⟩ := List.mem_take_iff_getElem.mp hw
    have hlt : j < values.length := by omega
    have hget : values.getD j .null = values[j] := by simp [List.getD_eq_getElem?_getD, hlt]
    exact hget ▸ Bool.eq_false_iff.mp (h j (by omega))

/-- What is kept are the elements that stand somewhere for the first time. -/
theorem distinct_eq_map {values : List Value} (hvalues : ∀ w ∈ values, w.Countable) :
    distinct values = (firstPositions values).map (values.getD · .null) := by
  induction values using List.reverseRecOn with
  | nil => rfl
  | append_singleton values v ih =>
    have hv : v.Countable := hvalues v (List.mem_append_right _ (List.mem_singleton_self v))
    have hbefore : ∀ u ∈ values, u.Countable := fun u hu => hvalues u (List.mem_append_left _ hu)
    have hmap : (firstPositions values).map ((values ++ [v]).getD · .null) =
        (firstPositions values).map (values.getD · .null) :=
      List.map_congr_left fun i hi => List.getD_append _ _ _ _ (mem_firstPositions.mp hi).1
    rw [distinct_snoc, keep, any_distinct hv hbefore, firstPositions_snoc, List.map_append,
      hmap, ← ih hbefore]
    cases values.any v.isEqual with
    | true => simp
    | false => simp

/-- The distinct elements of an array are a part of its elements in their order, none equal to an
earlier one; an element is left out exactly if it equals some element before it, kept or not; and
the distinct elements of the result are the result. -/
theorem unique_first_occurrences {a : Value} {s : Sequence} (hs : a.sequence? = some s)
    (hexact : a.ExactRanges) :
    ∃ values result, s.toList = .ok values ∧ unique [a] = .ok (.list result) ∧
      result.Sublist values ∧
      (result.Pairwise fun earlier later => later.equal earlier = .ok false) ∧
      (∃ kept : List Nat, kept.Pairwise (· < ·) ∧ (∀ i ∈ kept, i < values.length) ∧
        result = kept.map (values.getD · .null) ∧
        ∀ i < values.length,
          i ∉ kept ↔ ∃ j < i, (values.getD i .null).equal (values.getD j .null) = .ok true) ∧
      unique [.list result] = .ok (.list result) := by
  obtain ⟨values, hvalues, hcountable⟩ := hexact.exists_toList hs
  have hresult : ∀ w ∈ distinct values, w.Countable := fun w hw =>
    hcountable w ((distinct_sublist values).subset hw)
  refine ⟨values, distinct values, hvalues, unique_eq hs hvalues hcountable,
    distinct_sublist values, ?_,
    ⟨firstPositions values, ?_, ?_, distinct_eq_map hcountable, ?_⟩, ?_⟩
  · refine (distinct_pairwise values).imp_of_mem fun hearlier hlater hfalse => ?_
    rw [equal_eq_isEqual (hresult _ hlater) (hresult _ hearlier), hfalse]
  · exact List.pairwise_lt_range.filter _
  · exact fun i hi => (mem_firstPositions.mp hi).1
  · intro i hi
    have hat : ∀ j < values.length, (values.getD j .null).Countable :=
      fun j hj => hcountable _ (getD_mem hj)
    rw [mem_firstPositions]
    constructor
    · intro hnot
      by_contra hnone
      refine hnot ⟨hi, fun j hj => Bool.eq_false_iff.mpr fun hequal => hnone ⟨j, hj, ?_⟩⟩
      rw [equal_eq_isEqual (hat i hi) (hat j (Nat.lt_trans hj hi)), hequal]
    · rintro ⟨j, hj, hequal⟩ ⟨-, hall⟩
      rw [equal_eq_isEqual (hat i hi) (hat j (Nat.lt_trans hj hi)), hall j hj] at hequal
      cases hequal
  · have hagain := unique_eq (a := .list (distinct values)) rfl rfl hresult
    rw [hagain, distinct_distinct]

/-- Of two NaNs both are kept; a list that equals a range before it is not. -/
theorem unique_first_occurrences_of_nans :
    let nan : Value := .number (0.0 / 0.0)
    let items : List Value := [nan, nan, .range (.upTo 0 2), .list [.number (-0.0), .integer 1]]
    (Value.tuple items).sequence? = some (.items items) ∧ (Value.tuple items).ExactRanges ∧
      ∃ (result : List Value) (kept : List Nat), unique [.tuple items] = .ok (.list result) ∧
        result = kept.map (items.getD · .null) ∧ 1 ∈ kept ∧ 3 ∉ kept ∧
          unique [.list result] = .ok (.list result) := by
  intro nan items
  have hexact : (Value.tuple items).ExactRanges := by
    intro r hr n hn
    simp only [items, nan, leaves, leavesAll, List.cons_append, List.nil_append, List.mem_cons,
      List.not_mem_nil, reduceCtorEq, or_false, false_or, Value.range.injEq] at hr
    subst hr
    exact IntRange.natAbs_le_of_isExact (by decide) hn
  obtain ⟨values, result, hvalues, hunique, -, -, ⟨kept, -, -, hresult, homitted⟩, hagain⟩ :=
    unique_first_occurrences (a := .tuple items) rfl hexact
  obtain rfl := Except.ok.inj hvalues
  refine ⟨rfl, hexact, result, kept, hunique, hresult, ?_, ?_, hagain⟩
  · by_contra hnot
    obtain ⟨j, hj, hequal⟩ := (homitted 1 (by decide)).mp hnot
    obtain rfl : j = 0 := by omega
    have hanswer : (nan.equal nan).toOption = some true := congrArg Except.toOption hequal
    exact absurd hanswer (by decide +kernel)
  · refine (homitted 3 (by decide)).mpr ⟨2, by decide, ?_⟩
    exact eq_ok_of_toOption (by decide +kernel)

end Library

end Formulary
