import Formulary.Library.Arrays
import Formulary.Proofs.Exactness

/-!
# Ranges and their elements

What is computed of a range without going through its elements agrees with the list of them: how
many there are (`lt_length_iff`), which integers are among them (`contains_iff_mem`), a part of them
(`part_eq`), and whether two ranges have the same ones (`sameElements_iff`).  The elements lie
between the bounds of the range, so that those of an exact range are doubles.
-/

set_option autoImplicit false

namespace Formulary.IntRange

variable (r s : IntRange)

/-- A position belongs to a range exactly if the element at it lies before the stop. -/
theorem lt_length_iff (i : Nat) :
    i < r.length ↔ (0 < r.step ∧ r.get i < r.stop) ∨ (r.step < 0 ∧ r.stop < r.get i) := by
  have hne := r.step_ne_zero
  unfold length get
  by_cases hstep : 0 < r.step
  · have hcount : ((i : Int) + 1) * r.step = i * r.step + r.step := by rw [Int.add_mul, Int.one_mul]
    have hle := @Int.le_ediv_iff_mul_le ((i : Int) + 1) (r.stop - r.first + r.step - 1) r.step hstep
    rw [if_pos hstep]
    omega
  · have hstep' : 0 < -r.step := by omega
    have hcount : ((i : Int) + 1) * -r.step = -(i * r.step) - r.step := by
      rw [Int.add_mul, Int.one_mul, Int.mul_neg, Int.sub_eq_add_neg]
    have hle := @Int.le_ediv_iff_mul_le ((i : Int) + 1) (r.first - r.stop - r.step - 1)
      (-r.step) hstep'
    rw [if_neg hstep]
    omega

/-- The list of a range's elements is as long as the range. -/
theorem length_toList : r.toList.length = r.length := by
  simp [toList, part]

/-- The element at a position of the list is the one at that position of the range. -/
theorem getElem?_toList {i : Nat} (h : i < r.length) : r.toList[i]? = some (r.get i) := by
  unfold toList part
  rw [List.getElem?_map, List.getElem?_range' (by omega)]
  simp

/-- An integer is an element of a range if and only if it stands at some position of it. -/
theorem mem_toList_iff {n : Int} : n ∈ r.toList ↔ ∃ i < r.length, r.get i = n := by
  simp [toList, part]

/-- Whether an integer is an element can be told without the elements. -/
theorem contains_iff_mem (n : Int) : r.contains n = true ↔ n ∈ r.toList := by
  rw [mem_toList_iff]
  unfold contains
  rw [decide_eq_true_iff]
  constructor
  · rintro ⟨hdivides, hpositive, hlength⟩
    have hdistance := Int.mul_ediv_cancel_of_emod_eq_zero hdivides
    refine ⟨((n - r.first) / r.step).toNat, by omega, ?_⟩
    rw [get, Int.toNat_of_nonneg hpositive, Int.mul_comm]
    omega
  · rintro ⟨i, hi, rfl⟩
    have hdistance : r.get i - r.first = i * r.step := by
      unfold get
      omega
    rw [hdistance, Int.mul_ediv_cancel _ r.step_ne_zero]
    exact ⟨Int.mul_emod_left _ _, by omega, by omega⟩

/-- The elements between two positions. -/
theorem part_eq {start stop : Nat} (h : stop ≤ r.length) :
    r.part start stop = (r.toList.take stop).drop start := by
  unfold toList part
  rw [← List.map_take, ← List.map_drop]
  congr 1
  apply List.ext_getElem?
  intro i
  rw [List.getElem?_drop, List.getElem?_take]
  by_cases hi : i < stop - start
  · rw [if_pos (by omega), List.getElem?_range' hi, List.getElem?_range' (by omega)]
    simp
  · rw [List.getElem?_eq_none (by simpa using hi)]
    by_cases hstop : start + i < stop
    · omega
    · rw [if_neg hstop]

/-- Whether two ranges have the same elements can be told without the elements. -/
theorem sameElements_iff : r.sameElements s = true ↔ r.toList = s.toList := by
  simp only [sameElements, Bool.and_eq_true, Bool.or_eq_true, beq_iff_eq]
  constructor
  · rintro ⟨hlength, hsame⟩
    apply List.ext_getElem?
    intro i
    by_cases hi : i < r.length
    · rw [getElem?_toList r hi, getElem?_toList s (hlength ▸ hi)]
      unfold get
      rcases hsame with hzero | ⟨hfirst, hone | hstep⟩
      · omega
      · obtain rfl : i = 0 := by omega
        rw [hfirst]
        simp
      · rw [hfirst, hstep]
    · rw [List.getElem?_eq_none (by rw [length_toList]; omega),
        List.getElem?_eq_none (by rw [length_toList]; omega)]
  · intro hsame
    have hlength : r.length = s.length := by rw [← length_toList, ← length_toList, hsame]
    have hget : ∀ i < r.length, r.get i = s.get i := by
      intro i hi
      apply Option.some.inj
      rw [← getElem?_toList r hi, ← getElem?_toList s (hlength ▸ hi), hsame]
    refine ⟨hlength, ?_⟩
    by_cases hzero : r.length = 0
    · exact .inl hzero
    · have hfirst : r.first = s.first := by simpa [get] using hget 0 (by omega)
      refine .inr ⟨hfirst, ?_⟩
      by_cases hone : r.length = 1
      · exact .inl hone
      · have hsecond := hget 1 (by omega)
        unfold get at hsecond
        exact .inr (by omega)

/-! ## Exact ranges -/

/-- The bounds of a range lie where every integer is a double. -/
def isExact : Bool :=
  decide (r.first.natAbs ≤ Number.twoTo 53 ∧ r.stop.natAbs ≤ Number.twoTo 53)

variable {r} (h : r.isExact = true)
include h

/-- The elements of an exact range are at most `2 ^ 53` in amount. -/
theorem natAbs_le_of_isExact {n : Int} (hn : n ∈ r.toList) : n.natAbs ≤ Number.twoTo 53 := by
  obtain ⟨hfirst, hstop⟩ := of_decide_eq_true h
  obtain ⟨i, hi, rfl⟩ := r.mem_toList_iff.mp hn
  have hbefore := (r.lt_length_iff i).mp hi
  have hget : r.get i = r.first + i * r.step := rfl
  rcases hbefore with ⟨hstep, hlt⟩ | ⟨hstep, hlt⟩
  · have hpositive : 0 ≤ (i : Int) * r.step := Int.mul_nonneg (Int.natCast_nonneg i)
      (Int.le_of_lt hstep)
    omega
  · have hnegative : (i : Int) * r.step ≤ 0 :=
      Int.mul_nonpos_of_nonneg_of_nonpos (Int.natCast_nonneg i) (Int.le_of_lt hstep)
    omega

omit h in
/-- A range of integers that are doubles can be counted: there are not more of them than such
integers. -/
theorem length_le_of_natAbs_le (helements : ∀ n ∈ r.toList, n.natAbs ≤ Number.twoTo 53) :
    r.length ≤ Sequence.longest := by
  have hbound : Number.twoTo 53 + Number.twoTo 53 < Sequence.longest := by decide
  apply Nat.le_of_not_lt
  intro hlong
  have hfirst :=
    helements _ (r.mem_toList_iff.mpr ⟨0, Nat.lt_of_le_of_lt (Nat.zero_le _) hlong, rfl⟩)
  have hlast := helements _ (r.mem_toList_iff.mpr ⟨Sequence.longest, hlong, rfl⟩)
  have hzero : r.get 0 = r.first := by simp [get]
  have hget : r.get Sequence.longest = r.first + Sequence.longest * r.step := rfl
  have hdistance : (Sequence.longest * r.step).natAbs = Sequence.longest * r.step.natAbs := by
    rw [Int.natAbs_mul, Int.natAbs_natCast]
  have hstep : 0 < r.step.natAbs := Int.natAbs_pos.mpr r.step_ne_zero
  have hfar := Nat.le_mul_of_pos_right Sequence.longest hstep
  omega

/-- An exact range is not too long to be counted. -/
theorem length_le_of_isExact : r.length ≤ Sequence.longest :=
  length_le_of_natAbs_le fun _ hn => natAbs_le_of_isExact h hn

end Formulary.IntRange
