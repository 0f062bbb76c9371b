import Formulary.Proofs.Distinctness
import Formulary.Proofs.Distribution
import Formulary.Proofs.LibraryUnrolling

/-!
# Cutting and joining

What is cut into parts can be put together again.  A text split at a separator is the pieces with
the separator between them (`Text.intercalate_splitOn`), and as the splitting never passes over an
occurrence of the separator, none lies within a piece (`Text.not_isInfix_of_mem_splitOn`).  A string
or an array cut at an offset is its two parts one behind the other: both slices turn the offset into
the same position, wherever it lies (`Text.cut_append_cut`).  Both are said of the functions that
formulas call in `Library.parts_restore`.
-/

set_option autoImplicit false

namespace Formulary

namespace Text

/-! ## Splitting -/

/-- Splitting yields at least one piece. -/
theorem splitFrom_ne_nil (head : Char) (tail piece cs : List Char) :
    splitFrom head tail piece cs ≠ [] := by
  fun_induction splitFrom head tail piece cs with
  | case1 => exact List.cons_ne_nil _ _
  | case2 => exact List.cons_ne_nil _ _
  | case3 _ _ _ _ ih => exact ih

/-- An occurrence of the separator is the separator and what follows it. -/
theorem cons_eq_append_drop {head c : Char} {tail rest : List Char}
    (h : c = head ∧ tail.isPrefixOf rest = true) :
    c :: rest = (head :: tail) ++ rest.drop tail.length := by
  obtain ⟨rfl, hrest⟩ := h
  obtain ⟨after, rfl⟩ := List.isPrefixOf_iff_prefix.mp hrest
  rw [List.drop_left]
  rfl

/-- The pieces of a text that is being split, joined by the separator, give the text back. -/
theorem intercalate_splitFrom (head : Char) (tail piece cs : List Char) :
    (head :: tail).intercalate (splitFrom head tail piece cs) = piece.reverse ++ cs := by
  fun_induction splitFrom head tail piece cs with
  | case1 piece => rw [List.intercalate_singleton, List.append_nil]
  | case2 piece c rest h ih =>
    rw [List.intercalate_cons_of_ne_nil (splitFrom_ne_nil _ _ _ _), ih, cons_eq_append_drop h,
      List.append_assoc]
    rfl
  | case3 piece c rest h ih =>
    rw [ih, List.reverse_cons, List.append_assoc]
    rfl

/-- The single characters of a text, joined by nothing, give the text back. -/
theorem intercalate_chars (cs : List Char) :
    ([] : List Char).intercalate (cs.map fun c => [c]) = cs := by
  induction cs with
  | nil => rfl
  | cons c cs ih =>
    cases cs with
    | nil => rfl
    | cons d cs =>
      have hmore : (d :: cs).map (fun c => [c]) ≠ [] := List.cons_ne_nil _ _
      rw [List.map_cons, List.intercalate_cons_of_ne_nil hmore, ih]
      rfl

/-- The pieces of a split text, joined by the separator, give the text back. -/
theorem intercalate_splitOn (separator cs : List Char) :
    separator.intercalate (splitOn separator cs) = cs := by
  cases separator with
  | nil => exact intercalate_chars cs
  | cons head tail => exact intercalate_splitFrom head tail [] cs

/-- No occurrence of a separator begins within a piece when the given text follows the piece. -/
def FreeOf (separator piece rest : List Char) : Prop :=
  ∀ begun, begun <:+ piece → begun ≠ [] → ¬separator <+: begun ++ rest

/-- No occurrence of a separator begins within nothing. -/
theorem freeOf_nil (separator rest : List Char) : FreeOf separator [] rest := by
  intro begun hbegun hne
  exact absurd (List.suffix_nil.mp hbegun) hne

/-- A piece goes on with a character at which the separator does not occur. -/
theorem FreeOf.snoc {separator piece rest : List Char} {c : Char}
    (h : FreeOf separator piece (c :: rest)) (hc : ¬separator <+: c :: rest) :
    FreeOf separator (piece ++ [c]) rest := by
  intro begun hbegun hne hoccurs
  rcases List.suffix_concat_iff.mp hbegun with rfl | ⟨earlier, rfl, hearlier⟩
  · exact hne rfl
  · rw [List.append_assoc] at hoccurs
    by_cases hnil : earlier = []
    · subst hnil
      exact hc hoccurs
    · exact h earlier hearlier hnil hoccurs

/-- A piece within which no occurrence begins has none inside. -/
theorem FreeOf.not_isInfix {separator piece rest : List Char} (h : FreeOf separator piece rest)
    (hne : separator ≠ []) : ¬separator <:+: piece := by
  intro hinfix
  obtain ⟨begun, hoccurs, hbegun⟩ := List.infix_iff_prefix_suffix.mp hinfix
  have hnil : begun ≠ [] := by
    rintro rfl
    exact hne (List.prefix_nil.mp hoccurs)
  exact h begun hbegun hnil (hoccurs.trans (List.prefix_append _ _))

/-- No piece of a text that is being split has the separator inside. -/
theorem not_isInfix_of_mem_splitFrom {head : Char} {tail piece cs : List Char}
    (h : FreeOf (head :: tail) piece.reverse cs) :
    ∀ p ∈ splitFrom head tail piece cs, ¬(head :: tail) <:+: p := by
  -- That no occurrence begins within the piece so far is more than that the piece contains none: a
  -- separator could begin in it and end in the characters that are still to be read.
  fun_induction splitFrom head tail piece cs with
  | case1 piece =>
    intro p hp
    obtain rfl := List.mem_singleton.mp hp
    exact h.not_isInfix (List.cons_ne_nil _ _)
  | case2 piece c rest hoccurs ih =>
    intro p hp
    rcases List.mem_cons.mp hp with rfl | hp
    · exact h.not_isInfix (List.cons_ne_nil _ _)
    · exact ih (freeOf_nil _ _) p hp
  | case3 piece c rest hoccurs ih =>
    refine ih ?_
    rw [List.reverse_cons]
    refine h.snoc fun hprefix => hoccurs ?_
    obtain ⟨rfl, htail⟩ := List.cons_prefix_cons.mp hprefix
    exact ⟨rfl, List.isPrefixOf_iff_prefix.mpr htail⟩

/-- No piece of a split text has the separator inside, unless the separator is empty. -/
theorem not_isInfix_of_mem_splitOn {separator : List Char} (hne : separator ≠ []) (cs : List Char) :
    ∀ p ∈ splitOn separator cs, ¬separator <:+: p := by
  cases separator with
  | nil => exact absurd rfl hne
  | cons head tail => exact not_isInfix_of_mem_splitFrom (freeOf_nil _ _)

/-! ## Cutting at an offset -/

section Cut

variable {α : Type} (xs : List α) (n : Int)

/-- A cut from the front up to an offset takes what is in front of it. -/
theorem cut_zero : cut xs 0 (some n) = xs.take (clampOffset xs.length n) := by
  have hzero : clampOffset xs.length 0 = 0 := by simp [clampOffset]
  rw [cut, hzero, List.drop_zero]

/-- A cut from an offset to the end drops what is in front of it. -/
theorem cut_none : cut xs n none = xs.drop (clampOffset xs.length n) := by
  show (xs.take xs.length).drop _ = _
  rw [List.take_length]

/-- The two cuts at an offset, one behind the other, are the whole list. -/
theorem cut_append_cut : cut xs 0 (some n) ++ cut xs n none = xs := by
  rw [cut_zero, cut_none, List.take_append_drop]

/-- The front cut at an offset is as long as the offset allows. -/
theorem length_cut_zero : (cut xs 0 (some n)).length = clampOffset xs.length n := by
  rw [cut_zero, List.length_take, Nat.min_eq_left (Library.clampOffset_le _ _)]

end Cut

end Text

namespace Library

open Value

/-! ## The functions of the library -/

/-- The elements of an array of strings are all strings. -/
theorem allStrings_map (index : Nat) (pieces : List String) :
    allStrings index (pieces.map .string) = .ok pieces := by
  induction pieces generalizing index with
  | nil => rfl
  | cons piece pieces ih =>
    rw [List.map_cons, allStrings, ih]
    rfl

/-- Joining the pieces of a string gives the string, and no piece has the separator in it. -/
theorem exists_split (s separator : String) : ∃ pieces : List String,
    split [.string s, .string separator] = .ok (.list (pieces.map .string)) ∧
      join [.list (pieces.map .string), .string separator] = .ok (.string s) ∧
      (separator ≠ "" → ∀ piece ∈ pieces, ¬separator.toList <:+: piece.toList) := by
  refine ⟨(Text.splitOn separator.toList s.toList).map String.ofList, ?_, ?_, ?_⟩
  · rw [List.map_map]
    rfl
  · rw [join_pair]
    show (allStrings 0 (((Text.splitOn separator.toList s.toList).map String.ofList).map
      Value.string) >>= fun strings => Except.ok (Value.string (separator.intercalate strings))) = _
    rw [allStrings_map]
    refine congrArg (fun t => Except.ok (Value.string t)) (String.toList_inj.mp ?_)
    rw [String.toList_intercalate, List.map_map]
    have hid : String.toList ∘ String.ofList = id := funext fun cs => String.toList_ofList
    rw [hid, List.map_id, Text.intercalate_splitOn]
  · intro hne piece hpiece
    obtain ⟨p, hp, rfl⟩ := List.mem_map.mp hpiece
    rw [String.toList_ofList]
    refine Text.not_isInfix_of_mem_splitOn (fun hnil => hne ?_) s.toList p hp
    exact String.toList_inj.mp hnil

/-- A number that is whole lies at the place of its integer. -/
theorem place_of_whole? {a : Numeric} {n : Int} (h : a.whole? = .ok (some n)) :
    a.place = some (Number.placeOfInt n) := by
  cases a with
  | double x => exact Number.whole?_eq_some_iff.mp (Except.ok.inj h)
  | integer m =>
    rw [Numeric.whole?] at h
    cases hdouble : (Numeric.integer m).toFloat with
    | error fault => rw [hdouble] at h; cases h
    | ok x =>
      rw [hdouble] at h
      obtain rfl := Option.some.inj (Except.ok.inj h)
      rfl

/-- A number with nothing behind its point is an integer, and is accepted as one. -/
theorem exists_wholeNumber {k : Value} (h : k.isIntegral = .ok true) :
    ∃ n, equalsInteger n k = true ∧
      ∀ function argument, wholeNumber function argument k = .ok n := by
  unfold isIntegral at h
  cases hnumeric : k.numeric? with
  | none => rw [hnumeric] at h; cases h
  | some a =>
    rw [hnumeric] at h
    have hsome : ∃ n, a.whole? = .ok (some n) := by
      cases hwhole : a.whole? with
      | error fault => simp [hwhole, Except.map] at h
      | ok found =>
        cases found with
        | none => simp [hwhole, Except.map] at h
        | some n => exact ⟨n, rfl⟩
    obtain ⟨n, hwhole⟩ := hsome
    refine ⟨n, ?_, fun function argument => ?_⟩
    · rw [equalsInteger, hnumeric]
      exact (Numeric.equal_integer_iff a n).mpr (place_of_whole? hwhole)
    · unfold wholeNumber
      rw [hnumeric]
      simp only [hwhole]
      rfl

/-- A value that is equal to zero is taken as the whole number zero. -/
theorem wholeNumber_zero {zero : Value} (h : equalsInteger 0 zero = true)
    (function argument : String) :
    wholeNumber function argument zero = .ok 0 := by
  have hbound : Int.natAbs 0 < Number.overflow :=
    Nat.lt_of_le_of_lt (Nat.zero_le _) Sequence.longest_lt_overflow
  obtain ⟨a, hnumeric, hwhole⟩ := whole?_of_equalsInteger h hbound
  unfold wholeNumber
  rw [hnumeric]
  simp only [hwhole]
  rfl

section Slices

variable {x zero k : Value} {parts : Collection} (hx : collection "slice" x = .ok parts) {n : Int}
  (hk : ∀ function argument, wholeNumber function argument k = .ok n)
include hx hk

/-- The slice from zero to an offset is the front cut of the array or string. -/
theorem slice_front (hzero : equalsInteger 0 zero = true) :
    slice [x, zero, k] = parts.cut 0 (some n) := by
  show slicePart x zero (some k) = _
  rw [slicePart_some, hx, wholeNumber_zero hzero, hk]
  rfl

/-- The slice from an offset on is the back cut of the array or string. -/
theorem slice_back : slice [x, k] = parts.cut n none := by
  show slicePart x k none = _
  rw [slicePart_none, hx, hk]
  rfl

end Slices

/-- The part of an array between two offsets is that part of the list of its elements. -/
theorem cut_array {a : Sequence} (hexact : ∀ r, a = .range r → ∀ n ∈ r.toList, n.natAbs ≤
    Number.twoTo 53) :
    ∃ values, a.toList = .ok values ∧ values.length = a.size ∧
      ∀ first last, Collection.cut first last (.array a) =
        .ok (.list (Text.cut values first last)) := by
  cases a with
  | items values => exact ⟨values, rfl, rfl, fun _ _ => rfl⟩
  | range r =>
    refine ⟨r.toList.map ofExact, mapM_ofRangeElement_exact (hexact r rfl), ?_,
      fun first last => ?_⟩
    · rw [List.length_map, r.length_toList]
      rfl
    · rw [Collection.cut, cut_numbers (hexact r rfl)]
      rfl

/-- Two lists that are not too long together are added to one behind the other. -/
theorem add_lists {limits : Limits} {front back : List Value}
    (hlong : front.length + back.length ≤ Sequence.longest)
    (hlimit : ((front.length + back.length : Nat) : Int) ≤ limits.bound .arrayLength) :
    applyBinary limits .add (.list front) (.list back) = .ok (.list (front ++ back)) := by
  show Value.add limits (.list front) (.list back) = _
  rw [add_arrays_eq rfl rfl rfl rfl (by omega) (by omega)]
  rcases withinLimit_cases limits .arrayLength ((front.length + back.length : Nat) : Int) with
    hwithin | ⟨hover, -⟩
  · rw [hwithin]
    rfl
  · omega

/-- The pieces of a string, joined with the separator that it was split at, are the string, and none
of them has the separator in it.  The slices of a string, or of an array that can be counted and is
within the limit, up to a whole number and from it on meet at the position that it stands for, and
their sum is the string, or the list of the elements of the array. -/
theorem parts_restore (limits : Limits) :
    (∀ s separator : String, ∃ pieces : List String,
      split [.string s, .string separator] = .ok (.list (pieces.map .string)) ∧
      join [.list (pieces.map .string), .string separator] = .ok (.string s) ∧
      (separator ≠ "" → ∀ piece ∈ pieces, ¬separator.toList <:+: piece.toList)) ∧
    ∀ zero k, equalsInteger 0 zero = true → k.isIntegral = .ok true →
      ∃ n, equalsInteger n k = true ∧
      (∀ s : String, ∃ front back : String,
        slice [.string s, zero, k] = .ok (.string front) ∧
        slice [.string s, k] = .ok (.string back) ∧
        front.length = Text.clampOffset s.length n ∧
        applyBinary limits .add (.string front) (.string back) = .ok (.string s)) ∧
      ∀ x a, x.sequence? = some a →
        (∀ r, a = .range r → ∀ n ∈ r.toList, n.natAbs ≤ Number.twoTo 53) →
        a.size ≤ Sequence.longest → (a.size : Int) ≤ limits.bound .arrayLength →
        ∃ values front back : List Value, a.toList = .ok values ∧
          slice [x, zero, k] = .ok (.list front) ∧ slice [x, k] = .ok (.list back) ∧
          front.length = Text.clampOffset a.size n ∧
          applyBinary limits .add (.list front) (.list back) = .ok (.list values) := by
  refine ⟨exists_split, fun zero k hzero hk => ?_⟩
  obtain ⟨n, hn, hwhole⟩ := exists_wholeNumber hk
  refine ⟨n, hn, fun s => ?_, fun x a ha hexact hlong hlimit => ?_⟩
  · have hs : collection "slice" (.string s) = .ok (.string s) := rfl
    refine ⟨_, _, slice_front hs hwhole hzero, slice_back hs hwhole, ?_, ?_⟩
    · rw [String.length_ofList, Text.length_cut_zero, String.length_toList]
    · refine congrArg (fun t => Except.ok (Value.string t)) (String.toList_inj.mp ?_)
      rw [String.toList_append, String.toList_ofList, String.toList_ofList, Text.cut_append_cut]
  · have hx : collection "slice" x = .ok (.array a) := by
      unfold collection
      rw [view_of_sequence? ha]
    obtain ⟨values, hvalues, hsize, hcut⟩ := cut_array hexact
    have hparts := Text.cut_append_cut values n
    have hsum : (Text.cut values 0 (some n)).length + (Text.cut values n none).length = a.size := by
      rw [← List.length_append, hparts, hsize]
    refine ⟨values, _, _, hvalues, (slice_front hx hwhole hzero).trans (hcut _ _),
      (slice_back hx hwhole).trans (hcut _ _), ?_, ?_⟩
    · rw [Text.length_cut_zero, hsize]
    · rw [add_lists (hsum.symm ▸ hlong) (hsum.symm ▸ hlimit), hparts]

/-- A separator that overlaps itself, and a range that counts down, cut one from its end. -/
theorem parts_restore_counting_down :
    let r : IntRange := ⟨5, 0, -2, by decide⟩
    let k : Value := .number (-1.0)
    ("aa" ≠ "" ∧ ∃ pieces : List String,
      split [.string "aaa", .string "aa"] = .ok (.list (pieces.map .string)) ∧
      join [.list (pieces.map .string), .string "aa"] = .ok (.string "aaa") ∧
      ∀ piece ∈ pieces, ¬['a', 'a'] <:+: piece.toList) ∧
    (equalsInteger 0 (.number 0.0) = true ∧ k.isIntegral = .ok true ∧
      (∀ n ∈ r.toList, n.natAbs ≤ Number.twoTo 53) ∧ r.length ≤ Sequence.longest ∧
      (r.length : Int) ≤ Limits.standard.bound .arrayLength) ∧
    ∃ values front back : List Value, (Sequence.range r).toList = .ok values ∧
      slice [.range r, .number 0.0, k] = .ok (.list front) ∧
        slice [.range r, k] = .ok (.list back) ∧
      applyBinary .standard .add (.list front) (.list back) = .ok (.list values) := by
  intro r k
  obtain ⟨hsplit, hslice⟩ := parts_restore .standard
  obtain ⟨pieces, hpieces, hjoin, hfree⟩ := hsplit "aaa" "aa"
  have hne : "aa" ≠ "" := by decide
  have hzero : equalsInteger 0 (.number 0.0) = true := by decide +kernel
  have hk : k.isIntegral = .ok true := eq_ok_of_toOption (by decide +kernel)
  have hexact : ∀ n ∈ r.toList, n.natAbs ≤ Number.twoTo 53 :=
    fun n hn => IntRange.natAbs_le_of_isExact (by decide) hn
  have hlong : r.length ≤ Sequence.longest := IntRange.length_le_of_natAbs_le hexact
  have hlimit : (r.length : Int) ≤ Limits.standard.bound .arrayLength := by decide
  obtain ⟨n, -, -, harray⟩ := hslice (.number 0.0) k hzero hk
  have hrange : ∀ q, Sequence.range r = .range q → ∀ n ∈ q.toList, n.natAbs ≤ Number.twoTo 53 := by
    rintro q ⟨⟩
    exact hexact
  obtain ⟨values, front, back, hvalues, hfront, hback, -, hsum⟩ :=
    harray (.range r) (.range r) rfl hrange hlong hlimit
  exact ⟨⟨hne, pieces, hpieces, hjoin, hfree hne⟩, ⟨hzero, hk, hexact, hlong, hlimit⟩,
    values, front, back, hvalues, hfront, hback, hsum⟩

end Library

end Formulary
