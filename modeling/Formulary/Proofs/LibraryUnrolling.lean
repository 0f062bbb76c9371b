import Formulary.Library.Catalogue
import Formulary.Proofs.Unrolling

/-!
# Library functions and ranges

No function of the library can tell a range from the list it stands for, as long as the range is
exact (`blind_catalogue`).  Most functions look at their arguments through the checks of
`Library.Arguments`, which refuse an array in the same words whatever form it has.  The functions of
arrays are taken one by one: some list their argument first (`blind_of_list`), others treat ranges
in a way of their own.
-/

set_option autoImplicit false

namespace Formulary.Library

open Value

/-- A function that is blind to unrolling: it does the same with its arguments unrolled. -/
def Blind (f : Function) : Prop :=
  ∀ args, SameBy unrolled (f (args.map unrolled)) (f args)

/-! ## Arguments -/

/-- Unrolling keeps the number of arguments, so that a wrong one is refused alike. -/
@[simp] theorem wrongCount_unrolled {α : Type} (function expected : String) (args : List Value) :
    (wrongCount function expected (args.map unrolled) : Except Refusal α) =
      wrongCount function expected args := by
  unfold wrongCount
  rw [List.length_map]

/-- A function without arguments is blind to unrolling. -/
theorem blind_nullary (function : String) (f : Except Refusal Value) :
    Blind (nullary function f) := by
  intro args
  cases args with
  | nil => exact .of_eq rfl
  | cons v args => exact .of_eq (wrongCount_unrolled function "0" (v :: args))

/-- A function of one argument is blind if it does the same with the argument unrolled. -/
theorem blind_unary {function : String} {f : Value → Except Refusal Value}
    (h : ∀ v, SameBy unrolled (f v.unrolled) (f v)) : Blind (unary function f) := by
  intro args
  match args with
  | [v] => exact h v
  | [] => exact .of_eq (wrongCount_unrolled function "1" [])
  | v :: w :: args => exact .of_eq (wrongCount_unrolled function "1" (v :: w :: args))

/-- A function of two arguments is blind if it does the same with both of them unrolled. -/
theorem blind_binary {function : String} {f : Value → Value → Except Refusal Value}
    (h : ∀ v w, SameBy unrolled (f v.unrolled w.unrolled) (f v w)) : Blind (binary function f) := by
  intro args
  match args with
  | [v, w] => exact h v w
  | [] => exact .of_eq (wrongCount_unrolled function "2" [])
  | [v] => exact .of_eq (wrongCount_unrolled function "2" [v])
  | v :: w :: u :: args => exact .of_eq (wrongCount_unrolled function "2" (v :: w :: u :: args))

/-- A function of three arguments is blind if it does the same with all of them unrolled. -/
theorem blind_ternary {function : String} {f : Value → Value → Value → Except Refusal Value}
    (h : ∀ v w u, SameBy unrolled (f v.unrolled w.unrolled u.unrolled) (f v w u)) :
    Blind (ternary function f) := by
  intro args
  match args with
  | [v, w, u] => exact h v w u
  | [] => exact .of_eq (wrongCount_unrolled function "3" [])
  | [v] => exact .of_eq (wrongCount_unrolled function "3" [v])
  | [v, w] => exact .of_eq (wrongCount_unrolled function "3" [v, w])
  | v :: w :: u :: u' :: args =>
    exact .of_eq (wrongCount_unrolled function "3" (v :: w :: u :: u' :: args))

/-- An unrolled argument is the same number, or refused as one. -/
@[simp] theorem number_unrolled (function argument : String) (v : Value) :
    number function argument v.unrolled = number function argument v := by
  unfold number
  rw [numeric?_unrolled, typeName_unrolled]

/-- An unrolled argument is the same whole number, or refused as one. -/
@[simp] theorem wholeNumber_unrolled (function argument : String) (v : Value) :
    wholeNumber function argument v.unrolled = wholeNumber function argument v := by
  unfold wholeNumber
  rw [numeric?_unrolled]

/-- An unrolled argument is the same string, or refused as one. -/
@[simp] theorem string_unrolled (function argument : String) (v : Value) :
    string function argument v.unrolled = string function argument v :=
  @unrolled_congr _ (string function argument)
    (refuse function (argument ++ " must be a string, got " ++ "array"))
    (fun _ => rfl) (fun _ => rfl) (fun _ => rfl) v

/-- An unrolled argument is the unrolled array, or refused as one. -/
theorem array_unrolled (function argument : String) (v : Value) :
    array function argument v.unrolled = (array function argument v).map Sequence.unrolled := by
  unfold array
  rw [sequence?_unrolled, typeName_unrolled]
  cases v.sequence? <;> rfl

/-- The parts of an argument that is unrolled. -/
def Collection.unrolled : Collection → Collection
  | .string s => .string s
  | .array s => .array s.unrolled

/-- An unrolled argument is the unrolled collection, or refused as one. -/
theorem collection_unrolled (function : String) (v : Value) :
    collection function v.unrolled = (collection function v).map Collection.unrolled := by
  unfold collection
  rw [view_unrolled, typeName_unrolled]
  cases v.view <;> rfl

/-! ## Numbers, strings, time -/

/-- The elementary functions are blind to unrolling. -/
theorem blind_elementary (function : String) (f : Float → Float) : Blind (elementary function f) :=
  blind_unary fun v => .of_eq (by rw [number_unrolled])

/-- The functions that round are blind to unrolling. -/
theorem blind_rounding (function : String) (f : Float → Float) : Blind (rounding function f) :=
  blind_unary fun v => .of_eq (by rw [number_unrolled])

/-- The functions that make durations are blind to unrolling. -/
theorem blind_duration (function : String) (unit : Float) : Blind (duration function unit) :=
  blind_unary fun v => .of_eq (by rw [number_unrolled])

/-- The function that makes a timestamp is blind to unrolling. -/
theorem blind_timestamp : Blind timestamp :=
  blind_unary fun v => .of_eq (by rw [number_unrolled])

/-- The function that takes a timestamp to milliseconds is blind to unrolling. -/
theorem blind_toMillis : Blind toMillis := by
  refine blind_unary fun v => .of_eq ?_
  exact @unrolled_congr _ (fun v => toMillis [v])
    (refuse "to_millis" ("ts must be a timestamp, got " ++ "array"))
    (fun _ => rfl) (fun _ => rfl) (fun _ => rfl) v

/-- The functions from strings to strings are blind to unrolling. -/
theorem blind_mapping (function : String) (f : String → String) : Blind (mapping function f) :=
  blind_unary fun v => .of_eq (by rw [string_unrolled])

/-- Splitting a string is blind to unrolling. -/
theorem blind_split : Blind split :=
  blind_binary fun v w => .of_eq (by rw [string_unrolled, string_unrolled])

/-- The test of how a string starts is blind to unrolling. -/
theorem blind_startsWith : Blind startsWith :=
  blind_binary fun v w => .of_eq (by rw [string_unrolled, string_unrolled])

/-- The test of how a string ends is blind to unrolling. -/
theorem blind_endsWith : Blind endsWith :=
  blind_binary fun v w => .of_eq (by rw [string_unrolled, string_unrolled])

/-- Replacing in a string is blind to unrolling. -/
theorem blind_replace : Blind replace :=
  blind_ternary fun v w u => .of_eq (by rw [string_unrolled, string_unrolled, string_unrolled])

/-- The text of a value is blind to unrolling. -/
theorem blind_toString : Blind toString := by
  refine blind_unary fun v => .of_eq ?_
  rw [view_unrolled, typeName_unrolled]
  cases v.view <;> rfl

/-- The number that a value denotes is blind to unrolling. -/
theorem blind_toNumber : Blind toNumber := by
  refine blind_unary fun v => .of_eq ?_
  rw [view_unrolled, typeName_unrolled]
  cases v.view <;> rfl

/-- The name of a value's type is blind to unrolling. -/
theorem blind_typeOf : Blind typeOf :=
  blind_unary fun v => .of_eq (by rw [typeName_unrolled])

/-! ## Listing the elements -/

/-- A list is the same as the list of its unrolled elements, up to unrolling. -/
theorem sameBy_list (vs : List Value) :
    SameBy unrolled (.ok (.list (vs.map unrolled)) : Except Refusal Value) (.ok (.list vs)) := by
  refine .ok ?_
  rw [← unrolled_list, unrolled_unrolled]

/-- A function that lists an array and goes on with its elements. -/
theorem blind_of_list {function argument : String} {f : List Value → Except Refusal Value}
    (h : ∀ vs, SameBy unrolled (f (vs.map unrolled)) (f vs)) :
    Blind (unary function fun v => do
      let elements ← array function argument v
      let values ← Value.orFault elements.toList
      f values) := by
  refine blind_unary fun v => ?_
  rw [array_unrolled]
  cases array function argument v with
  | error refusal => exact .of_eq rfl
  | ok elements => exact elements.sameBy_toList.orFault.bind fun vs ws hlists => .transfer h hlists

/-- The sum of an array is blind to unrolling. -/
theorem blind_sum : Blind sum := by
  apply blind_of_list
  intro vs
  refine .of_eq ?_
  rw [List.foldlM_map]
  simp only [number_unrolled]

/-- Unrolled elements are the same numbers, or refused as such. -/
theorem mapM_number_unrolled (function : String) (vs : List Value) :
    (vs.map unrolled).mapM (number function "value") = vs.mapM (number function "value") := by
  rw [List.mapM_map]
  congr 1
  funext v
  exact number_unrolled function "value" v

/-- The numbers among which to choose are the same. -/
theorem candidates_unrolled (function : String) (args : List Value) :
    candidates function (args.map unrolled) = candidates function args := by
  have hargs : ∀ vs : List Value,
      (if (vs.map unrolled).isEmpty then refuse function "expected at least one number"
      else (vs.map unrolled).mapM (number function "value")) = if vs.isEmpty then
        refuse function "expected at least one number" else vs.mapM (number function "value") := by
    intro vs
    rw [List.isEmpty_map, mapM_number_unrolled]
  unfold candidates
  match args with
  | [v] =>
    simp only [List.map_cons, List.map_nil, sequence?_unrolled]
    cases v.sequence? with
    | none => exact hargs [v]
    | some a =>
      show (Value.orFault a.unrolled.toList >>= _) = Value.orFault a.toList >>= _
      rw [a.toList_unrolled]
      cases a.toList with
      | error fault => rfl
      | ok vs => exact hargs vs
  | [] => exact hargs []
  | v :: w :: args => exact hargs (v :: w :: args)

/-- The functions that choose an element are blind to unrolling. -/
theorem blind_choose (function : String) (better : Numeric → Numeric → Bool) :
    Blind (choose function better) := by
  intro args
  refine .of_eq ?_
  unfold choose
  rw [candidates_unrolled]

/-! ### Distinct elements -/

/-- Unrolling makes no difference to whether a value equals one of several others. -/
theorem anyM_unrolled (v : Value) (found : List Value) :
    (found.map unrolled).anyM v.unrolled.equal = found.anyM v.equal := by
  induction found with
  | nil => rfl
  | cons w found ih => rw [List.map_cons, List.anyM, List.anyM, equal_unrolled, ih]

/-- Unrolling makes no difference to whether a value is kept as a distinct one. -/
theorem addDistinct_unrolled (found : List Value) (v : Value) :
    addDistinct (found.map unrolled) v.unrolled = (addDistinct found v).map
      (List.map unrolled) := by
  unfold addDistinct
  rw [anyM_unrolled]
  cases found.anyM v.equal with
  | error fault => rfl
  | ok known =>
    cases known with
    | true => rfl
    | false =>
      show Except.ok (found.map unrolled ++ [v.unrolled]) = .ok ((found ++ [v]).map unrolled)
      rw [List.map_append]
      rfl

/-- The loop over distinct elements commutes with unrolling. -/
theorem foldlM_addDistinct_unrolled (vs found : List Value) :
    (vs.map unrolled).foldlM addDistinct (found.map unrolled) =
      (vs.foldlM addDistinct found).map (List.map unrolled) := by
  induction vs generalizing found with
  | nil => rfl
  | cons v vs ih =>
    rw [List.map_cons, List.foldlM_cons, List.foldlM_cons, addDistinct_unrolled]
    cases addDistinct found v with
    | error fault => rfl
    | ok more => exact ih more

/-- Taking the distinct elements is blind to unrolling. -/
theorem blind_unique : Blind unique := by
  apply blind_of_list
  intro vs
  have hdistinct := foldlM_addDistinct_unrolled vs []
  rw [List.map_nil] at hdistinct
  rw [hdistinct]
  cases vs.foldlM addDistinct [] with
  | error fault => exact .of_eq rfl
  | ok distinct => exact sameBy_list distinct

/-! ### Sorting -/

/-- If keys do not depend on unrolling, pairing values with their keys commutes with it. -/
theorem keyed_unrolled {α : Type} {key? : Value → Option α} (h : ∀ v, key? v.unrolled = key? v)
    (vs : List Value) :
    (vs.map unrolled).mapM (fun v => (key? v).map fun key => (key, v)) =
      (vs.mapM fun v => (key? v).map fun key => (key, v)).map
        (List.map (Prod.map id unrolled)) := by
  induction vs with
  | nil => rfl
  | cons v vs ih =>
    rw [List.map_cons, List.mapM_cons, List.mapM_cons, ih, h v]
    cases key? v with
    | none => rfl
    | some key => cases vs.mapM fun v => (key? v).map fun key => (key, v) <;> rfl

/-- Values are sorted by keys that unrolling does not change. -/
theorem sortBy_unrolled {α : Type} {key? : Value → Option α} (h : ∀ v, key? v.unrolled = key? v)
    (lt : α → α → Bool) (vs : List Value) :
    sortBy key? lt (vs.map unrolled) = (sortBy key? lt vs).map (List.map unrolled) := by
  unfold sortBy
  rw [keyed_unrolled h]
  cases vs.mapM fun v => (key? v).map fun key => (key, v) with
  | none => rfl
  | some keyed =>
    have hsorted : (keyed.map (Prod.map id unrolled)).mergeSort (fun a b => !lt b.1 a.1) =
        (keyed.mergeSort fun a b => !lt b.1 a.1).map (Prod.map id unrolled) := by
      symm
      apply List.map_mergeSort
      intro a _ b _
      rfl
    show some (((keyed.map (Prod.map id unrolled)).mergeSort fun a b => !lt b.1 a.1).map (·.2)) =
      some (((keyed.mergeSort fun a b => !lt b.1 a.1).map (·.2)).map unrolled)
    rw [hsorted, List.map_map, List.map_map]
    rfl

/-- The text of a value does not depend on unrolling. -/
theorem text?_unrolled (v : Value) : text? v.unrolled = text? v :=
  @unrolled_congr _ text? none (fun _ => rfl) (fun _ => rfl) (fun _ => rfl) v

/-- The milliseconds of a value do not depend on unrolling. -/
theorem millis?_unrolled (v : Value) : millis? v.unrolled = millis? v :=
  @unrolled_congr _ millis? none (fun _ => rfl) (fun _ => rfl) (fun _ => rfl) v

/-- Sorting is blind to unrolling. -/
theorem blind_sort : Blind sort := by
  apply blind_of_list
  intro vs
  have hnames : (vs.map unrolled).map typeName = vs.map typeName := by
    rw [List.map_map]
    exact List.map_congr_left fun v _ => typeName_unrolled v
  simp only [sortBy_unrolled numeric?_unrolled, sortBy_unrolled text?_unrolled,
    sortBy_unrolled millis?_unrolled, hnames]
  cases sortBy numeric? Numeric.lt vs with
  | some result => exact sameBy_list result
  | none =>
    cases sortBy text? (fun s t => decide (s < t)) vs with
    | some result => exact sameBy_list result
    | none =>
      cases sortBy millis? (fun s t => decide (s < t)) vs with
      | some result => exact sameBy_list result
      | none => exact .of_eq rfl

/-! ## Ranges treated in a way of their own -/

/-- The length is blind to unrolling. -/
theorem blind_length : Blind length := by
  refine blind_unary fun v => .of_eq ?_
  rw [collection_unrolled]
  cases collection "len" v with
  | error refusal => rfl
  | ok parts =>
    cases parts with
    | string s => rfl
    | array a =>
      show (Value.orFault a.unrolled.length >>= _) = Value.orFault a.length >>= _
      rw [a.length_unrolled]

/-- A cut of mapped elements is the cut mapped. -/
theorem cut_map {α β : Type} (f : α → β) (as : List α) (start : Int) (stop : Option Int) :
    Text.cut (as.map f) start stop = (Text.cut as start stop).map f := by
  unfold Text.cut
  rw [List.length_map, List.map_drop, List.map_take]

/-- An offset is clamped to the length at most. -/
theorem clampOffset_le (length : Nat) (offset : Int) : Text.clampOffset length offset ≤ length := by
  unfold Text.clampOffset
  split <;> omega

/-- A part of a range of integers that are doubles is the part of its numbers between the same
offsets. -/
theorem cut_numbers {r : IntRange} (h : ∀ n ∈ r.toList, n.natAbs ≤ Number.twoTo 53) (first : Int)
    (last : Option Int) :
    (r.part (Text.clampOffset r.length first)
      ((last.map (Text.clampOffset r.length)).getD r.length)).mapM
      ofRangeElement = .ok (Text.cut (r.toList.map ofExact) first last) := by
  have hhigh : (last.map (Text.clampOffset r.length)).getD r.length ≤ r.length := by
    cases last with
    | none => exact Nat.le_refl _
    | some offset => exact clampOffset_le _ _
  have hcut : Text.cut r.toList first last =
      r.part (Text.clampOffset r.length first)
        ((last.map (Text.clampOffset r.length)).getD r.length) := by
    rw [r.part_eq hhigh]
    unfold Text.cut
    rw [r.length_toList]
    cases last <;> rfl
  rw [cut_map, hcut]
  apply mapM_ofRangeElement_exact
  intro n hn
  rw [r.part_eq hhigh] at hn
  exact h n (List.mem_of_mem_take (List.mem_of_mem_drop hn))

/-- The part of a collection between two offsets. -/
def Collection.cut (first : Int) (last : Option Int) : Collection → Except Refusal Value
  | .string s => .ok (.string (String.ofList (Text.cut s.toList first last)))
  | .array (.items vs) => .ok (.list (Text.cut vs first last))
  | .array (.range r) => do
    let low := Text.clampOffset r.length first
    let high := (last.map (Text.clampOffset r.length)).getD r.length
    let numbers ← Value.orFault ((r.part low high).mapM Value.ofRangeElement)
    return .list numbers

/-- A cut of an unrolled collection is the same up to unrolling. -/
theorem Collection.cut_unrolled (first : Int) (last : Option Int) (parts : Collection) :
    SameBy Value.unrolled (parts.unrolled.cut first last) (parts.cut first last) := by
  cases parts with
  | string s => exact .of_eq rfl
  | array a =>
    cases a with
    | items vs =>
      show SameBy Value.unrolled (.ok (.list (Text.cut (vs.map Value.unrolled) first last))) _
      rw [cut_map]
      exact sameBy_list _
    | range r =>
      refine .of_eq ?_
      show Collection.cut first last
        (.array (if r.isExact then .items (r.toList.map ofExact) else .range r)) = _
      by_cases h : r.isExact = true
      · rw [if_pos h, Collection.cut, Collection.cut, cut_numbers fun _ hn =>
          IntRange.natAbs_le_of_isExact h hn]
        rfl
      · rw [if_neg h]

/-- The slice without an end cuts from its start on. -/
theorem slicePart_none (v start : Value) : slicePart v start none = (do
    let parts ← collection "slice" v
    let first ← wholeNumber "slice" "start" start
    parts.cut first none) :=
  rfl

/-- The slice with an end cuts between its start and its end. -/
theorem slicePart_some (v start stop : Value) : slicePart v start (some stop) = (do
    let parts ← collection "slice" v
    let first ← wholeNumber "slice" "start" start
    let last ← (wholeNumber "slice" "end" stop).map some
    parts.cut first last) :=
  rfl

/-- Slicing with unrolled arguments is the same up to unrolling. -/
theorem slicePart_unrolled (v start : Value) (stop : Option Value) :
    SameBy unrolled (slicePart v.unrolled start.unrolled (stop.map unrolled))
      (slicePart v start stop) := by
  cases stop with
  | none =>
    rw [Option.map_none, slicePart_none, slicePart_none, collection_unrolled, wholeNumber_unrolled]
    cases collection "slice" v with
    | error refusal => exact .of_eq rfl
    | ok parts => exact .bind_same fun first _ => parts.cut_unrolled first none
  | some stop =>
    rw [Option.map_some, slicePart_some, slicePart_some, collection_unrolled, wholeNumber_unrolled,
      wholeNumber_unrolled]
    cases collection "slice" v with
    | error refusal => exact .of_eq rfl
    | ok parts =>
      exact .bind_same fun first _ => .bind_same fun last _ => parts.cut_unrolled first last

/-- Slicing is blind to unrolling. -/
theorem blind_slice : Blind slice := by
  intro args
  match args with
  | [v, start] => exact slicePart_unrolled v start none
  | [v, start, stop] => exact slicePart_unrolled v start (some stop)
  | [] => exact .of_eq (wrongCount_unrolled "slice" "2-3" [])
  | [v] => exact .of_eq (wrongCount_unrolled "slice" "2-3" [v])
  | v :: w :: u :: u' :: args =>
    exact .of_eq (wrongCount_unrolled "slice" "2-3" (v :: w :: u :: u' :: args))

/-! ### Membership -/

/-- Unrolling makes no difference to whether a value is among several others. -/
theorem anyEqual_unrolled (search : Value) (vs : List Value) :
    anyEqual search.unrolled (vs.map unrolled) = anyEqual search vs := by
  induction vs with
  | nil => rfl
  | cons v vs ih => rw [List.map_cons, anyEqual, anyEqual, equal_unrolled, ih]

/-- A value is among the numbers of exact integers if and only if it equals one of the integers. -/
theorem anyEqual_numbers (search : Value) {ns : List Int}
    (h : ∀ n ∈ ns, n.natAbs ≤ Number.twoTo 53) :
    anyEqual search (ns.map ofExact) = .ok (ns.any fun n => equalsInteger n search) := by
  induction ns with
  | nil => rfl
  | cons n ns ih =>
    rw [List.map_cons, anyEqual, ofExact_equal (h n List.mem_cons_self), List.any_cons,
      ih fun n hn => h n (List.mem_cons_of_mem _ hn)]
    show (if equalsInteger n search then _ else _) = _
    cases equalsInteger n search <;> rfl

/-- The integer that a value is, if it is one. -/
def wholeOf (v : Value) : Option Int :=
  match v.numeric? with
  | some (.double x) => Number.whole? x
  | some (.integer n) => some n
  | none => none

/-- A value equals an integer if and only if it is that integer. -/
theorem equalsInteger_iff (n : Int) (v : Value) :
    equalsInteger n v = true ↔ wholeOf v = some n := by
  unfold equalsInteger wholeOf
  cases v.numeric? with
  | none => simp
  | some a =>
    cases a with
    | double x =>
      rw [Number.whole?_eq_some_iff]
      exact Numeric.equal_integer_iff (.double x) n
    | integer m =>
      refine (Numeric.equal_integer_iff (.integer m) n).trans ?_
      show some (Number.placeOfInt m) = _ ↔ some m = some n
      rw [Option.some.injEq, Option.some.injEq, Number.placeOfInt_inj]

/-- An element of a range is equal to a value exactly if the value is an integer that the range
contains. -/
theorem any_equalsInteger (r : IntRange) (search : Value) :
    (r.toList.any fun n => equalsInteger n search) = (wholeOf search).any r.contains := by
  rw [Bool.eq_iff_iff, List.any_eq_true, Option.any_eq_true]
  constructor
  · rintro ⟨n, hn, hequal⟩
    exact ⟨n, (equalsInteger_iff n search).mp hequal, (r.contains_iff_mem n).mpr hn⟩
  · rintro ⟨n, hwhole, hcontains⟩
    exact ⟨n, (r.contains_iff_mem n).mp hcontains, (equalsInteger_iff n search).mpr hwhole⟩

/-- Whether a collection has a part or an element. -/
def Collection.has (search : Value) : Collection → Except Refusal Value
  | .string s => do
    let pattern ← Library.string "contains" "search" search
    return .boolean (Text.occursIn pattern.toList s.toList)
  | .array (.items vs) => do
    let found ← Value.orFault (anyEqual search vs)
    return .boolean found
  | .array (.range r) => .ok (.boolean ((wholeOf search).any r.contains))

/-- Membership is asked of the collection that the first argument is. -/
theorem contains_pair (v search : Value) :
    contains [v, search] = (collection "contains" v >>= Collection.has search) :=
  rfl

/-- The integer that a value is does not depend on unrolling. -/
theorem wholeOf_unrolled (v : Value) : wholeOf v.unrolled = wholeOf v := by
  unfold wholeOf
  rw [numeric?_unrolled]

/-- Unrolling makes no difference to what a collection has. -/
theorem Collection.has_unrolled (search : Value) (parts : Collection) :
    parts.unrolled.has search.unrolled = parts.has search := by
  cases parts with
  | string s =>
    show (Library.string "contains" "search" search.unrolled >>= _) = _
    rw [string_unrolled]
    rfl
  | array a =>
    cases a with
    | items vs =>
      show (Value.orFault (anyEqual search.unrolled (vs.map Value.unrolled)) >>= _) = _
      rw [anyEqual_unrolled]
      rfl
    | range r =>
      show Collection.has search.unrolled
        (.array (if r.isExact then .items (r.toList.map ofExact) else .range r)) = _
      by_cases h : r.isExact = true
      · rw [if_pos h, Collection.has, Collection.has,
          anyEqual_numbers search.unrolled fun n hn => IntRange.natAbs_le_of_isExact h hn,
            any_equalsInteger,
          wholeOf_unrolled]
        rfl
      · rw [if_neg h, Collection.has, Collection.has, wholeOf_unrolled]

/-- Membership is blind to unrolling. -/
theorem blind_contains : Blind contains := by
  refine blind_binary fun v search => .of_eq ?_
  show contains [v.unrolled, search.unrolled] = contains [v, search]
  rw [contains_pair, contains_pair, collection_unrolled]
  cases collection "contains" v with
  | error refusal => rfl
  | ok parts => exact parts.has_unrolled search

/-! ### Joining -/

/-- The strings of a list are its first element, which has to be one, and those of the others. -/
theorem allStrings_cons (index : Nat) (v : Value) (vs : List Value) :
    allStrings index (v :: vs) = (text? v).elim
    (refuse "join" ("expected string element, got " ++ v.typeName ++ " at index " ++
      countText index))
    fun s => do
      let rest ← allStrings (index + 1) vs
      return s :: rest := by
  cases v <;> rfl

/-- Unrolling makes no difference to the strings of a list. -/
theorem allStrings_unrolled (index : Nat) (vs : List Value) :
    allStrings index (vs.map unrolled) = allStrings index vs := by
  induction vs generalizing index with
  | nil => rfl
  | cons v vs ih =>
    rw [List.map_cons, allStrings_cons, allStrings_cons, text?_unrolled, typeName_unrolled, ih]

/-- The elements of an array that are looked at when it is joined: the first one of a range is
refused. -/
def joined : Sequence → List Value
  | .items vs => vs
  | .range r => (r.part 0 (Nat.min 1 r.length)).map .integer

/-- Two arguments are joined by taking the strings of the first and putting the second between
them. -/
theorem join_pair (v separator : Value) : join [v, separator] = (do
    let elements ← array "join" "a" v
    let between ← string "join" "separator" separator
    let strings ← allStrings 0 (joined elements)
    return .string (between.intercalate strings)) :=
  rfl

/-- The numbers of an exact range are refused as its elements are. -/
theorem allStrings_joined (a : Sequence) :
    allStrings 0 (joined a.unrolled) = allStrings 0 (joined a) := by
  cases a with
  | items vs => exact allStrings_unrolled 0 vs
  | range r =>
    show allStrings 0 (joined (if r.isExact then .items (r.toList.map ofExact) else .range r)) = _
    by_cases h : r.isExact = true
    · have hfront : r.part 0 (Nat.min 1 r.length) = r.toList.take (Nat.min 1 r.length) :=
        r.part_eq (Nat.min_le_right 1 r.length)
      rw [if_pos h, joined, joined, hfront, ← r.length_toList]
      cases r.toList with
      | nil => rfl
      | cons n ns =>
        have hone : Nat.min 1 (n :: ns).length = 1 := Nat.min_eq_left (Nat.succ_pos _)
        rw [hone]
        rfl
    · rw [if_neg h]

/-- Joining is blind to unrolling. -/
theorem blind_join : Blind join := by
  refine blind_binary fun v separator => .of_eq ?_
  show join [v.unrolled, separator.unrolled] = join [v, separator]
  rw [join_pair, join_pair, array_unrolled, string_unrolled]
  cases array "join" "a" v with
  | error refusal => rfl
  | ok elements =>
    show (string "join" "separator" separator >>= fun between =>
      allStrings 0 (joined elements.unrolled) >>= fun strings => _) = _
    rw [allStrings_joined]
    rfl

/-! ## The catalogue -/

/-- All functions of the library are blind to unrolling. -/
theorem blind_catalogue (clock : Timestamp) : ∀ entry ∈ catalogue clock, Blind entry.2 := by
  simp only [catalogue, List.forall_mem_cons]
  exact ⟨blind_elementary _ _, blind_rounding _ _, blind_rounding _ _, blind_rounding _ _,
    blind_elementary _ _, blind_choose _ _, blind_choose _ _, blind_elementary _ _,
    blind_elementary _ _, blind_elementary _ _, blind_elementary _ _, blind_elementary _ _,
    blind_elementary _ _, blind_length, blind_mapping _ _, blind_mapping _ _, blind_mapping _ _,
    blind_slice, blind_contains, blind_split, blind_replace, blind_startsWith, blind_endsWith,
    blind_sort, blind_unique, blind_join, blind_sum, blind_toString, blind_toNumber, blind_typeOf,
    blind_nullary _ _, blind_timestamp, blind_toMillis, blind_duration _ _, blind_duration _ _,
    blind_duration _ _, blind_duration _ _, blind_duration _ _, List.forall_mem_nil _⟩

/-- Every function of the library is blind to unrolling. -/
theorem blind_of_find? {clock : Timestamp} {name : String} {f : Function}
    (h : find? clock name = some f) :
    Blind f := by
  obtain ⟨before, after, hsplit, -⟩ := List.lookup_eq_some_iff.mp h
  have hmem : (name, f) ∈ catalogue clock := by
    rw [hsplit]
    simp
  exact blind_catalogue clock _ hmem

/-- An entry for another name makes no difference to what is found. -/
theorem lookup_append_cons {α : Type} {name other : String} (h : name ≠ other) (a : α)
    (before after : List (String × α)) :
    (before ++ (other, a) :: after).lookup name = (before ++ after).lookup name := by
  induction before with
  | nil =>
    rw [List.nil_append, List.nil_append, List.lookup_cons, beq_eq_false_iff_ne.mpr h]
  | cons entry before ih =>
    rw [List.cons_append, List.cons_append, List.lookup_cons, List.lookup_cons, ih]

/-- Of all functions only `now` depends on the clock. -/
theorem find?_of_ne_now {name : String} (h : name ≠ "now") (clock clock' : Timestamp) :
    find? clock name = find? clock' name := by
  have hsplit : ∀ clock, catalogue clock =
      (catalogue ⟨0⟩).take 30 ++ ("now", now clock) :: (catalogue ⟨0⟩).drop 31 := fun _ => rfl
  unfold find?
  rw [hsplit clock, hsplit clock', lookup_append_cons h, lookup_append_cons h]

end Formulary.Library
