import Formulary.Evaluation.Evaluator
import Formulary.Proofs.Magnitude

/-!
# Values that formulas compute

A native value is a boolean, a number, a string, a timestamp, a range or a list of such values: an
integer, a tuple, a moment or anything else of the host occurs in none of them.  Its ranges stay
among the whole numbers that doubles can hold, and its arrays are either countable or within the
limits.  Every operation takes native values to native values (`Native.applyBinary`,
`Native.applyUnary`, `Native.element`, `Native.buildRange`).  An operation leaves the language in
two ways only: it counts an array where the limits admit one that cannot be counted, or it takes the
difference of timestamps that are too far apart (`Native.subtract`).  What a host hands over becomes
native (`Native.normalize`), provided that the ranges in it are of this kind.
-/

set_option autoImplicit false

namespace Formulary

/-- Induction on a value: what holds of a list and of a tuple whenever it holds of their items, and
of all other values, holds of every value. -/
@[elab_as_elim]
theorem Value.byItems {motive : Value → Prop} (boolean : ∀ b, motive (.boolean b))
    (number : ∀ x, motive (.number x)) (string : ∀ s, motive (.string s))
    (timestamp : ∀ t, motive (.timestamp t)) (range : ∀ r, motive (.range r))
    (list : ∀ items, (∀ v ∈ items, motive v) → motive (.list items))
    (integer : ∀ n, motive (.integer n))
    (tuple : ∀ items, (∀ v ∈ items, motive v) → motive (.tuple items))
    (moment : ∀ m, motive (.moment m)) (null : motive .null)
    (object : ∀ typeName, motive (.object typeName)) (v : Value) : motive v := by
  refine @Value.rec motive (fun items => ∀ v ∈ items, motive v)
    boolean number string timestamp range list integer tuple moment null object ?_ ?_ v
  · intro v hv
    cases hv
  · intro first rest hfirst hrest
    exact List.forall_mem_cons.mpr ⟨hfirst, hrest⟩

/-- The fault of counting an array, where the limits admit arrays that cannot be counted. -/
def Limits.Overlong (limits : Limits) (fault : Fault) : Prop :=
  fault = .lengthTooLarge ∧
    ((Sequence.longest : Int) < limits.bound .rangeLength ∨
      (Sequence.longest : Int) < limits.bound .arrayLength)

/-- The elements of a range are whole numbers that doubles can hold. -/
def IntRange.Moderate (r : IntRange) : Prop :=
  ∀ n ∈ r.toList, n.natAbs ≤ Number.largest

/-- A value that formulas compute. -/
inductive Native (limits : Limits) : Value → Prop
  | boolean (b : Bool) : Native limits (.boolean b)
  | number (x : Float) : Native limits (.number x)
  | string (s : String) : Native limits (.string s)
  | timestamp (t : Timestamp) : Native limits (.timestamp t)
  | range {r : IntRange} : r.Moderate →
      r.length ≤ Sequence.longest ∨ (r.length : Int) ≤ limits.bound .rangeLength →
      Native limits (.range r)
  | list {vs : List Value} : (∀ v ∈ vs, Native limits v) →
      vs.length ≤ Sequence.longest ∨ (vs.length : Int) ≤ limits.bound .arrayLength →
      Native limits (.list vs)

/-! ## Outcomes -/

/-- What is expected of a computation that may leave the language. -/
def Yields {α : Type} (Good : α → Prop) (Bad : Fault → Prop) : Except Fault α → Prop
  | .ok a => Good a
  | .error fault => Bad fault

/-- What is expected of an operation: it may refuse for any cause. -/
def Tame {α : Type} (Good : α → Prop) (Bad : Fault → Prop) : Except Refusal α → Prop
  | .ok a => Good a
  | .error (.cause _) => True
  | .error (.fault fault) => Bad fault

section Outcomes

variable {α β : Type} {Good : α → Prop} {Good' : β → Prop} {Bad : Fault → Prop}

/-- A computation yields what is expected if both its steps do. -/
theorem Yields.bind {x : Except Fault α} {k : α → Except Fault β} (hx : Yields Good Bad x)
    (hk : ∀ a, Good a → Yields Good' Bad (k a)) : Yields Good' Bad (x >>= k) := by
  cases x with
  | ok a => exact hk a hx
  | error fault => exact hx

/-- What is expected of a computation can be weakened. -/
theorem Yields.mono {Good' : α → Prop} {Bad' : Fault → Prop} {x : Except Fault α}
    (hx : Yields Good Bad x) (hgood : ∀ a, Good a → Good' a)
    (hbad : ∀ fault, Bad fault → Bad' fault) : Yields Good' Bad' x := by
  cases x with
  | ok a => exact hgood a hx
  | error fault => exact hbad fault hx

/-- A computation over a list yields as many results, each as expected. -/
theorem Yields.mapM {f : α → Except Fault β} {as : List α} {Good : β → Prop}
    (h : ∀ a ∈ as, Yields Good Bad (f a)) :
    Yields (fun bs => (∀ b ∈ bs, Good b) ∧ bs.length = as.length) Bad (as.mapM f) := by
  induction as with
  | nil => exact ⟨List.forall_mem_nil _, rfl⟩
  | cons a as ih =>
    rw [List.mapM_cons]
    refine (h a List.mem_cons_self).bind fun b hb => ?_
    refine (ih fun a ha => h a (List.mem_cons_of_mem _ ha)).bind fun bs hbs => ?_
    exact ⟨List.forall_mem_cons.mpr ⟨hb, hbs.1⟩, by rw [List.length_cons, List.length_cons, hbs.2]⟩

/-- A computation that yields what is expected is tame as an operation. -/
theorem Yields.orFault {x : Except Fault α} (hx : Yields Good Bad x) :
    Tame Good Bad (Value.orFault x) := by
  cases x with
  | ok a => exact hx
  | error fault => exact hx

/-- An operation is tame if both its steps are. -/
theorem Tame.bind {x : Except Refusal α} {k : α → Except Refusal β} (hx : Tame Good Bad x)
    (hk : ∀ a, Good a → Tame Good' Bad (k a)) : Tame Good' Bad (x >>= k) := by
  cases x with
  | ok a => exact hk a hx
  | error refusal =>
    cases refusal with
    | cause c => trivial
    | fault fault => exact hx

/-- What is expected of an operation can be weakened. -/
theorem Tame.mono {Good' : α → Prop} {Bad' : Fault → Prop} {x : Except Refusal α}
    (hx : Tame Good Bad x) (hgood : ∀ a, Good a → Good' a)
    (hbad : ∀ fault, Bad fault → Bad' fault) : Tame Good' Bad' x := by
  cases x with
  | ok a => exact hgood a hx
  | error refusal =>
    cases refusal with
    | cause c => trivial
    | fault fault => exact hbad fault hx

/-- A tame operation stays tame if its result is mapped. -/
theorem Tame.map {x : Except Refusal α} {f : α → β} (hx : Tame Good Bad x)
    (hf : ∀ a, Good a → Good' (f a)) : Tame Good' Bad (x.map f) := by
  cases x with
  | ok a => exact hf a hx
  | error refusal =>
    cases refusal with
    | cause c => trivial
    | fault fault => exact hx

/-- An amount is within a limit, or it is refused. -/
theorem tame_withinLimit (limits : Limits) (kind : LimitKind) (amount : Int) :
    Tame (fun _ => amount ≤ limits.bound kind) Bad (Value.withinLimit limits kind amount) := by
  unfold Value.withinLimit Limits.check
  by_cases h : limits.bound kind < amount
  · rw [if_pos h]
    trivial
  · rw [if_neg h]
    exact Int.not_lt.mp h

end Outcomes

/-- An array that is not too long to be counted has a length. -/
theorem Sequence.length_of_size_le {s : Sequence} (h : s.size ≤ longest) : s.length = .ok s.size :=
  if_neg (Nat.not_lt.mpr h)

namespace Native

variable {limits : Limits}

/-! ## Numbers -/

/-- The number that a native value is, if it is one, is a double. -/
theorem numeric? {v : Value} (hv : Native limits v) {n : Numeric} (h : v.numeric? = some n) :
    ∃ x, n = .double x := by
  cases hv with
  | number x => exact ⟨x, (Option.some.inj h).symm⟩
  | _ => cases h

/-- The truth of a native value is tame. -/
theorem truth {v : Value} (hv : Native limits v) :
    Tame (fun _ => True) limits.Overlong v.truth := by
  cases hv with
  | boolean b => trivial
  | number x =>
    show Tame _ _ (if (Numeric.double x).isZero then _ else _)
    split <;> trivial
  | _ => trivial

/-- Both operands are doubles, or they are refused. -/
theorem bothNumbers {v w : Value} (hv : Native limits v) (hw : Native limits w)
    (operator : BinaryOp) :
    Tame (fun p => ∃ x y, p = (.double x, .double y)) limits.Overlong
      (Value.bothNumbers operator v w) := by
  unfold Value.bothNumbers
  cases hleft : v.numeric? with
  | none => trivial
  | some a =>
    cases hright : w.numeric? with
    | none => trivial
    | some b =>
      obtain ⟨x, rfl⟩ := hv.numeric? hleft
      obtain ⟨y, rfl⟩ := hw.numeric? hright
      exact ⟨x, y, rfl⟩

/-- An integer becomes a double, unless none is near it. -/
theorem toFloat_integer (n : Int) :
    Yields (fun _ => True) (fun fault => fault = .integerTooLarge ∧ Number.ofInt? n = none)
      (Numeric.integer n).toFloat := by
  rw [Numeric.toFloat]
  cases hx : Number.ofInt? n with
  | some x => trivial
  | none => exact ⟨rfl, rfl⟩

/-- An arithmetic operation on doubles yields a native value. -/
theorem arithmetic (f : Float → Float → Float) (x y : Float) :
    Tame (Native limits) limits.Overlong (Value.arithmetic f (.double x) (.double y)) :=
  Native.number _

/-- Shifting a timestamp by a double yields a native value. -/
theorem shift (t : Timestamp) (direction : Int) (x : Float) :
    Tame (Native limits) limits.Overlong (Value.shift t direction (.double x)) := by
  have hnearest : Yields (fun _ => True) limits.Overlong (Numeric.double x).nearest? := trivial
  refine hnearest.orFault.bind fun millis _ => ?_
  cases millis with
  | some millis => exact Native.timestamp _
  | none => trivial

/-- A whole number that is demanded is in the range of the doubles. -/
theorem demandWhole {v : Value} (hv : Native limits v) (context : String) :
    Tame (fun n : Int => n.natAbs ≤ Number.largest) limits.Overlong (v.demandWhole context) := by
  unfold Value.demandWhole
  cases hnumber : v.numeric? with
  | none => trivial
  | some n =>
    obtain ⟨x, rfl⟩ := hv.numeric? hnumber
    have hwhole : Yields (fun whole => Number.whole? x = whole) limits.Overlong
        (Numeric.double x).whole? := rfl
    refine hwhole.orFault.bind fun whole hwhole => ?_
    cases whole with
    | some i => exact Number.natAbs_whole?_le hwhole
    | none => trivial

/-! ## Arrays -/

/-- The value of an array. -/
def array : Sequence → Value
  | .items vs => .list vs
  | .range r => .range r

/-- A native array has a length, unless it is too long to be counted. -/
theorem length {s : Sequence} (hs : Native limits (array s)) :
    Yields (fun n => n = s.size) limits.Overlong s.length := by
  unfold Sequence.length
  by_cases hlong : Sequence.longest < s.size
  · rw [if_pos hlong]
    refine ⟨rfl, ?_⟩
    cases s with
    | items vs =>
      cases hs with
      | list _ hcount =>
        have hsize : Sequence.longest < vs.length := hlong
        exact .inr (by omega)
    | range r =>
      cases hs with
      | range _ hcount =>
        have hsize : Sequence.longest < r.length := hlong
        exact .inl (by omega)
  · rw [if_neg hlong]
    exact rfl

/-- A whole number that doubles can hold is a native element of a range. -/
theorem ofRangeElement {n : Int} (hn : n.natAbs ≤ Number.largest) :
    Yields (Native limits) limits.Overlong (Value.ofRangeElement n) := by
  obtain ⟨x, hx⟩ := Number.ofInt?_of_natAbs_le hn
  unfold Value.ofRangeElement
  rw [hx]
  exact Native.number x

/-- A native array has a list of native elements, as many as it has. -/
theorem toList {s : Sequence} (hs : Native limits (array s)) :
    Yields (fun vs => (∀ v ∈ vs, Native limits v) ∧ vs.length = s.size) limits.Overlong
      s.toList := by
  cases s with
  | items vs =>
    cases hs with
    | list hvs _ => exact ⟨hvs, rfl⟩
  | range r =>
    cases hs with
    | range hmoderate _ =>
      have hlength : r.toList.length = r.length := by simp [IntRange.toList, IntRange.part]
      show Yields (fun vs => _ ∧ vs.length = r.length) _ (r.toList.mapM Value.ofRangeElement)
      rw [← hlength]
      exact .mapM fun n hn => ofRangeElement (hmoderate n hn)

/-- The elements of a native value are native. -/
theorem items {v : Value} (hv : Native limits v) :
    Tame (fun vs => ∀ v ∈ vs, Native limits v) limits.Overlong v.items := by
  have harray : ∀ {s : Sequence}, Native limits (array s) →
      Tame (fun vs => ∀ v ∈ vs, Native limits v) limits.Overlong (Value.orFault s.toList) :=
    fun hs => ((toList hs).mono (fun _ h => h.1) fun _ h => h).orFault
  cases hv with
  | string s =>
    intro w hw
    obtain ⟨c, -, rfl⟩ := List.mem_map.mp hw
    exact .string _
  | @range r hmoderate hcount => exact harray (s := .range r) (.range hmoderate hcount)
  | @list vs hvs hcount => exact harray (s := .items vs) (.list hvs hcount)
  | _ => trivial

/-- Two arrays are joined within the limit. -/
theorem join {a b : Sequence} (ha : Native limits (array a)) (hb : Native limits (array b)) :
    Tame (Native limits) limits.Overlong (do
      let m ← Value.orFault a.length
      let n ← Value.orFault b.length
      Value.withinLimit limits .arrayLength ((m + n : Nat) : Int)
      let xs ← Value.orFault a.toList
      let ys ← Value.orFault b.toList
      return Value.list (xs ++ ys)) := by
  refine (length ha).orFault.bind fun m hm => (length hb).orFault.bind fun n hn => ?_
  refine (tame_withinLimit limits _ _).bind fun _ hwithin => ?_
  refine (toList ha).orFault.bind fun xs hxs => (toList hb).orFault.bind fun ys hys => ?_
  refine Native.list ?_ (.inr ?_)
  · intro v hv
    rcases List.mem_append.mp hv with hv | hv
    · exact hxs.1 v hv
    · exact hys.1 v hv
  · rw [List.length_append, hxs.2, hys.2, ← hm, ← hn]
    exact hwithin

/-! ## Equality -/

/-- Two native ranges can be compared, unless one is too long to be counted. -/
theorem equalRanges {r s : IntRange} (hr : Native limits (.range r))
    (hs : Native limits (.range s)) :
    Yields (fun _ => True) limits.Overlong (Value.equalRanges r s) :=
  (length (s := .range r) hr).bind fun _ _ => (length (s := .range s) hs).bind fun _ _ => trivial

/-- A native range can be compared with a list, unless it is too long to be counted. -/
theorem equalRangeList {r : IntRange} (hr : Native limits (.range r)) (vs : List Value) :
    Yields (fun _ => True) limits.Overlong (Value.equalRangeList r vs) :=
  (length (s := .range r) hr).bind fun _ _ => trivial

/-- Lists can be compared if their elements can. -/
theorem equalAll {vs ws : List Value} (hws : ∀ w ∈ ws, Native limits w)
    (h : ∀ v ∈ vs, ∀ w, Native limits w → Yields (fun _ => True) limits.Overlong (v.equal w)) :
    Yields (fun _ => True) limits.Overlong (Value.equalAll vs ws) := by
  induction vs generalizing ws with
  | nil => simp [Value.equalAll, Yields]
  | cons v vs ih =>
    cases ws with
    | nil => simp [Value.equalAll, Yields]
    | cons w ws =>
      rw [Value.equalAll]
      refine (h v List.mem_cons_self w (hws w List.mem_cons_self)).bind fun same _ => ?_
      cases same with
      | true =>
        exact ih (fun w hw => hws w (List.mem_cons_of_mem _ hw)) fun v hv =>
          h v (List.mem_cons_of_mem _ hv)
      | false => trivial

/-- Comparing native values fails only where a range cannot be counted. -/
theorem equal {v w : Value} (hv : Native limits v) (hw : Native limits w) :
    Yields (fun _ => True) limits.Overlong (v.equal w) := by
  induction hv generalizing w with
  | list hvs _ ih =>
    cases w with
    | range r =>
      rw [Value.equal]
      exact equalRangeList hw _
    | list ws =>
      cases hw with
      | list hws _ =>
        rw [Value.equal]
        split
        · exact equalAll hws fun v hv w hw => ih v hv hw
        · trivial
    | _ => cases hw <;> simp [Value.equal, Yields]
  | @range r hmoderate hcount =>
    have hr : Native limits (.range r) := .range hmoderate hcount
    cases w with
    | range s =>
      rw [Value.equal]
      exact equalRanges hr hw
    | list ws =>
      rw [Value.equal]
      exact equalRangeList hr _
    | _ => cases hw <;> simp [Value.equal, Yields]
  | boolean | number | string | timestamp => cases hw <;> simp [Value.equal, Yields]

/-! ## Operators -/

/-- The sum of native values is native. -/
theorem add {v w : Value} (hv : Native limits v) (hw : Native limits w) :
    Tame (Native limits) limits.Overlong (Value.add limits v w) := by
  cases v with
  | number x =>
    cases hw with
    | number y => exact arithmetic _ x y
    | timestamp t => exact shift t 1 x
    | _ => trivial
  | timestamp t =>
    cases hw with
    | number x => exact shift t 1 x
    | _ => trivial
  | string s =>
    cases hw with
    | string t => exact Native.string _
    | _ => trivial
  | range r =>
    cases w with
    | range r' => exact join (a := .range r) (b := .range r') hv hw
    | list ws => exact join (a := .range r) (b := .items ws) hv hw
    | _ => cases hw <;> trivial
  | list vs =>
    cases w with
    | range r => exact join (a := .items vs) (b := .range r) hv hw
    | list ws => exact join (a := .items vs) (b := .items ws) hv hw
    | _ => cases hw <;> trivial
  | _ => cases hv <;> cases hw <;> trivial

/-- An operator that takes numbers only. -/
theorem numbers {v w : Value} (hv : Native limits v) (hw : Native limits w) (operator : BinaryOp)
    (f : Float → Float → Float) :
    Tame (Native limits) limits.Overlong (do
      let (a, b) ← Value.bothNumbers operator v w
      Value.arithmetic f a b) := by
  refine (bothNumbers hv hw operator).bind ?_
  rintro _ ⟨x, y, rfl⟩
  exact arithmetic f x y

/-- The fault of an operator: besides that of counting, the difference of two timestamps may be too
large for a double. -/
def Excess (limits : Limits) (operator : BinaryOp) (v w : Value) (fault : Fault) : Prop :=
  limits.Overlong fault ∨ fault = .integerTooLarge ∧ operator = .subtract ∧
    ∃ t u, v = .timestamp t ∧ w = .timestamp u ∧ Number.ofInt? (t.millis - u.millis) = none

/-- The difference of native values is native, unless two timestamps are too far apart. -/
theorem subtract {v w : Value} (hv : Native limits v) (hw : Native limits w) :
    Tame (Native limits) (Excess limits .subtract v w) (Value.subtract v w) := by
  have hnumbers : Tame (Native limits) (Excess limits .subtract v w) (do
      let (a, b) ← Value.bothNumbers .subtract v w
      Value.arithmetic (· - ·) a b) :=
    (numbers hv hw .subtract _).mono (fun _ h => h) fun _ => .inl
  cases v with
  | timestamp t =>
    cases hw with
    | timestamp u =>
      have hdifference : Yields (fun _ => True)
          (Excess limits .subtract (.timestamp t) (.timestamp u))
          (Numeric.integer (t.millis - u.millis)).toFloat :=
        (toFloat_integer _).mono (fun _ h => h) fun _ h => .inr ⟨h.1, rfl, t, u, rfl, rfl, h.2⟩
      exact hdifference.orFault.bind fun x _ => Native.number x
    | number x => exact (shift t (-1) x).mono (fun _ h => h) fun _ => .inl
    | _ => trivial
  | _ => exact hnumbers

/-- The quotient or the remainder of native values is native. -/
theorem divideBy {v w : Value} (hv : Native limits v) (hw : Native limits w) (operator : BinaryOp)
    (f : Float → Float → Float) :
    Tame (Native limits) limits.Overlong (Value.divideBy operator f v w) := by
  refine (bothNumbers hv hw operator).bind ?_
  rintro _ ⟨x, y, rfl⟩
  dsimp only
  split
  · trivial
  · exact arithmetic f x y

/-- The answer of a comparison is native. -/
theorem compare (operator : BinaryOp) (comparison : Value.Comparison) (v w : Value) :
    Tame (Native limits) limits.Overlong (Value.compare operator comparison v w) := by
  unfold Value.compare
  split <;> first
    | exact Native.boolean _
    | trivial

/-- The answer of a logical operator on native values is native. -/
theorem connect {v w : Value} (hv : Native limits v) (hw : Native limits w)
    (f : Bool → Bool → Bool) :
    Tame (Native limits) limits.Overlong (Value.connect f v w) :=
  (truth hv).bind fun _ _ => (truth hw).bind fun _ _ => Native.boolean _

/-- Every operator takes native values to a native value. -/
theorem applyBinary {v w : Value} (hv : Native limits v) (hw : Native limits w)
    (operator : BinaryOp) :
    Tame (Native limits) (Excess limits operator v w) (Value.applyBinary limits operator v w) := by
  -- All operators but the subtraction can only fail to count.
  have hcommon : ∀ {result : Except Refusal Value}, Tame (Native limits) limits.Overlong result →
      Tame (Native limits) (Excess limits operator v w) result :=
    fun h => h.mono (fun _ h => h) fun _ => .inl
  cases operator with
  | add => exact hcommon (add hv hw)
  | subtract => exact subtract hv hw
  | multiply => exact hcommon (numbers hv hw .multiply _)
  | divide => exact hcommon (divideBy hv hw .divide _)
  | modulo => exact hcommon (divideBy hv hw .modulo _)
  | power => exact hcommon (numbers hv hw .power _)
  | equal | notEqual => exact hcommon ((equal hv hw).orFault.map fun _ _ => Native.boolean _)
  | less | greater | lessEqual | greaterEqual => exact hcommon (compare _ _ v w)
  | and | or => exact hcommon (connect hv hw _)
  | other symbol => trivial

/-- A unary operation on a native value yields a native value. -/
theorem applyUnary {v : Value} (hv : Native limits v) (operator : UnaryOp) :
    Tame (Native limits) limits.Overlong (Value.applyUnary operator v) := by
  cases operator with
  | negate =>
    unfold Value.applyUnary
    cases hnumber : v.numeric? with
    | none => trivial
    | some n =>
      obtain ⟨x, rfl⟩ := hv.numeric? hnumber
      exact Native.number _
  | not => exact (truth hv).bind fun _ _ => Native.boolean _
  | other symbol => trivial

/-! ## Access and ranges -/

/-- An index is located within the length, or it is refused. -/
theorem locate (requested : Int) (length : Nat) :
    Tame (fun position => position < length) limits.Overlong (Value.locate requested length) := by
  unfold Value.locate
  generalize (if requested < 0 then requested + length else requested) = resolved
  by_cases houtside : resolved < 0 ∨ length ≤ resolved
  · rw [if_pos houtside]
    trivial
  · rw [if_neg houtside]
    show resolved.toNat < length
    omega

/-- The element of a native value at a native index is native. -/
theorem element {v w : Value} (hv : Native limits v) (hw : Native limits w) :
    Tame (Native limits) limits.Overlong (v.element w) := by
  cases v with
  | string s =>
    exact (demandWhole hw _).bind fun _ _ => (locate _ _).bind fun _ _ => Native.string _
  | range r =>
    refine (demandWhole hw _).bind fun requested _ => ?_
    refine (length (s := .range r) hv).orFault.bind fun n hn => ?_
    refine (locate requested n).bind fun position hposition => ?_
    have hlength : n = r.length := hn
    -- A position that is located is one of an element, and elements are whole numbers in range.
    have hmem : r.get position ∈ r.toList := List.mem_map.mpr ⟨position, by simp; omega, rfl⟩
    cases hv with
    | range hmoderate _ => exact (ofRangeElement (hmoderate _ hmem)).orFault
  | list vs =>
    refine (demandWhole hw _).bind fun requested _ => ?_
    refine (locate requested vs.length).bind fun position hposition => ?_
    show Native limits (vs.getD position .null)
    rw [List.getD_eq_getElem?_getD, List.getElem?_eq_getElem hposition]
    cases hv with
    | list hvs _ => exact hvs _ (List.getElem_mem hposition)
  | _ => cases hv <;> trivial

/-- A range of step one has as many elements as its bounds are apart. -/
theorem length_upTo (first stop : Int) :
    (IntRange.upTo first stop).length = (stop - first).toNat := by
  show (if (0 : Int) < 1 then ((stop - first + 1 - 1) / 1).toNat else _) = _
  rw [if_pos Int.one_pos, Int.ediv_one, Int.add_sub_cancel]

/-- The elements of a range of step one are between its bounds. -/
theorem mem_upTo {first stop n : Int} (h : n ∈ (IntRange.upTo first stop).toList) :
    first ≤ n ∧ n < stop := by
  obtain ⟨i, hi, rfl⟩ := List.mem_map.mp h
  rw [length_upTo, List.mem_range'_1] at hi
  show first ≤ first + i * 1 ∧ first + i * 1 < stop
  omega

/-- A range that is built from native values is native. -/
theorem buildRange {v w : Value} (hv : Native limits v) (hw : Native limits w) (inclusive : Bool) :
    Tame (Native limits) limits.Overlong (Value.buildRange limits v w inclusive) := by
  refine (demandWhole hv _).bind fun a ha => (demandWhole hw _).bind fun b hb => ?_
  by_cases hinverted : b < a
  · rw [if_pos hinverted]
    trivial
  · rw [if_neg hinverted]
    refine (tame_withinLimit limits _ _).bind fun _ hwithin => ?_
    have hstop : (if inclusive then b + 1 else b) ≤ b + 1 := by split <;> omega
    have hstart : a ≤ (if inclusive then b + 1 else b) := by split <;> omega
    refine Native.range (fun n hn => ?_) (.inr ?_)
    · obtain ⟨hlow, hhigh⟩ := mem_upTo hn
      omega
    · rw [length_upTo, Int.toNat_of_nonneg (Int.sub_nonneg.mpr hstart)]
      exact hwithin

end Native

/-! ## Values of the host -/

/-- A value that a host may hand over, supported or not.  Its lists are countable, and so are its
ranges, with elements that doubles can hold. -/
inductive Value.Plain : Value → Prop
  | boolean (b : Bool) : Plain (.boolean b)
  | number (x : Float) : Plain (.number x)
  | integer (n : Int) : Plain (.integer n)
  | string (s : String) : Plain (.string s)
  | timestamp (t : Timestamp) : Plain (.timestamp t)
  | moment (m : Moment) : Plain (.moment m)
  | range {r : IntRange} : r.Moderate → r.length ≤ Sequence.longest → Plain (.range r)
  | list {vs : List Value} : (∀ v ∈ vs, Plain v) → vs.length ≤ Sequence.longest → Plain (.list vs)
  | tuple {vs : List Value} : (∀ v ∈ vs, Plain v) → vs.length ≤ Sequence.longest → Plain (.tuple vs)
  | null : Plain .null
  | object (typeName : String) : Plain (.object typeName)

namespace Value

/-- If values can be normalized, there are as many results, each the normal form of one of them. -/
theorem normalizeAll_eq_ok {vs ws : List Value} (h : normalizeAll vs = .ok ws) :
    ws.length = vs.length ∧ ∀ w ∈ ws, ∃ v ∈ vs, v.normalize = .ok w := by
  induction vs generalizing ws with
  | nil =>
    rw [normalizeAll] at h
    obtain rfl := Except.ok.inj h
    simp
  | cons v vs ih =>
    rw [normalizeAll] at h
    cases hv : v.normalize with
    | error fault => rw [hv] at h; cases h
    | ok w =>
      rw [hv] at h
      cases hrest : normalizeAll vs with
      | error fault => rw [hrest] at h; cases h
      | ok rest =>
        rw [hrest] at h
        obtain rfl := Except.ok.inj h
        obtain ⟨hlength, hmem⟩ := ih hrest
        refine ⟨congrArg (· + 1) hlength, List.forall_mem_cons.mpr ⟨⟨v, List.mem_cons_self, hv⟩,
          fun w hw => ?_⟩⟩
        obtain ⟨u, hu, hnormal⟩ := hmem w hw
        exact ⟨u, List.mem_cons_of_mem _ hu, hnormal⟩

/-- The normal form of an array of the host is the list of the normal forms of its items. -/
theorem map_normalizeAll_eq_ok {vs : List Value} {w : Value}
    (h : (normalizeAll vs).map Value.list = .ok w) :
    ∃ ws, w = .list ws ∧ ws.length = vs.length ∧ ∀ w ∈ ws, ∃ v ∈ vs, v.normalize = .ok w := by
  cases hnormal : normalizeAll vs with
  | error fault => rw [hnormal] at h; cases h
  | ok ws =>
    rw [hnormal] at h
    exact ⟨ws, (Except.ok.inj h).symm, normalizeAll_eq_ok hnormal⟩

end Value

namespace Native

variable {limits : Limits}

/-- The normal form of a host's value is native. -/
theorem normalize {v w : Value} (hv : v.Plain) (h : v.normalize = .ok w) : Native limits w := by
  induction hv generalizing w with
  | boolean | number | string | timestamp | moment =>
    obtain rfl := Except.ok.inj h
    constructor
  | range hmoderate hcount =>
    obtain rfl := Except.ok.inj h
    exact .range hmoderate (.inl hcount)
  | integer n =>
    rw [Value.normalize] at h
    split at h
    · obtain rfl := Except.ok.inj h
      exact .number _
    · cases h
  | list hvs hcount ih | tuple hvs hcount ih =>
    obtain ⟨ws, rfl, hlength, hws⟩ := Value.map_normalizeAll_eq_ok h
    refine .list (fun w hw => ?_) (.inl (by omega))
    obtain ⟨v, hv, hnormal⟩ := hws w hw
    exact ih v hv hnormal
  | null | object => cases h

end Native

end Formulary
