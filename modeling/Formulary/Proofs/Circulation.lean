import Formulary.Proofs.Escape

/-!
# The values that circulate

The values of a state are those that names are bound to, in whichever scope, and those that
functions of the host have been called with.  A kind of normal values that has all scalars, the
arrays that the limits admit, and what the host supplies and replies with (`Context.Closes`) is not
left by any operation of the language.  So it is the only one that ever circulates: it is kept from
the first state of an evaluation on, at each node that the evaluation comes to
(`Evaluation.Reaches.stocked`).  The normal values are such a kind, whatever the host supplies
(`Evaluation.reaches_normal`).
-/

set_option autoImplicit false

namespace Formulary

variable {σ : Type}

/-! ## The values of a state -/

/-- The values of a table. -/
def Bindings.values (table : Bindings) : List Value :=
  table.entries.map (·.2)

/-- The values of all tables of a chain. -/
def Scope.values (scope : Scope) : List Value :=
  (scope.inner ++ [scope.root]).flatMap Bindings.values

/-- The values that names are bound to and those that functions have been called with. -/
def State.values (s : State σ) : List Value :=
  s.scope.values ++ s.calls.flatMap (·.arguments)

namespace Bindings

/-- Inserting into the entries of a table adds the new one at most. -/
theorem mem_insertInto {name : String} {v : Value} {entries : List (String × Value)}
    {entry : String × Value} (h : entry ∈ insertInto name v entries) :
    entry = (name, v) ∨ entry ∈ entries := by
  induction entries with
  | nil => exact .inl (List.mem_singleton.mp h)
  | cons other rest ih =>
    obtain ⟨key, w⟩ := other
    rw [insertInto] at h
    by_cases hkey : key = name
    · rw [if_pos hkey] at h
      exact (List.mem_cons.mp h).imp_right (List.mem_cons_of_mem _)
    · rw [if_neg hkey] at h
      rcases List.mem_cons.mp h with rfl | h
      · exact .inr List.mem_cons_self
      · exact (ih h).imp_right (List.mem_cons_of_mem _)

/-- Inserting into a table adds the new value at most. -/
theorem mem_values_insert {table : Bindings} {name : String} {v w : Value}
    (h : w ∈ (table.insert name v).values) : w = v ∨ w ∈ table.values := by
  obtain ⟨entry, hentry, rfl⟩ := List.mem_map.mp h
  rcases mem_insertInto hentry with rfl | hentry
  · exact .inl rfl
  · exact .inr (List.mem_map_of_mem hentry)

/-- A value that is found in a table is one of its values. -/
theorem mem_values_of_find? {table : Bindings} {name : String} {v : Value}
    (h : table.find? name = some v) :
    v ∈ table.values := by
  obtain ⟨before, after, hsplit, -⟩ := List.lookup_eq_some_iff.mp h
  have hentry : (name, v) ∈ table.entries := by
    rw [hsplit]
    exact List.mem_append_right _ List.mem_cons_self
  exact List.mem_map_of_mem hentry

end Bindings

namespace Scope

/-- The values of a chain are those of its inner tables and of the root. -/
theorem mem_values_iff {scope : Scope} {v : Value} :
    v ∈ scope.values ↔ (∃ table ∈ scope.inner, v ∈ table.values) ∨ v ∈ scope.root.values := by
  unfold values
  rw [List.flatMap_append, List.mem_append, List.mem_flatMap, List.flatMap_singleton]

/-- Binding a name adds the new value at most. -/
theorem mem_values_bind {scope : Scope} {name : String} {v w : Value}
    (h : w ∈ (scope.bind name v).values) :
    w = v ∨ w ∈ scope.values := by
  obtain ⟨inner, root⟩ := scope
  rw [mem_values_iff] at h ⊢
  cases inner with
  | nil =>
    rcases h with ⟨table, htable, -⟩ | h
    · cases htable
    · exact (Bindings.mem_values_insert h).imp_right .inr
  | cons first outer =>
    rcases h with ⟨table, htable, h⟩ | h
    · rcases List.mem_cons.mp htable with rfl | htable
      · exact (Bindings.mem_values_insert h).imp_right fun h => .inl ⟨first, List.mem_cons_self, h⟩
      · exact .inr (.inl ⟨table, List.mem_cons_of_mem _ htable, h⟩)
    · exact .inr (.inr h)

/-- A new table adds no value. -/
theorem mem_values_push {scope : Scope} {v : Value} (h : v ∈ scope.push.values) :
    v ∈ scope.values := by
  rw [mem_values_iff] at h ⊢
  rcases h with ⟨table, htable, h⟩ | h
  · rcases List.mem_cons.mp htable with rfl | htable
    · cases h
    · exact .inl ⟨table, htable, h⟩
  · exact .inr h

/-- A value that is looked up is one of the values of the chain. -/
theorem mem_values_of_lookup? {scope : Scope} {name : String} {v : Value}
    (h : scope.lookup? name = some v) :
    v ∈ scope.values := by
  rw [mem_values_iff]
  unfold lookup? at h
  cases hinner : scope.inner.findSome? (·.find? name) with
  | some w =>
    rw [hinner] at h
    obtain rfl := Option.some.inj h
    obtain ⟨table, htable, hfind⟩ := List.exists_of_findSome?_eq_some hinner
    exact .inl ⟨table, htable, Bindings.mem_values_of_find? hfind⟩
  | none =>
    rw [hinner] at h
    exact .inr (Bindings.mem_values_of_find? h)

end Scope

/-! ## Normal values -/

/-- The values of the language: an integer, a tuple, a moment or anything else of the host occurs in
none of them. -/
inductive Value.Normal : Value → Prop
  | boolean (b : Bool) : Normal (.boolean b)
  | number (x : Float) : Normal (.number x)
  | string (s : String) : Normal (.string s)
  | timestamp (t : Timestamp) : Normal (.timestamp t)
  | range (r : IntRange) : Normal (.range r)
  | list {vs : List Value} : (∀ v ∈ vs, Normal v) → Normal (.list vs)

namespace Value

/-- Values that are all normal are left as they are. -/
theorem normalizeAll_eq {vs : List Value} (h : ∀ v ∈ vs, v.normalize = .ok v) :
    normalizeAll vs = .ok vs := by
  induction vs with
  | nil => rfl
  | cons v vs ih =>
    rw [normalizeAll, h v List.mem_cons_self, ih fun v hv => h v (List.mem_cons_of_mem _ hv)]
    rfl

/-- Normal values are their own normal forms. -/
theorem Normal.normalize_eq {v : Value} (hv : v.Normal) : v.normalize = .ok v := by
  induction hv with
  | boolean | number | string | timestamp | range => rfl
  | list _ ih =>
    rw [normalize, normalizeAll_eq ih]
    rfl

/-- The normal form of a host's value is normal. -/
theorem normal_of_normalize {v w : Value} (h : v.normalize = .ok w) : w.Normal := by
  induction v using byItems generalizing w with
  | boolean | number | string | timestamp | range | moment =>
    obtain rfl := Except.ok.inj h
    constructor
  | integer n =>
    rw [normalize] at h
    split at h
    · obtain rfl := Except.ok.inj h
      exact .number _
    · cases h
  | list items ih | tuple items ih =>
    obtain ⟨ws, rfl, -, hws⟩ := map_normalizeAll_eq_ok h
    refine .list fun w hw => ?_
    obtain ⟨v, hv, hnormal⟩ := hws w hw
    exact ih v hv hnormal
  | null | object => cases h

end Value

/-! ## Kinds of values -/

/-- A kind of normal values that evaluation in a context does not leave: the scalars are of this
kind, and so are the arrays that the limits admit, those that the host supplies and those that it
replies with. -/
structure Context.Closes (context : Context σ) (Good : Value → Prop) : Prop where
  normal : ∀ v, Good v → v.Normal
  number : ∀ x, Good (.number x)
  string : ∀ s, Good (.string s)
  boolean : ∀ b, Good (.boolean b)
  timestamp : ∀ t, Good (.timestamp t)
  list : ∀ vs : List Value, (∀ v ∈ vs, Good v) →
    (vs.length : Int) ≤ context.limits.bound .arrayLength →
    Good (.list vs)
  items : ∀ vs, Good (.list vs) → ∀ v ∈ vs, Good v
  range : ∀ first stop, first ≤ stop → stop - first ≤ context.limits.bound .rangeLength →
    Good (.range (.upTo first stop))
  supplied : ∀ entry ∈ context.supplied, ∀ w, entry.2.normalize = .ok w → Good w
  returned : ∀ name run, context.callee? name = some (.function run) →
    ∀ args, (∀ v ∈ args, Good v) →
    ∀ host v w, (run args host).1 = .returned v → v.normalize = .ok w → Good w

/-- Where nothing is expected of an outcome, every outcome is as expected. -/
theorem tame_any {α : Type} (result : Except Refusal α) :
    Tame (fun _ => True) (fun _ => True) result := by
  rcases result with refusal | a
  · cases refusal <;> trivial
  · trivial

/-- If an array has a length, it is the number of its elements. -/
theorem Sequence.length_yields (s : Sequence) :
    Yields (fun n => n = s.size) (fun _ => True) s.length := by
  unfold length
  split
  · trivial
  · exact rfl

namespace Context.Closes

variable {context : Context σ} {Good : Value → Prop} (hgood : context.Closes Good)
include hgood

/-- An arithmetic operation yields a value of the kind. -/
theorem arithmetic (f : Float → Float → Float) (a b : Numeric) :
    Tame Good (fun _ => True) (Value.arithmetic f a b) :=
  (tame_any _).bind fun _ _ => (tame_any _).bind fun _ _ => hgood.number _

/-- A timestamp that is shifted yields a value of the kind. -/
theorem shift (t : Timestamp) (direction : Int) (n : Numeric) :
    Tame Good (fun _ => True) (Value.shift t direction n) := by
  refine (tame_any _).bind fun millis _ => ?_
  cases millis with
  | some millis => exact hgood.timestamp _
  | none => trivial

/-- An arithmetic operation on two values that have to be numbers yields a value of the kind. -/
theorem numbers (operator : BinaryOp) (f : Float → Float → Float) (a b : Value) :
    Tame Good (fun _ => True) (do
      let (x, y) ← Value.bothNumbers operator a b
      Value.arithmetic f x y) :=
  (tame_any _).bind fun _ _ => hgood.arithmetic f _ _

/-- An element of a range is of the kind. -/
theorem ofRangeElement (n : Int) : Yields Good (fun _ => True) (Value.ofRangeElement n) := by
  unfold Value.ofRangeElement
  cases Number.ofInt? n with
  | some x => exact hgood.number x
  | none => trivial

/-- The elements of an array are of the kind, and as many as the array has. -/
theorem toList {v : Value} (hv : Good v) {s : Sequence} (hs : v.sequence? = some s) :
    Yields (fun vs => (∀ v ∈ vs, Good v) ∧ vs.length = s.size) (fun _ => True) s.toList := by
  cases hgood.normal v hv with
  | range r =>
    obtain rfl := Option.some.inj hs
    have hlength : r.toList.length = r.length := by simp [IntRange.toList, IntRange.part]
    show Yields (fun vs => _ ∧ vs.length = r.length) _ (r.toList.mapM Value.ofRangeElement)
    rw [← hlength]
    exact .mapM fun n _ => hgood.ofRangeElement n
  | list _ =>
    obtain rfl := Option.some.inj hs
    exact ⟨hgood.items _ hv, rfl⟩
  | _ => cases hs

/-- The elements of a value of the kind are of the kind. -/
theorem tame_items {v : Value} (hv : Good v) :
    Tame (fun vs => ∀ w ∈ vs, Good w) (fun _ => True) v.items := by
  cases hgood.normal v hv with
  | string s =>
    intro w hw
    obtain ⟨c, -, rfl⟩ := List.mem_map.mp hw
    exact hgood.string _
  | range r => exact ((hgood.toList hv rfl).mono (fun _ h => h.1) fun _ h => h).orFault
  | list _ => exact ((hgood.toList hv rfl).mono (fun _ h => h.1) fun _ h => h).orFault
  | _ => trivial

/-- Values of the kind, if they are within the limit, make a list of the kind. -/
theorem tame_list {vs : List Value} (hvs : ∀ v ∈ vs, Good v) :
    Tame (fun _ => Good (.list vs)) (fun _ => True)
      (Value.withinLimit context.limits .arrayLength vs.length) :=
  (tame_withinLimit _ _ _).mono (fun _ hwithin => hgood.list vs hvs hwithin) fun _ h => h

/-- The length of two arrays together is checked before they are joined. -/
theorem add {a b : Value} (ha : Good a) (hb : Good b) :
    Tame Good (fun _ => True) (Value.add context.limits a b) := by
  unfold Value.add
  split
  · exact hgood.arithmetic _ _ _
  · exact hgood.string _
  · rename_i s t hs ht
    have hs : a.sequence? = some s := by rw [Value.sequence?, hs]
    have ht : b.sequence? = some t := by rw [Value.sequence?, ht]
    refine s.length_yields.orFault.bind fun m hm => t.length_yields.orFault.bind fun n hn => ?_
    refine (tame_withinLimit _ _ _).bind fun _ hwithin => ?_
    refine (hgood.toList ha hs).orFault.bind fun xs hxs =>
      (hgood.toList hb ht).orFault.bind fun ys hys => ?_
    refine hgood.list _ (fun v hv => ?_) ?_
    · rcases List.mem_append.mp hv with hv | hv
      · exact hxs.1 v hv
      · exact hys.1 v hv
    · rw [List.length_append, hxs.2, hys.2, ← hm, ← hn]
      exact hwithin
  · exact hgood.shift _ _ _
  · exact hgood.shift _ _ _
  all_goals trivial

/-- A difference is of the kind. -/
theorem subtract (a b : Value) : Tame Good (fun _ => True) (Value.subtract a b) := by
  unfold Value.subtract
  split
  · exact (tame_any _).bind fun _ _ => hgood.number _
  · exact hgood.shift _ _ _
  · trivial
  · exact hgood.numbers _ _ _ _

/-- A quotient or a remainder is of the kind. -/
theorem divideBy (operator : BinaryOp) (f : Float → Float → Float) (a b : Value) :
    Tame Good (fun _ => True) (Value.divideBy operator f a b) := by
  refine (tame_any _).bind fun p _ => ?_
  dsimp only
  split
  · trivial
  · exact hgood.arithmetic _ _ _

/-- The answer of a comparison is of the kind. -/
theorem compare (operator : BinaryOp) (comparison : Value.Comparison) (a b : Value) :
    Tame Good (fun _ => True) (Value.compare operator comparison a b) := by
  unfold Value.compare
  split <;> first
    | exact hgood.boolean _
    | trivial

/-- The answer of a logical operator is of the kind. -/
theorem connect (f : Bool → Bool → Bool) (a b : Value) :
    Tame Good (fun _ => True) (Value.connect f a b) :=
  (tame_any _).bind fun _ _ => (tame_any _).bind fun _ _ => hgood.boolean _

/-- A binary operation on values of the kind yields a value of the kind. -/
theorem applyBinary (operator : BinaryOp) {a b : Value} (ha : Good a) (hb : Good b) :
    Tame Good (fun _ => True) (Value.applyBinary context.limits operator a b) := by
  cases operator with
  | add => exact hgood.add ha hb
  | subtract => exact hgood.subtract a b
  | multiply | power => exact hgood.numbers _ _ a b
  | divide | modulo => exact hgood.divideBy _ _ a b
  | equal | notEqual => exact (tame_any _).map fun _ _ => hgood.boolean _
  | less | greater | lessEqual | greaterEqual => exact hgood.compare _ _ a b
  | and | or => exact hgood.connect _ a b
  | other symbol => trivial

/-- A unary operation yields a value of the kind. -/
theorem applyUnary (operator : UnaryOp) (a : Value) :
    Tame Good (fun _ => True) (Value.applyUnary operator a) := by
  cases operator with
  | negate =>
    unfold Value.applyUnary
    cases a.numeric? with
    | none => trivial
    | some n => exact (tame_any _).bind fun _ _ => hgood.number _
  | not => exact (tame_any _).bind fun _ _ => hgood.boolean _
  | other symbol => trivial

/-- The element at an index of a value of the kind is of the kind. -/
theorem element {a b : Value} (ha : Good a) : Tame Good (fun _ => True) (a.element b) := by
  cases hgood.normal a ha with
  | string s => exact (tame_any _).bind fun _ _ => (tame_any _).bind fun _ _ => hgood.string _
  | range r =>
    refine (tame_any _).bind fun _ _ => (tame_any _).bind fun _ _ => (tame_any _).bind fun _ _ => ?_
    exact (hgood.ofRangeElement _).orFault
  | @list vs _ =>
    refine (tame_any _).bind fun requested _ => ?_
    refine ((@Native.locate .standard requested vs.length).mono (fun _ h => h)
      fun _ _ => trivial).bind fun position hposition => ?_
    show Good (vs.getD position .null)
    rw [List.getD_eq_getElem?_getD, List.getElem?_eq_getElem hposition]
    exact hgood.items vs ha _ (List.getElem_mem hposition)
  | _ => trivial

/-- The length of a range is checked before it is built. -/
theorem buildRange (a b : Value) (inclusive : Bool) :
    Tame Good (fun _ => True) (Value.buildRange context.limits a b inclusive) := by
  refine (tame_any _).bind fun first _ => (tame_any _).bind fun last _ => ?_
  by_cases hinverted : last < first
  · rw [if_pos hinverted]
    trivial
  · rw [if_neg hinverted]
    refine (tame_withinLimit _ _ _).bind fun _ hwithin => hgood.range first _ ?_ hwithin
    split <;> omega

end Context.Closes

/-- The values of a state are of one kind, and the variables of the host are there. -/
structure State.Stocked (context : Context σ) (Good : Value → Prop) (s : State σ) : Prop where
  values : ∀ v ∈ s.values, Good v
  external : ∀ name ∈ context.external, (s.scope.root.find? name).isSome = true

namespace State.Stocked

variable {context : Context σ} {Good : Value → Prop} {s : State σ}

/-- The values in sight are of the kind. -/
theorem scope (h : s.Stocked context Good) {v : Value} (hv : v ∈ s.scope.values) : Good v :=
  h.values v (List.mem_append_left _ hv)

/-- Binding a value of the kind keeps the state stocked. -/
theorem bind (h : s.Stocked context Good) (name : String) {v : Value} (hv : Good v) :
    State.Stocked context Good { s with scope := s.scope.bind name v } where
  values := by
    intro w hw
    rcases List.mem_append.mp hw with hw | hw
    · rcases Scope.mem_values_bind hw with rfl | hw
      · exact hv
      · exact h.scope hw
    · exact h.values w (List.mem_append_right _ hw)
  external := by
    intro other hother
    show ((s.scope.bind name v).root.find? other).isSome = true
    rw [Scope.root_bind]
    split
    · rfl
    · exact h.external other hother

/-- A new table keeps the state stocked. -/
theorem push (h : s.Stocked context Good) :
    State.Stocked context Good { s with scope := s.scope.push } where
  values := by
    intro v hv
    rcases List.mem_append.mp hv with hv | hv
    · exact h.scope (Scope.mem_values_push hv)
    · exact h.values v (List.mem_append_right _ hv)
  external := h.external

/-- A call with values of the kind keeps the state stocked. -/
theorem call (h : s.Stocked context Good) (host : σ) (name : String) {args : List Value}
    (hargs : ∀ v ∈ args, Good v) :
    State.Stocked context Good { s with host := host, calls := ⟨name, args⟩ :: s.calls } where
  values := by
    intro v hv
    rcases List.mem_append.mp hv with hv | hv
    · exact h.scope hv
    · rcases List.mem_append.mp hv with hv | hv
      · exact hargs v hv
      · exact h.values v (List.mem_append_right _ hv)
  external := h.external

/-- Behind a comprehension the scope is the one before it, and the calls are those made so far. -/
theorem leave {s' : State σ} (h : s.Stocked context Good) (h' : s'.Stocked context Good) :
    State.Stocked context Good { s' with scope := s.scope } where
  values := by
    intro v hv
    rcases List.mem_append.mp hv with hv | hv
    · exact h.scope hv
    · exact h'.values v (List.mem_append_right _ hv)
  external := h.external

/-- The variables of the host hold values of the kind. -/
theorem override (h : s.Stocked context Good) {name : String} (hname : name ∈ context.external) :
    Good ((s.scope.root.find? name).getD .null) := by
  obtain ⟨v, hv⟩ := Option.isSome_iff_exists.mp (h.external name hname)
  rw [hv]
  exact h.scope (Scope.mem_values_iff.mpr (.inr (Bindings.mem_values_of_find? hv)))

end State.Stocked

/-- A table that the variables of the host are put into holds their normal forms and what it held
before. -/
theorem Context.mem_values_bindAll {table after : Bindings} {supplied : List (String × Value)}
    (h : bindAll table supplied = .ok after) {w : Value} (hw : w ∈ after.values) :
    (∃ entry ∈ supplied, entry.2.normalize = .ok w) ∨ w ∈ table.values := by
  induction supplied generalizing table with
  | nil =>
    obtain rfl := Except.ok.inj h
    exact .inr hw
  | cons entry rest ih =>
    obtain ⟨name, v⟩ := entry
    obtain ⟨u, hv, h⟩ := bindAll_cons_eq_ok h
    rcases ih h with ⟨entry, hentry, hnormal⟩ | hw
    · exact .inl ⟨entry, List.mem_cons_of_mem _ hentry, hnormal⟩
    · rcases Bindings.mem_values_insert hw with rfl | hw
      · exact .inl ⟨(name, v), List.mem_cons_self, hv⟩
      · exact .inr hw

/-- Evaluation begins with the variables of the host. -/
theorem Evaluator.stocked_begin {context : Context σ} {Good : Value → Prop}
    (hgood : context.Closes Good) {host : σ} {s : State σ} (h : begin context host = .ok s) :
    s.Stocked context Good := by
  obtain ⟨table, htable, rfl⟩ := begin_eq_ok h
  refine ⟨fun v hv => ?_, fun name hname => ?_⟩
  · have hv : v ∈ table.values := by simpa [State.values, Scope.values] using hv
    rcases Context.mem_values_bindAll htable hv with ⟨entry, hentry, hnormal⟩ | hv
    · exact hgood.supplied entry hentry v hnormal
    · cases hv
  · rw [Option.isSome_iff_exists, ← Bindings.mem_names_iff]
    exact (Context.mem_names_bindAll htable name).mpr hname

namespace Expr

open Run

/-- The regime in which the values are of one kind. -/
def kindRegime (context : Context σ) (Good : Value → Prop) : Regime σ where
  state := State.Stocked context Good
  inside := State.Stocked context Good
  value := Good
  failure _ := True

/-- Every node, also a foreign one, keeps the values of one kind. -/
theorem safeAt_kind {context : Context σ} {Good : Value → Prop} (hgood : context.Closes Good)
    (node : Expr) :
    SafeAt context (kindRegime context Good) node := by
  cases node with
  | program => exact hgood.number _
  | number span x => exact hgood.number x
  | string span s => exact hgood.string s
  | boolean span b => exact hgood.boolean b
  | foreign item => trivial
  | array => exact fun vs hvs => settled_of_tame (hgood.tame_list hvs)
  | identifier span name =>
    intro s hs
    cases hlookup : s.scope.lookup? name with
    | some v => exact hs.scope (Scope.mem_values_of_lookup? hlookup)
    | none => trivial
  | binary span operator left right =>
    exact fun a b ha hb => settled_of_tame (hgood.applyBinary operator ha hb)
  | unary span operator argument => exact fun a _ => settled_of_tame (hgood.applyUnary operator a)
  | call span name arguments =>
    refine ⟨fun _ => trivial, fun run hrun args hargs => ?_⟩
    refine .invoke (fun s host hs => hs.call host name hargs)
      (fun _ _ hs => ⟨hs.values, hs.external⟩) ?_
      (fun _ _ _ => trivial) fun _ => trivial
    intro host v w hreply hnormal
    exact hgood.returned name run hrun args hargs host v w hreply hnormal
  | assign span name value =>
    -- A name of the host is bound to its value in the root, which a state of this kind always has.
    refine ⟨fun hname s hs => ⟨hs.override hname, ?_⟩, fun _ s v hs hv => hs.bind name hv⟩
    have hbound := hs.bind name (hs.override hname)
    exact ⟨hbound.values, hbound.external⟩
  | conditional => exact fun v hv => settled_of_forall (fun _ => trivial) (fun _ => trivial) _ _
  | comprehension span binder iterable guard body =>
    exact {
      items := fun v hv => settled_of_tame (hgood.tame_items hv)
      enter := fun s item hs hitem => hs.push.bind binder hitem
      leave := fun s s' hs hs' => hs.leave hs'
      guard := fun g _ v hv => settled_of_forall (fun _ => trivial) (fun _ => trivial) _ _
      list := fun vs hvs => settled_of_tame (hgood.tame_list hvs) }
  | index span object offset => exact fun a b ha _ => settled_of_tame (hgood.element ha)
  | range span first last inclusive =>
    exact fun a b _ _ => settled_of_tame (hgood.buildRange a b inclusive)

end Expr

namespace Evaluation

/-- The evaluation of trees one after the other, from a state on, comes to the evaluation of a node
from another state. -/
inductive Reaches (context : Context σ) : State σ → List Expr → Expr → State σ → Prop
  | within {s s₁ : State σ} {e node : Expr} {es : List Expr} :
      e.Visits context s node s₁ → Reaches context s (e :: es) node s₁
  | behind {s s₁ : State σ} {e node : Expr} {es : List Expr} :
      Reaches context (continueWith context e s).2 es node s₁ → Reaches context s (e :: es) node s₁

variable {context : Context σ} {Good : Value → Prop}

/-- From a state with values of one kind an evaluation comes to such a state, and to a value of that
kind if to any. -/
theorem stocked_continueWith (hgood : context.Closes Good) (e : Expr) {s : State σ}
    (hs : s.Stocked context Good) :
    (continueWith context e s).2.Stocked context Good ∧
      ∀ v, (continueWith context e s).1 = .ok v → Good v := by
  have hkept := @Expr.eval_keeps_uniform σ context (Expr.kindRegime context Good) rfl e
    (fun node _ => Expr.safeAt_kind hgood node) s hs
  unfold continueWith
  cases heval : e.eval context s with
  | ok v after =>
    rw [heval] at hkept
    refine ⟨hkept.2, ?_⟩
    rintro w ⟨⟩
    exact hkept.1
  | error failure after =>
    rw [heval] at hkept
    refine ⟨hkept.2, ?_⟩
    rintro w ⟨⟩

/-- By induction over the trees, and for the tree that the node stands in over the course of its
evaluation. -/
theorem Reaches.stocked (hgood : context.Closes Good) {s s₁ : State σ} {es : List Expr}
    {node : Expr} (h : Reaches context s es node s₁) (hs : s.Stocked context Good) :
    s₁.Stocked context Good := by
  induction h with
  | within hvisits =>
    exact @Expr.Visits.keeps σ context (Expr.kindRegime context Good) rfl _ _ _ _ hvisits
      (fun node _ => Expr.safeAt_kind hgood node) hs
  | behind _ ih => exact ih (stocked_continueWith hgood _ hs).1

end Evaluation

/-! ## Only normal values -/

/-- Evaluation does not leave the normal values, whatever the host supplies. -/
theorem Context.closes_normal (context : Context σ) : context.Closes Value.Normal where
  normal _ hv := hv
  number := .number
  string := .string
  boolean := .boolean
  timestamp := .timestamp
  list _ hvs _ := .list hvs
  items _ hlist := by
    cases hlist with
    | list hvs => exact hvs
  range _ _ _ _ := .range _
  supplied _ _ _ h := Value.normal_of_normalize h
  returned _ _ _ _ _ _ _ _ _ h := Value.normal_of_normalize h

namespace Evaluation

/-- Only normal values circulate.  Whatever a host supplies and whatever trees it evaluates one
after the other: where their evaluation comes to a node, the values of the state before and of the
state behind it are normal, and so is the value of the node if it has one; and normal values are
exactly those that are their own normal forms. -/
theorem reaches_normal (context : Context σ) (host : σ) (s : State σ) (es : List Expr) (node : Expr)
    (s₁ : State σ) (hbegin : Evaluator.begin context host = .ok s)
    (hreaches : Reaches context s es node s₁) :
    (∀ v ∈ s₁.values, v.Normal) ∧
    (∀ v ∈ (continueWith context node s₁).2.values, v.Normal) ∧
    (∀ v, (continueWith context node s₁).1 = .ok v → v.Normal) ∧
    ∀ v : Value, v.Normal ↔ v.normalize = .ok v := by
  have hclosed := context.closes_normal
  have hs₁ := hreaches.stocked hclosed (Evaluator.stocked_begin hclosed hbegin)
  obtain ⟨hafter, hvalue⟩ := stocked_continueWith hclosed node hs₁
  refine ⟨hs₁.values, hafter.values, hvalue, fun v => ⟨Value.Normal.normalize_eq, ?_⟩⟩
  exact Value.normal_of_normalize

/-- A host that supplies a tuple and answers with tuples: in the body of a loop over its elements a
function is called, and the reply arrives as a list. -/
theorem reaches_normal_of_tuple :
    let context : Context Unit :=
      ⟨fun _ => some (.function fun args host => (.returned (.tuple args), host)),
        [("xs", .tuple [.string "a"])], .standard, none⟩
    let node : Expr := .call .none "f" [.identifier .none "x"]
    let root : Bindings := ⟨[("xs", .list [.string "a"])]⟩
    let s : State Unit := ⟨⟨[], root⟩, (), [], []⟩
    let s₁ : State Unit := ⟨⟨[⟨[("x", .string "a")]⟩], root⟩, (), [], []⟩
    Evaluator.begin context () = .ok s ∧
    Reaches context s [.comprehension .none "x" (.identifier .none "xs") none node] node s₁ ∧
    (continueWith context node s₁).1 = .ok (.list [.string "a"]) ∧
    Value.Normal (.list [.string "a"]) ∧ ∀ v ∈ s₁.values, v.Normal := by
  intro context node root s s₁
  have hbegin : Evaluator.begin context () = .ok s := rfl
  have hreaches : Reaches context s [.comprehension .none "x" (.identifier .none "xs") none node]
      node s₁ := by
    have hsource : (Expr.identifier .none "xs").eval context s = .ok (.list [.string "a"]) s := rfl
    have hitems : Value.items (.list [.string "a"]) = .ok ([] ++ .string "a" :: []) := rfl
    exact .within (.part (.body (.intro hsource hitems rfl)) .root)
  obtain ⟨hbefore, -, hvalue, -⟩ := reaches_normal context () s _ node s₁ hbegin hreaches
  exact ⟨hbegin, hreaches, rfl, hvalue _ rfl, hbefore⟩

end Evaluation

end Formulary
