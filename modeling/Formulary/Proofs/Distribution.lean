import Formulary.Proofs.Native
import Formulary.Proofs.Scoping
import Formulary.Proofs.Widening

/-!
# Loops over joined arrays

A comprehension over the sum of two arrays, or of two strings, is the sum of two comprehensions, one
over each (`Expr.eval_comprehension_add`).  Each turn runs in a fresh scope, so that nothing one
turn binds is seen by a later one or by the second loop, whatever the guard and the body assign; and
what the turns do to the host goes on from one to the next in both forms.  The two forms check the
limit for arrays at different lengths, so it is assumed that no limit stops them.  And the elements
of both arrays have to be numbers of the language: a range of the host may hold integers that are
none, and the sum comes across them before the first turn, but the sum of the loops only behind the
turns of the first (`Expr.eval_comprehension_add_too_large`).
-/

set_option autoImplicit false

namespace Formulary

variable {σ : Type}

namespace Run

variable {step : Value → Run σ (Option Value)}

/-! ## Collecting -/

/-- What has been found before stands in front of what is collected. -/
theorem collect_eq (found items : List Value) :
    collect step found items = (do
      let vs ← collect step [] items
      pure (found.reverse ++ vs)) := by
  induction items generalizing found with
  | nil => simp [collect]
  | cons item items ih =>
    rw [collect, collect, bind_assoc]
    congr 1
    funext yielded
    rw [ih, ih (yielded.toList ++ [])]
    simp

/-- A run over two lists of items goes through the first and then through the second. -/
theorem collect_append (xs ys : List Value) :
    collect step [] (xs ++ ys) = (do
      let vs ← collect step [] xs
      let ws ← collect step [] ys
      pure (vs ++ ws)) := by
  induction xs with
  | nil => simp [collect]
  | cons x xs ih =>
    rw [List.cons_append, collect, collect, bind_assoc]
    congr 1
    funext yielded
    rw [collect_eq, ih, collect_eq (yielded.toList ++ []) xs]
    simp only [bind_assoc, pure_bind, List.append_assoc]

/-- A loop collects at most one value for each of its items. -/
theorem length_collect {found items vs : List Value} {s s' : State σ}
    (h : collect step found items s = .ok vs s') :
    vs.length ≤ found.length + items.length := by
  induction items generalizing found s with
  | nil =>
    cases h
    simp
  | cons item items ih =>
    obtain ⟨yielded, s₁, -, h⟩ := bind_eq_ok h
    have hlength := ih h
    have hyielded : yielded.toList.length ≤ 1 := by cases yielded <;> simp
    rw [List.length_append] at hlength
    rw [List.length_cons]
    omega

end Run

/-! ## Joining values -/

/-- An amount is within a limit, or the refusal says by what it is exceeded. -/
theorem Value.withinLimit_cases (limits : Limits) (kind : LimitKind) (amount : Int) :
    Value.withinLimit limits kind amount = .ok () ∨
    limits.bound kind < amount ∧
    Value.withinLimit limits kind amount = .error (.cause (limits.exceeded kind amount)) := by
  unfold Value.withinLimit Limits.check
  by_cases hover : limits.bound kind < amount
  · rw [if_pos hover]
    exact .inr ⟨hover, rfl⟩
  · rw [if_neg hover]
    exact .inl rfl

/-- The list of an array's elements is as long as the array. -/
theorem Sequence.length_toList {s : Sequence} {xs : List Value} (h : s.toList = .ok xs) :
    xs.length = s.size := by
  cases s with
  | items ys =>
    cases h
    rfl
  | range r =>
    have hyields : Yields (fun vs => (∀ v ∈ vs, True) ∧ vs.length = r.toList.length) (fun _ => True)
        (r.toList.mapM Value.ofRangeElement) := by
      apply Yields.mapM
      intro n _
      cases Value.ofRangeElement n <;> trivial
    have hmap : r.toList.mapM Value.ofRangeElement = .ok xs := h
    rw [hmap] at hyields
    rw [hyields.2]
    simp [IntRange.toList, IntRange.part, Sequence.size]

/-- The items of an array are its elements. -/
theorem Value.exists_sequence {a : Value} (h : a.isArray = true) {xs : List Value}
    (hitems : a.items = .ok xs) :
    ∃ s, a.view = .array s ∧ s.toList = .ok xs := by
  unfold Value.isArray Value.sequence? at h
  unfold Value.items at hitems
  cases hview : a.view with
  | array s =>
    rw [hview] at hitems
    have harray : Value.orFault s.toList = .ok xs := hitems
    cases hlist : s.toList with
    | ok ys =>
      rw [hlist] at harray
      cases harray
      exact ⟨s, rfl, hlist⟩
    | error fault =>
      rw [hlist] at harray
      cases harray
  | _ =>
    rw [hview] at h
    cases h

/-- The sum of two arrays is the list of the elements of both, if there are not too many. -/
theorem Value.add_arrays_eq {a b : Value} {s t : Sequence} (ha : a.view = .array s)
    (hb : b.view = .array t) {xs ys : List Value} (hxs : s.toList = .ok xs)
    (hys : t.toList = .ok ys) (hx : xs.length ≤ Sequence.longest)
    (hy : ys.length ≤ Sequence.longest) (limits : Limits) :
    Value.add limits a b =
      (Value.withinLimit limits .arrayLength ((xs.length + ys.length : Nat) : Int)).map fun _ =>
        .list (xs ++ ys) := by
  have hm : s.length = .ok s.size := Sequence.length_of_size_le (Sequence.length_toList hxs ▸ hx)
  have hn : t.length = .ok t.size := Sequence.length_of_size_le (Sequence.length_toList hys ▸ hy)
  unfold Value.add
  rw [ha, hb, Sequence.length_toList hxs, Sequence.length_toList hys]
  simp only [hm, hn, hxs, hys]
  show (Value.withinLimit limits .arrayLength ((s.size + t.size : Nat) : Int) >>= fun _ => _) = _
  cases Value.withinLimit limits .arrayLength ((s.size + t.size : Nat) : Int) <;> rfl

/-- The sum of two arrays is the list of the elements of both; or it has too many elements. -/
theorem Value.add_arrays {a b : Value} {s t : Sequence} (ha : a.view = .array s)
    (hb : b.view = .array t) {xs ys : List Value} (hxs : s.toList = .ok xs)
    (hys : t.toList = .ok ys) (hx : xs.length ≤ Sequence.longest)
    (hy : ys.length ≤ Sequence.longest) (limits : Limits) :
    Value.add limits a b = .ok (.list (xs ++ ys)) ∨
    ∃ amount, limits.bound .arrayLength < amount ∧
      Value.add limits a b = .error (.cause (limits.exceeded .arrayLength amount)) := by
  rw [add_arrays_eq ha hb hxs hys hx hy]
  rcases Value.withinLimit_cases limits .arrayLength ((xs.length + ys.length : Nat) : Int) with
    hwithin | ⟨hover, hexceeded⟩
  · left
    rw [hwithin]
    rfl
  · right
    refine ⟨_, hover, ?_⟩
    rw [hexceeded]
    rfl

/-- Two values that can be joined: two arrays or two strings. -/
def Value.Joinable (a b : Value) : Prop :=
  (a.isArray = true ∧ b.isArray = true) ∨ ∃ x y, a = .string x ∧ b = .string y

/-- The sum of two arrays, or of two strings, has the items of both; or it has too many elements. -/
theorem Value.items_add {a b : Value} (hkind : a.Joinable b) {xs ys : List Value}
    (hxs : a.items = .ok xs) (hys : b.items = .ok ys) (hx : xs.length ≤ Sequence.longest)
    (hy : ys.length ≤ Sequence.longest) (limits : Limits) :
    (∃ c, Value.add limits a b = .ok c ∧ c.items = .ok (xs ++ ys)) ∨
    ∃ amount, limits.bound .arrayLength < amount ∧
      Value.add limits a b = .error (.cause (limits.exceeded .arrayLength amount)) := by
  rcases hkind with ⟨ha, hb⟩ | ⟨x, y, rfl, rfl⟩
  · obtain ⟨s, hs, hs'⟩ := Value.exists_sequence ha hxs
    obtain ⟨t, ht, ht'⟩ := Value.exists_sequence hb hys
    rcases Value.add_arrays hs ht hs' ht' hx hy limits with hadd | hover
    · exact .inl ⟨_, hadd, rfl⟩
    · exact .inr hover
  · cases hxs
    cases hys
    refine .inl ⟨.string (x ++ y), rfl, ?_⟩
    simp [Value.items, Value.view]

namespace Expr

open Run

variable {context : Context σ} {binder : String} {guard : Option Expr} {body : Expr}

/-! ## Loops -/

/-- A computation comes to what is expected, unless a limit stops it. -/
def Unstopped (limits : Limits)
    (outcome expected : EStateM.Result Failure (State σ) Value) : Prop :=
  outcome = expected ∨ ∃ failure s, outcome = .error failure s ∧ limits.Stops failure

/-- The turns over two lists of items, one after the other. -/
def loops (context : Context σ) (binder : String) (guard : Option Expr) (body : Expr)
    (xs ys : List Value) :
    Run σ Value := do
  let vs ← Run.collect (fun item => Run.inScope binder item (turn context guard body)) [] xs
  let ws ← Run.collect (fun item => Run.inScope binder item (turn context guard body)) [] ys
  pure (.list (vs ++ ws))

/-- The turns of a loop leave the scope as it was: what the guard and the body bind for an element
is in a table of its own, which is closed before the next element. -/
theorem scope_of_collect {found items vs : List Value} {s s' : State σ}
    (h : Run.collect (fun item => Run.inScope binder item (turn context guard body)) found items s =
      .ok vs s') : s'.scope = s.scope := by
  have hturns : Rebinds []
      (Run.collect (fun item => Run.inScope binder item (turn context guard body)) found items) :=
    .collect (fun item => (rebinds_turn context guard body).inScope binder item) items found
  have hrebound := hturns s
  rw [h] at hrebound
  exact hrebound.eq_of_nil

/-- The check of a length lets a value pass. -/
theorem admits_check (limits : Limits) (amount : Int) (v : Value) :
    Run.Admits limits (Run.lift .unknown (Value.withinLimit limits .arrayLength amount) >>=
      fun _ => pure v)
      (pure v : Run σ Value) := by
  intro s
  rcases Value.withinLimit_cases limits .arrayLength amount with hwithin | ⟨hover, hexceeded⟩
  · rw [hwithin]
    exact .inl rfl
  · rw [hexceeded]
    exact .inr ⟨_, s, rfl, _, amount, hover, rfl⟩

/-- A comprehension over a source that is known. -/
theorem eval_comprehension_of_items {iterable : Expr} {source : Value} {items : List Value}
    {s : State σ} (hiterable : iterable.eval context s = .ok source s)
    (hitems : source.items = .ok items) (span : Span) :
    (Expr.comprehension span binder iterable guard body).eval context s =
      (Run.collect (fun item => Run.inScope binder item (turn context guard body)) [] items >>=
        fun results => do
        Run.lift .unknown (Value.withinLimit context.limits .arrayLength results.length)
        pure (.list results)) s := by
  rw [eval_comprehension, bind_of_ok hiterable, hitems]
  rfl

variable {p q : String} {a b : Value} {xs ys : List Value} {s : State σ}

/-- The loop over the sum comes to the two loops in turn. -/
theorem unstopped_of_sum (hp : s.scope.lookup? p = some a) (hq : s.scope.lookup? q = some b)
    (hkind : a.Joinable b) (hxs : a.items = .ok xs) (hys : b.items = .ok ys)
    (hx : xs.length ≤ Sequence.longest) (hy : ys.length ≤ Sequence.longest)
    (span at₀ at₁ at₂ : Span) :
    Unstopped context.limits
      ((Expr.comprehension span binder (.binary at₀ .add (.identifier at₁ p) (.identifier at₂ q))
        guard body).eval context s)
      (loops context binder guard body xs ys s) := by
  have hleft : (Expr.identifier at₁ p).eval context s = .ok a s := by rw [eval_identifier, hp]
  have hright : (Expr.identifier at₂ q).eval context s = .ok b s := by rw [eval_identifier, hq]
  have hsum : (Expr.binary at₀ .add (.identifier at₁ p) (.identifier at₂ q)).eval context s =
      Run.lift (context.siteOf at₀) (Value.add context.limits a b) s := by
    rw [eval, bind_of_ok hleft, bind_of_ok hright]
    rfl
  rcases Value.items_add hkind hxs hys hx hy context.limits with ⟨c, hadd, hitems⟩ |
    ⟨amount, hover, hadd⟩
  · rw [hadd] at hsum
    rw [eval_comprehension_of_items hsum hitems, collect_append, loops]
    simp only [bind_assoc, pure_bind]
    have hadmits := fun ws vs : List Value => admits_check (σ := σ) context.limits (vs ++ ws).length
      (.list (vs ++ ws))
    exact (Run.Admits.refl _).bind (fun vs => (Run.Admits.refl _).bind fun ws => hadmits ws vs) s
  · rw [hadd] at hsum
    refine .inr ⟨_, s, ?_, .arrayLength, amount, hover, rfl⟩
    rw [eval_comprehension, bind_of_error hsum]
    rfl

/-- A loop over the value of a name comes to what its turns yield. -/
theorem unstopped_of_loop (hp : s.scope.lookup? p = some a) (hxs : a.items = .ok xs)
    (span at₁ : Span) :
    Unstopped context.limits
      ((Expr.comprehension span binder (.identifier at₁ p) guard body).eval context s)
      ((Run.collect (fun item => Run.inScope binder item (turn context guard body))
        [] xs >>= fun vs => pure (.list vs)) s) := by
  have hiterable : (Expr.identifier at₁ p).eval context s = .ok a s := by rw [eval_identifier, hp]
  rw [eval_comprehension_of_items hiterable hxs]
  exact (Run.Admits.refl _).bind (fun vs => admits_check context.limits vs.length (.list vs)) s

/-- The sum of two loops comes to the loops in turn: behind the first loop the second name has the
value that it had in front of it. -/
theorem unstopped_of_loops (hp : s.scope.lookup? p = some a) (hq : s.scope.lookup? q = some b)
    (hxs : a.items = .ok xs) (hys : b.items = .ok ys) (hx : xs.length ≤ Sequence.longest)
    (hy : ys.length ≤ Sequence.longest) (span at₀ at₁ at₂ at₃ : Span) :
    Unstopped context.limits
      ((Expr.binary span .add (.comprehension at₀ binder (.identifier at₁ p) guard body)
        (.comprehension at₂ binder (.identifier at₃ q) guard body)).eval context s)
      (loops context binder guard body xs ys s) := by
  rw [eval, loops]
  rcases @unstopped_of_loop σ context binder guard body _ _ _ s hp hxs at₀ at₁ with hloop |
    ⟨failure, s', hstopped, hstops⟩
  case inr => exact .inr ⟨failure, s', bind_of_error hstopped _, hstops⟩
  cases hfirst : Run.collect (fun item => Run.inScope binder item (turn context guard body))
    [] xs s with
  | error failure s₁ =>
    rw [bind_of_error hfirst] at hloop ⊢
    rw [bind_of_error hloop]
    exact .inl rfl
  | ok vs s₁ =>
    rw [bind_of_ok hfirst] at hloop ⊢
    rw [bind_of_ok hloop]
    -- Whatever the turns of the first loop have bound is gone with their scopes, `q` included.
    have hq' : s₁.scope.lookup? q = some b := by rw [scope_of_collect hfirst, hq]
    rcases @unstopped_of_loop σ context binder guard body _ _ _ s₁ hq' hys at₂ at₃ with hloop' |
      ⟨failure, s', hstopped, hstops⟩
    case inr => exact .inr ⟨failure, s', bind_of_error hstopped _, hstops⟩
    cases hsecond : Run.collect (fun item => Run.inScope binder item (turn context guard body))
      [] ys s₁ with
    | error failure s₂ =>
      rw [bind_of_error hsecond] at hloop' ⊢
      rw [bind_of_error hloop']
      exact .inl rfl
    | ok ws s₂ =>
      rw [bind_of_ok hsecond] at hloop' ⊢
      rw [bind_of_ok hloop']
      have hvs : vs.length ≤ Sequence.longest := by
        have hlength := length_collect hfirst
        rw [List.length_nil] at hlength
        omega
      have hws : ws.length ≤ Sequence.longest := by
        have hlength := length_collect hsecond
        rw [List.length_nil] at hlength
        omega
      show Unstopped _ (Run.lift (context.siteOf span)
        (Value.add context.limits (.list vs) (.list ws)) s₂) _
      rcases @Value.add_arrays (.list vs) (.list ws) _ _ rfl rfl vs ws rfl rfl hvs hws
        context.limits with
        hadd | ⟨amount, hover, hadd⟩
      · rw [hadd]
        exact .inl rfl
      · rw [hadd]
        exact .inr ⟨_, s₂, rfl, .arrayLength, amount, hover, rfl⟩

/-- Comprehensions distribute over sums.  From a state in which two names stand for two arrays, or
for two strings, whose items can be counted and are values of the language, the comprehension over
their sum and the sum of the comprehensions over each have the same outcome and leave the same
state, with all bindings, calls and events, if no limit stops either of them. -/
theorem eval_comprehension_add (hp : s.scope.lookup? p = some a) (hq : s.scope.lookup? q = some b)
    (hkind : a.Joinable b) (hxs : a.items = .ok xs) (hys : b.items = .ok ys)
    (hx : xs.length ≤ Sequence.longest) (hy : ys.length ≤ Sequence.longest)
    (span at₀ at₁ at₂ span' at₀' at₁' at₂' at₃' : Span) :
    let whole := Expr.comprehension span binder (.binary at₀ .add (.identifier at₁ p)
      (.identifier at₂ q)) guard body
    let parts := Expr.binary span' .add (.comprehension at₀' binder (.identifier at₁' p) guard body)
      (.comprehension at₂' binder (.identifier at₃' q) guard body)
    (∀ failure s', whole.eval context s = .error failure s' → ¬ context.limits.Stops failure) →
    (∀ failure s', parts.eval context s = .error failure s' → ¬ context.limits.Stops failure) →
    whole.eval context s = parts.eval context s := by
  intro whole parts hwhole hparts
  have hsum : whole.eval context s = loops context binder guard body xs ys s := by
    rcases unstopped_of_sum hp hq hkind hxs hys hx hy span at₀ at₁ at₂ with hsame |
      ⟨failure, s', hstopped, hstops⟩
    · exact hsame
    · exact absurd hstops (hwhole failure s' hstopped)
  have hloops : parts.eval context s = loops context binder guard body xs ys s := by
    rcases unstopped_of_loops hp hq hxs hys hx hy span' at₀' at₁' at₂' at₃' with hsame |
      ⟨failure, s', hstopped, hstops⟩
    · exact hsame
    · exact absurd hstops (hparts failure s' hstopped)
  rw [hsum, hloops]

section Example

/-- A loop over the sum of `p` and `q`. -/
def sumLoop (guard : Option Expr) (body : Expr) : Expr :=
  .comprehension .none "v" (.binary .none .add (.identifier .none "p")
    (.identifier .none "q")) guard body

/-- The sum of a loop over `p` and a loop over `q`. -/
def loopSum (guard : Option Expr) (body : Expr) : Expr :=
  .binary .none .add (.comprehension .none "v" (.identifier .none "p") guard body)
    (.comprehension .none "v" (.identifier .none "q") guard body)

/-- A host whose function answers every other call with false. -/
def alternating : Context Nat :=
  ⟨fun _ => some (.function fun _ calls => (.returned (.boolean (calls % 2 == 0)), calls + 1)), [],
    .standard, none⟩

/-- The guard calls the host, and the body assigns one of the names that are looped over. -/
theorem eval_comprehension_add_alternating :
    let s : State Nat :=
      ⟨⟨[], ⟨[("p", .list [.string "a", .string "b"]), ("q", .range (.upTo 1 3))]⟩⟩, 0, [], []⟩
    let guard : Expr := .call .none "f" [.identifier .none "v"]
    let body : Expr := .assign .none "q" (.identifier .none "v")
    (Evaluation.continueWith alternating (sumLoop (some guard) body) s).1.isOk = true ∧
    (Evaluation.continueWith alternating (sumLoop (some guard) body) s).2.calls.length = 4 ∧
    (sumLoop (some guard) body).eval alternating s = (loopSum (some guard) body).eval
      alternating s := by
  intro s guard body
  have hunstopped : ∀ e : Expr, (Evaluation.continueWith alternating e s).1.isOk = true →
      ∀ failure s', e.eval alternating s = .error failure s' →
        ¬ alternating.limits.Stops failure := by
    intro e hok failure s' hfails
    rw [Evaluation.continueWith, hfails] at hok
    cases hok
  have hwhole : (Evaluation.continueWith alternating (sumLoop (some guard) body) s).1.isOk =
      true := by decide +kernel
  have hparts : (Evaluation.continueWith alternating (loopSum (some guard) body) s).1.isOk =
      true := by decide +kernel
  refine ⟨hwhole, by decide +kernel, ?_⟩
  apply eval_comprehension_add (a := .list [.string "a", .string "b"])
    (b := .range (.upTo 1 3)) rfl rfl
    (.inl ⟨rfl, rfl⟩) rfl rfl (by decide) (by decide)
  · exact hunstopped _ hwhole
  · exact hunstopped _ hparts

/-- A host whose function returns its arguments. -/
def echoing : Context Unit :=
  ⟨fun _ => some (.function fun args _ => (.returned (.list args), ())), [], .standard, none⟩

/-- A list and a range of one integer, and the calls made so far. -/
def uneven (n : Int) (calls : List Call) : State Unit :=
  ⟨⟨[], ⟨[("p", .list [.string "a"]), ("q", .range (.upTo n (n + 1)))]⟩⟩, (), calls, []⟩

/-- A range of one integer to which no double is near has a length but no items. -/
theorem toList_of_unrepresentable {n : Int} (hn : Number.ofInt? n = none) :
    (Sequence.range (.upTo n (n + 1))).size = 1 ∧
    (Sequence.range (.upTo n (n + 1))).toList = .error .integerTooLarge := by
  have hlength : (IntRange.upTo n (n + 1)).length = 1 := by
    have hquotient : (n + 1 - n + 1 - 1) / 1 = 1 := by omega
    show ((n + 1 - n + 1 - 1) / 1).toNat = 1
    rw [hquotient]
    rfl
  have hlist : (IntRange.upTo n (n + 1)).toList = [n] := by
    have hget : (IntRange.upTo n (n + 1)).get 0 = n := by simp [IntRange.get, IntRange.upTo]
    simp [IntRange.toList, IntRange.part, hlength, hget]
  have helement : Value.ofRangeElement n = .error .integerTooLarge := by
    rw [Value.ofRangeElement, hn]
  refine ⟨hlength, ?_⟩
  show (IntRange.upTo n (n + 1)).toList.mapM Value.ofRangeElement = _
  rw [hlist, List.mapM_cons, helement]
  rfl

/-- The loop over the sum fails in front of its first turn, the sum of the loops behind it. -/
theorem eval_of_unrepresentable {n : Int} (hn : Number.ofInt? n = none) :
    let body : Expr := .call .none "f" [.identifier .none "v"]
    (sumLoop none body).eval echoing (uneven n []) =
      .error (.fault .integerTooLarge) (uneven n []) ∧
    (loopSum none body).eval echoing (uneven n []) =
      .error (.fault .integerTooLarge) (uneven n [⟨"f", [.string "a"]⟩]) := by
  intro body
  obtain ⟨hsize, hlist⟩ := toList_of_unrepresentable hn
  have hcount : (Sequence.range (.upTo n (n + 1))).length = .ok 1 := by
    rw [Sequence.length, hsize]
    rfl
  have hadd : Value.add .standard (.list [.string "a"]) (.range (.upTo n (n + 1))) =
      .error (.fault .integerTooLarge) := by
    unfold Value.add
    simp only [Value.view, hcount, hlist]
    rfl
  have hitems : Value.items (.range (.upTo n (n + 1))) = .error (.fault .integerTooLarge) := by
    unfold Value.items
    simp only [Value.view, hlist]
    rfl
  constructor
  · have hsum : (Expr.binary .none .add (.identifier .none "p") (.identifier .none "q")).eval
        echoing (uneven n []) =
        .error (.fault .integerTooLarge) (uneven n []) := by
      rw [eval]
      show Run.lift _ (Value.add .standard (.list [.string "a"]) (.range (.upTo n (n + 1))))
        (uneven n []) = _
      rw [hadd]
      rfl
    rw [sumLoop, eval_comprehension, bind_of_error hsum]
  · have hfirst :
        (Expr.comprehension .none "v" (.identifier .none "p") none body).eval echoing
          (uneven n []) =
        .ok (.list [.list [.string "a"]]) (uneven n [⟨"f", [.string "a"]⟩]) := rfl
    have hname : (Expr.identifier .none "q").eval echoing (uneven n [⟨"f", [.string "a"]⟩]) =
        .ok (.range (.upTo n (n + 1))) (uneven n [⟨"f", [.string "a"]⟩]) := rfl
    rw [loopSum, eval, bind_of_ok hfirst, eval_comprehension, bind_assoc, bind_of_ok hname, hitems]
    rfl

/-- With an integer of the host that is no number of the language, the loop over the sum calls
nothing, but the sum of the loops calls a function for the elements of the first array. -/
theorem eval_comprehension_add_too_large :
    ∃ n : Int,
      (Evaluation.continueWith echoing (sumLoop none (.call .none "f" [.identifier .none "v"]))
        (uneven n [])).2.calls =
        [] ∧
      (Evaluation.continueWith echoing (loopSum none (.call .none "f" [.identifier .none "v"]))
        (uneven n [])).2.calls =
        [⟨"f", [.string "a"]⟩] := by
  have hlarge : Number.ofInt? (Number.twoTo 1024) = none :=
    Option.isNone_iff_eq_none.mp (by decide +kernel)
  obtain ⟨hwhole, hparts⟩ := eval_of_unrepresentable hlarge
  refine ⟨Number.twoTo 1024, ?_, ?_⟩
  · rw [Evaluation.continueWith, hwhole]
    rfl
  · rw [Evaluation.continueWith, hparts]
    rfl

end Example

end Expr

end Formulary
