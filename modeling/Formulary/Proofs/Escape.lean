import Formulary.Proofs.Course
import Formulary.Proofs.HostVariables
import Formulary.Proofs.Native
import Formulary.Proofs.WellFormed

/-!
# Failures outside the language

A host gets the value of a formula or an error of the language, and an attempt to evaluate a formula
always has a record, unless the evaluation escapes from the language (`Evaluation.run_escapes`).
There are two ways out.  Evaluation comes to a subtraction of two timestamps that lie so far apart
that no double is near their difference, and this way out is always taken (`Expr.Overflows.fails`);
or the limits of the host admit arrays that cannot be counted.  The argument has two parts: all
values in sight are native, from the first state of an evaluation on, and of native values only
these two operations leave the language.
-/

set_option autoImplicit false

namespace Formulary

variable {σ : Type}

/-- The variables of a host and the replies of its functions are plain; apart from this the
functions may do anything, also fail. -/
structure Context.Plain (context : Context σ) : Prop where
  supplied : ∀ entry ∈ context.supplied, entry.2.Plain
  returned : ∀ name run, context.callee? name = some (.function run) → ∀ args host v,
    (run args host).1 = .returned v → v.Plain

/-- Nothing foreign stands in a tree. -/
def Expr.Proper (e : Expr) : Prop :=
  e.Everywhere fun node => ∀ item, node ≠ .foreign item

/-- A formula is a text, of any kind, or a tree in which nothing foreign stands. -/
def Formula.Proper : Formula → Prop
  | .text _ => True
  | .tree e => e.Proper

/-- The evaluation of a tree from a state comes to a difference of two timestamps to which no double
is near. -/
inductive Expr.Overflows (context : Context σ) (e : Expr) (s : State σ) : Prop
  | intro {span : Span} {left right : Expr} {s₁ s₂ s₃ : State σ} {t u : Timestamp} :
      e.Visits context s (.binary span .subtract left right) s₁ →
      left.eval context s₁ = .ok (.timestamp t) s₂ → right.eval context s₂ = .ok (.timestamp u) s₃ →
      Number.ofInt? (t.millis - u.millis) = none → Overflows context e s

/-- How the evaluation of a tree from a state leaves the language. -/
inductive Expr.Escapes (context : Context σ) (e : Expr) (s : State σ) : Fault → Prop
  | difference : e.Overflows context s → Escapes context e s .integerTooLarge
  | uncountable {fault : Fault} : context.limits.Overlong fault → Escapes context e s fault

/-! ## Native states -/

/-- The values in sight are native, and the variables of the host are there. -/
structure Scope.Furnished (context : Context σ) (scope : Scope) : Prop where
  lookup : ∀ name v, scope.lookup? name = some v → Native context.limits v
  root : ∀ name v, scope.root.find? name = some v → Native context.limits v
  external : ∀ name ∈ context.external, (scope.root.find? name).isSome = true

namespace Scope.Furnished

variable {context : Context σ} {scope : Scope}

/-- Binding a native value keeps the scope furnished. -/
theorem bind (h : scope.Furnished context) (name : String) {v : Value}
    (hv : Native context.limits v) :
    (scope.bind name v).Furnished context where
  lookup := by
    intro other w hw
    rw [lookup?_bind] at hw
    split at hw
    · obtain rfl := Option.some.inj hw
      exact hv
    · exact h.lookup other w hw
  root := by
    intro other w hw
    rw [root_bind] at hw
    split at hw
    · obtain rfl := Option.some.inj hw
      exact hv
    · exact h.root other w hw
  external := by
    intro other hother
    rw [root_bind]
    split
    · rfl
    · exact h.external other hother

/-- A new table keeps the scope furnished. -/
theorem push (h : scope.Furnished context) : scope.push.Furnished context where
  lookup := by
    intro name v hv
    rw [lookup?_push] at hv
    exact h.lookup name v hv
  root := h.root
  external := h.external

/-- The value of a variable of the host is native. -/
theorem override (h : scope.Furnished context) {name : String} (hname : name ∈ context.external) :
    Native context.limits ((scope.root.find? name).getD .null) := by
  obtain ⟨v, hv⟩ := Option.isSome_iff_exists.mp (h.external name hname)
  rw [hv]
  exact h.root name v hv

end Scope.Furnished

/-- Evaluation begins in a state whose values are native. -/
theorem Evaluator.furnished_begin {context : Context σ} (hcontext : context.Plain) {host : σ}
    {s : State σ} (h : begin context host = .ok s) : s.scope.Furnished context := by
  obtain ⟨table, htable, rfl⟩ := begin_eq_ok h
  have hroot : ∀ name v, table.find? name = some v → Native context.limits v := by
    intro name v hv
    have hfind := Context.find?_bindAll htable name
    cases hlookup : context.supplied.reverse.lookup name with
    | none =>
      rw [hlookup, hv] at hfind
      cases hfind
    | some u =>
      rw [hlookup] at hfind
      obtain ⟨w, hnormal, hw⟩ := hfind
      obtain rfl := Option.some.inj (hv.symm.trans hw)
      obtain ⟨before, after, hsplit, -⟩ := List.lookup_eq_some_iff.mp hlookup
      have hentry : (name, u) ∈ context.supplied.reverse := by rw [hsplit]; simp
      exact Native.normalize (hcontext.supplied _ (List.mem_reverse.mp hentry)) hnormal
  refine ⟨fun name v hv => hroot name v (by simpa [Scope.lookup?] using hv), hroot,
    fun name hname => ?_⟩
  rw [Option.isSome_iff_exists, ← Bindings.mem_names_iff]
  exact (Context.mem_names_bindAll htable name).mpr hname

namespace Expr

open Run

/-! ## Native evaluation -/

/-- The regime in which all values are native. -/
def nativeRegime (context : Context σ) : Regime σ where
  state s := s.scope.Furnished context
  inside s := s.scope.Furnished context
  value := Native context.limits
  failure _ := True

section Values

variable {context : Context σ} {e : Expr} {s s' : State σ}

/-- Where any failure will do, the outcome of a tame operation is settled. -/
theorem settled_of_tame {α : Type} {Good : α → Prop} {Bad : Fault → Prop} {site : Site}
    {result : Except Refusal α} (h : Tame Good Bad result) :
    Settled Good (fun _ => True) site result := by
  cases result with
  | ok a => exact h
  | error refusal => trivial

/-- The length of a list is checked before the list is built. -/
theorem tame_list {vs : List Value} (hvs : ∀ v ∈ vs, Native context.limits v) :
    Tame (fun _ => Native context.limits (.list vs)) context.limits.Overlong
      (Value.withinLimit context.limits .arrayLength vs.length) :=
  (tame_withinLimit _ _ _).mono (fun _ hwithin => .list hvs (.inr hwithin)) fun _ h => h

/-- Every node that is not foreign keeps all values native. -/
theorem safeAt_native (hcontext : context.Plain) {node : Expr}
    (hnode : ∀ item, node ≠ .foreign item) :
    SafeAt context (nativeRegime context) node := by
  cases node with
  | program => exact Native.number _
  | number span x => exact Native.number x
  | string span s => exact Native.string s
  | boolean span b => exact Native.boolean b
  | foreign item => exact absurd rfl (hnode item)
  | array => exact fun vs hvs => settled_of_tame (tame_list hvs)
  | identifier span name =>
    intro s hs
    cases hlookup : s.scope.lookup? name with
    | some v => exact hs.lookup name v hlookup
    | none => trivial
  | binary span operator left right =>
    exact fun a b ha hb => settled_of_tame (Native.applyBinary ha hb operator)
  | unary span operator argument =>
    exact fun a ha => settled_of_tame (Native.applyUnary ha operator)
  | call span name arguments =>
    refine ⟨fun _ => trivial, fun run hrun args _ => ?_⟩
    refine .invoke (fun _ _ hs => hs) (fun _ _ hs => hs) ?_ (fun _ _ _ => trivial) fun _ => trivial
    intro host v w hreply hnormal
    exact Native.normalize (hcontext.returned name run hrun args host v hreply) hnormal
  | assign span name value =>
    refine ⟨fun hname s hs => ?_, fun _ s v hs hv => hs.bind name hv⟩
    exact ⟨hs.override hname, hs.bind name (hs.override hname)⟩
  | conditional span condition consequent alternate =>
    exact fun v hv => settled_of_tame (Native.truth hv)
  | comprehension span binder iterable guard body =>
    exact {
      items := fun v hv => settled_of_tame (Native.items hv)
      enter := fun s item hs hitem => hs.push.bind binder hitem
      leave := fun s s' hs _ => hs
      guard := fun g _ v hv => settled_of_tame (Native.truth hv)
      list := fun vs hvs => settled_of_tame (tame_list hvs) }
  | index span object offset => exact fun a b ha hb => settled_of_tame (Native.element ha hb)
  | range span first last inclusive =>
    exact fun a b ha hb => settled_of_tame (Native.buildRange ha hb inclusive)

/-- From a state whose values are native a tree evaluates to a native value, in such a state
again. -/
theorem eval_native (hcontext : context.Plain) (he : e.Proper) :
    Keeps (fun s => s.scope.Furnished context) (Native context.limits) (fun _ => True)
      (e.eval context) :=
  @eval_keeps σ context (nativeRegime context) e
    (fun node hnode => safeAt_native hcontext (he node (outer_subset_nodes e node hnode)))
    fun node hnode => safeAt_native hcontext (he node hnode)

/-- The turns of a comprehension yield native values and keep the scope furnished. -/
theorem loop_native (hcontext : context.Plain) (binder : String) {guard : Option Expr} {body : Expr}
    (hguard : ∀ g ∈ guard, g.Proper) (hbody : body.Proper) {items : List Value}
    (hitems : ∀ item ∈ items, Native context.limits item) :
    Keeps (fun s => s.scope.Furnished context) (fun vs => ∀ v ∈ vs, Native context.limits v)
      (fun _ => True)
      (Run.collect (fun item => Run.inScope binder item (turn context guard body)) [] items) := by
  have hsafe : ∀ e : Expr, e.Proper → e.Everywhere (SafeAt context (nativeRegime context)) :=
    fun e he node hnode => safeAt_native hcontext (he node hnode)
  have hloop : SafeLoop context (nativeRegime context) .none binder guard :=
    @safeAt_native σ context hcontext (.comprehension .none binder body guard body) nofun
  exact collect_keeps hloop (turn_keeps rfl hloop (fun g hg => hsafe g (hguard g hg))
    (hsafe body hbody)) hitems

end Values

/-! ## The origin of a fault -/

/-- A fault of a tame operation is one of those that are expected of it. -/
theorem fault_of_lift {α : Type} {Good : α → Prop} {Bad : Fault → Prop} {site : Site}
    {result : Except Refusal α} (htame : Tame Good Bad result) {s s' : State σ} {fault : Fault}
    (h : Run.lift site result s = .error (.fault fault) s') : Bad fault := by
  cases result with
  | ok a => cases h
  | error refusal =>
    cases refusal with
    | cause c => cases h
    | fault other =>
      obtain ⟨hfault, -⟩ := EStateM.Result.error.inj h
      obtain rfl := Failure.fault.inj hfault
      exact htame

/-- An operation that has a result at a site leaves the state as it is. -/
theorem eq_ok_of_lift {α : Type} {site : Site} {result : Except Refusal α} {s s' : State σ} {a : α}
    (h : Run.lift site result s = .ok a s') : result = .ok a ∧ s = s' := by
  cases result with
  | ok b =>
    obtain ⟨rfl, rfl⟩ := EStateM.Result.ok.inj h
    exact ⟨rfl, rfl⟩
  | error refusal => cases h

/-- A call of a function of the host never ends in a fault. -/
theorem invoke_ne_fault {site : Site} {name : String} {run : List Value → σ → Reply × σ}
    {args : List Value} {s s' : State σ} {fault : Fault} :
    Run.invoke site name run args s ≠ .error (.fault fault) s' := by
  have hkeeps : Keeps (fun _ => True) (fun _ => True)
      (fun failure => ∀ fault, failure ≠ .fault fault)
      (Run.invoke site name run args : Run σ Value) :=
    .invoke (fun _ _ _ => trivial) (fun _ _ _ => trivial) (fun _ _ _ _ _ => trivial)
      (fun _ _ _ => by simp)
      fun _ => by simp
  intro h
  have hkept := hkeeps s trivial
  rw [h] at hkept
  exact hkept.1 fault rfl

section Origin

variable {context : Context σ} {e : Expr} {s s' : State σ} {fault : Fault}

/-- If a part leaves the language, so does the node that comes to it. -/
theorem Escapes.enter {part : Expr} {s₁ : State σ} (henters : Enters context s e part s₁)
    (h : part.Escapes context s₁ fault) : e.Escapes context s fault := by
  cases h with
  | difference hoverflows =>
    obtain ⟨hvisits, hleft, hright, hfar⟩ := hoverflows
    exact .difference (.intro (.part henters hvisits) hleft hright hfar)
  | uncountable hlong => exact .uncountable hlong

/-- A fault of one of several parts is the fault of a part that is entered. -/
theorem escapes_of_evalAll (hcontext : context.Plain) {es : List Expr} (hes : ∀ e ∈ es, e.Proper)
    (ih : ∀ part ∈ es, ∀ s s', s.scope.Furnished context →
      part.eval context s = .error (.fault fault) s' → part.Escapes context s fault)
    (henters : ∀ before part after vs s₁, es = before ++ part :: after →
      evalAll context before s = .ok vs s₁ → Enters context s e part s₁)
    (hs : s.scope.Furnished context) (h : evalAll context es s = .error (.fault fault) s') :
    e.Escapes context s fault := by
  obtain ⟨before, part, after, vs, s₁, rfl, hbefore, hpart⟩ := exists_of_evalAll_error h
  have hkeeps := evalAll_keeps fun e he => eval_native hcontext (hes e (List.mem_append_left _ he))
  have hs₁ := (kept_of_ok hkeeps hs hbefore).2
  exact .enter (henters before part after vs s₁ rfl hbefore) (ih part (by simp) s₁ s' hs₁ hpart)

/-- A fault of a node with two operands is the fault of an operand or of the operation itself. -/
theorem escapes_of_operands (hcontext : context.Plain) {x y : Expr} (hx : x.Proper) (hy : y.Proper)
    (ihx : ∀ {s s' : State σ}, x.Proper → s.scope.Furnished context →
      x.eval context s = .error (.fault fault) s' → x.Escapes context s fault)
    (ihy : ∀ {s s' : State σ}, y.Proper → s.scope.Furnished context →
      y.eval context s = .error (.fault fault) s' → y.Escapes context s fault)
    (hfirst : Enters context s e x s)
    (hsecond : ∀ {a : Value} {s₁ : State σ}, x.eval context s = .ok a s₁ → Enters context s e y s₁)
    {operation : Value → Value → Run σ Value}
    (hown : ∀ a b s₁ s₂, x.eval context s = .ok a s₁ → y.eval context s₁ = .ok b s₂ →
      Native context.limits a → Native context.limits b →
      operation a b s₂ = .error (.fault fault) s' → e.Escapes context s fault)
    (hs : s.scope.Furnished context)
    (h : (do
      let a ← x.eval context
      let b ← y.eval context
      operation a b) s = .error (.fault fault) s') : e.Escapes context s fault := by
  rcases bind_eq_error h with hleft | ⟨a, s₁, hleft, h⟩
  · exact .enter hfirst (ihx hx hs hleft)
  · obtain ⟨ha, hs₁⟩ := kept_of_ok (eval_native hcontext hx) hs hleft
    rcases bind_eq_error h with hright | ⟨b, s₂, hright, hfault⟩
    · exact .enter (hsecond hleft) (ihy hy hs₁ hright)
    · have hb := (kept_of_ok (eval_native hcontext hy) hs₁ hright).1
      exact hown a b s₁ s₂ hleft hright ha hb hfault

/-- A fault of a loop is the fault of one of its turns. -/
theorem exists_turn_of_collect (hcontext : context.Plain) {binder : String} {guard : Option Expr}
    {body : Expr} (hguard : ∀ g ∈ guard, g.Proper) (hbody : body.Proper) {items : List Value}
    (hitems : ∀ item ∈ items, Native context.limits item) (hs : s.scope.Furnished context)
    (h : Run.collect (fun item => Run.inScope binder item (turn context guard body)) [] items s =
      .error (.fault fault) s') :
    ∃ before item after found s₁ s₂, items = before ++ item :: after ∧
      Run.collect (fun item => Run.inScope binder item (turn context guard body)) [] before s =
        .ok found s₁ ∧
      (s₁.scope.push.bind binder item).Furnished context ∧
      turn context guard body { s₁ with scope := s₁.scope.push.bind binder item } =
        .error (.fault fault) s₂ := by
  obtain ⟨before, item, after, found, s₁, rfl, hbefore, hitem⟩ := exists_of_collect_error h
  obtain ⟨s₂, hturn⟩ := exists_of_inScope_error hitem
  have hkeeps := loop_native hcontext binder hguard hbody fun item hmem =>
    hitems item (List.mem_append_left _ hmem)
  have hs₁ := (kept_of_ok hkeeps hs hbefore).2
  exact ⟨before, item, after, found, s₁, s₂, rfl, hbefore,
    hs₁.push.bind binder (hitems item (by simp)), hturn⟩

/-- If a turn of a comprehension ends in a fault, the comprehension leaves the language, provided
that its guard and its body do so where they end in one. -/
theorem escapes_of_turn (hcontext : context.Plain) {span : Span} {binder : String}
    {iterable body : Expr} {guard : Option Expr} (hguard : ∀ g ∈ guard, g.Proper) {s₁ s₂ : State σ}
    (hbegins : Begins context s binder iterable guard body s₁) (hs₁ : s₁.scope.Furnished context)
    (hturn : turn context guard body s₁ = .error (.fault fault) s₂)
    (ihguard : ∀ g, guard = some g → ∀ s s', s.scope.Furnished context →
      g.eval context s = .error (.fault fault) s' → g.Escapes context s fault)
    (ihbody : ∀ s s', s.scope.Furnished context →
      body.eval context s = .error (.fault fault) s' → body.Escapes context s fault) :
    (Expr.comprehension span binder iterable guard body).Escapes context s fault := by
  have hyield : ∀ {s₁ s₂ : State σ}, (do
      let v ← body.eval context
      pure (some v) : Run σ (Option Value)) s₁ = .error (.fault fault) s₂ →
      body.eval context s₁ = .error (.fault fault) s₂ := by
    intro s₁ s₂ h
    rcases bind_eq_error h with h | ⟨_, _, -, hpure⟩
    · exact h
    · cases hpure
  cases guard with
  | none => exact .enter (.body hbegins) (ihbody s₁ s₂ hs₁ (hyield hturn))
  | some g =>
    rcases bind_eq_error hturn with hg | ⟨a, s₃, hg, hturn⟩
    · exact .enter (.guard hbegins) (ihguard g rfl s₁ s₂ hs₁ hg)
    obtain ⟨ha, hs₃⟩ := kept_of_ok (eval_native hcontext (hguard g rfl)) hs₁ hg
    rcases bind_eq_error hturn with hlift | ⟨holds, s₄, hlift, hturn⟩
    · exact .uncountable (fault_of_lift (Native.truth ha) hlift)
    obtain ⟨htruth, rfl⟩ := eq_ok_of_lift hlift
    cases holds with
    | true => exact .enter (.guarded hbegins hg htruth) (ihbody s₃ s₂ hs₃ (hyield hturn))
    | false => cases hturn

/-- If a tree fails with a fault, from a state whose values are native, it escapes from the
language. -/
theorem escapes_of_eval (hcontext : context.Plain) (he : e.Proper) (hs : s.scope.Furnished context)
    (h : e.eval context s = .error (.fault fault) s') : e.Escapes context s fault := by
  -- Each run inside of a node succeeds, fails in a part that is entered, or fails by an operation
  -- of the node.
  induction e using byParts generalizing s s' with
  | number | string | boolean =>
    rw [eval] at h
    cases h
  | foreign item => exact absurd rfl (he.root item)
  | identifier span name =>
    rw [eval_identifier] at h
    split at h <;> cases h
  | program span es ih =>
    rw [eval, evalLast_eq] at h
    rcases bind_eq_error h with hes | ⟨vs, s₁, -, hpure⟩
    · refine escapes_of_evalAll hcontext (fun e he' => he.part he')
        (fun part hpart s s' hs => ih part hpart (he.part hpart) hs) ?_ hs hes
      rintro before part after vs s₁ rfl hbefore
      exact .statement hbefore
    · cases hpure
  | array span es ih =>
    rw [eval] at h
    rcases bind_eq_error h with hes | ⟨vs, s₁, hvs, hlist⟩
    · refine escapes_of_evalAll hcontext (fun e he' => he.part he')
        (fun part hpart s s' hs => ih part hpart (he.part hpart) hs) ?_ hs hes
      rintro before part after vs s₁ rfl hbefore
      exact .element hbefore
    · have hkeeps := evalAll_keeps fun e he' => eval_native hcontext (he.part he')
      rcases bind_eq_error hlist with hlong | ⟨_, _, -, hpure⟩
      · exact .uncountable (fault_of_lift (tame_list (kept_of_ok hkeeps hs hvs).1) hlong)
      · cases hpure
  | call span name es ih =>
    rw [eval] at h
    cases hcallee : context.callee? name with
    | none => simp only [hcallee] at h; cases h
    | some callee =>
      cases callee with
      | notCallable => simp only [hcallee] at h; cases h
      | function run =>
        simp only [hcallee] at h
        rcases bind_eq_error h with hes | ⟨vs, s₁, -, hinvoke⟩
        · refine escapes_of_evalAll hcontext (fun e he' => he.part he')
            (fun part hpart s s' hs => ih part hpart (he.part hpart) hs) ?_ hs hes
          rintro before part after vs s₁ rfl hbefore
          exact .argument hcallee hbefore
        · exact absurd hinvoke invoke_ne_fault
  | binary span operator x y hx hy =>
    rw [eval] at h
    refine escapes_of_operands hcontext (he.part (by simp [children]))
      (he.part (by simp [children])) hx hy
      .left (fun hleft => .right hleft) ?_ hs h
    intro a b s₁ s₂ hleft hright ha hb hfault
    rcases fault_of_lift (Native.applyBinary ha hb operator) hfault with
      hlong | ⟨rfl, rfl, t, u, rfl, rfl, hfar⟩
    · exact .uncountable hlong
    · exact .difference (.intro .root hleft hright hfar)
  | unary span operator x ih =>
    rw [eval] at h
    rcases bind_eq_error h with hx | ⟨a, s₁, hx, hfault⟩
    · exact .enter .operand (ih (he.part (by simp [children])) hs hx)
    · have ha := (kept_of_ok (eval_native hcontext (he.part (by simp [children]))) hs hx).1
      exact .uncountable (fault_of_lift (Native.applyUnary ha operator) hfault)
  | assign span name value ih =>
    rw [eval] at h
    by_cases hname : context.external.contains name = true
    · rw [if_pos hname] at h
      cases h
    · rw [if_neg hname] at h
      rcases bind_eq_error h with hvalue | ⟨v, s₁, -, hpure⟩
      · exact .enter (.value (mt List.contains_iff_mem.mpr hname))
          (ih (he.part (by simp [children])) hs hvalue)
      · cases hpure
  | conditional span c x y hc hx hy =>
    rw [eval] at h
    rcases bind_eq_error h with hcondition | ⟨a, s₁, hcondition, h⟩
    · exact .enter .condition (hc (he.part (by simp [children])) hs hcondition)
    · obtain ⟨ha, hs₁⟩ :=
        kept_of_ok (eval_native hcontext (he.part (by simp [children]))) hs hcondition
      rcases bind_eq_error h with hlift | ⟨holds, s₂, hlift, h⟩
      · exact .uncountable (fault_of_lift (Native.truth ha) hlift)
      · obtain ⟨htruth, rfl⟩ := eq_ok_of_lift hlift
        cases holds with
        | true =>
          exact .enter (.consequent hcondition htruth) (hx (he.part (by simp [children])) hs₁ h)
        | false =>
          exact .enter (.alternate hcondition htruth) (hy (he.part (by simp [children])) hs₁ h)
  | comprehension span binder iterable guard body hi hg hb =>
    have hbody : body.Proper := he.part (by simp [children])
    have hguard : ∀ g ∈ guard, g.Proper := by
      rintro g rfl
      exact he.part (by simp [children])
    rw [eval_comprehension] at h
    rcases bind_eq_error h with hiterable | ⟨source, s₁, hiterable, h⟩
    · exact .enter .iterable (hi (he.part (by simp [children])) hs hiterable)
    obtain ⟨hsource, hs₁⟩ :=
      kept_of_ok (eval_native hcontext (he.part (by simp [children]))) hs hiterable
    rcases bind_eq_error h with hlift | ⟨items, s₂, hlift, h⟩
    · exact .uncountable (fault_of_lift (Native.items hsource) hlift)
    obtain ⟨hitems, rfl⟩ := eq_ok_of_lift hlift
    have hnative : ∀ item ∈ items, Native context.limits item := by
      have htame := Native.items hsource
      rwa [hitems] at htame
    rcases bind_eq_error h with hloop | ⟨results, s₂, hloop, h⟩
    · obtain ⟨before, item, after, found, s₂, s₃, rfl, hbefore, hs₂, hturn⟩ :=
        exists_turn_of_collect hcontext hguard hbody hnative hs₁ hloop
      exact escapes_of_turn hcontext hguard (.intro hiterable hitems hbefore) hs₂ hturn
        (fun g hg' s s' hs => hg g hg' (hguard g hg') hs) fun s s' hs => hb hbody hs
    · have hresults := (kept_of_ok (loop_native hcontext binder hguard hbody hnative) hs₁ hloop).1
      rcases bind_eq_error h with hlong | ⟨_, _, -, hpure⟩
      · exact .uncountable (fault_of_lift (tame_list hresults) hlong)
      · cases hpure
  | index span x y hx hy =>
    rw [eval] at h
    refine escapes_of_operands hcontext (he.part (by simp [children]))
      (he.part (by simp [children])) hx hy
      .object (fun hobject => .offset hobject) ?_ hs h
    intro a b s₁ s₂ _ _ ha hb hfault
    exact .uncountable (fault_of_lift (Native.element ha hb) hfault)
  | range span x y inclusive hx hy =>
    rw [eval] at h
    refine escapes_of_operands hcontext (he.part (by simp [children]))
      (he.part (by simp [children])) hx hy
      .first (fun hfirst => .last hfirst) ?_ hs h
    intro a b s₁ s₂ _ _ ha hb hfault
    exact .uncountable (fault_of_lift (Native.buildRange ha hb inclusive) hfault)

end Origin

/-! ## The way out -/

/-- The first way out is taken wherever evaluation comes to it. -/
theorem Overflows.fails {context : Context σ} {e : Expr} {s : State σ} (h : e.Overflows context s) :
    ∃ s', e.eval context s = .error (.fault .integerTooLarge) s' := by
  obtain @⟨span, left, right, s₁, s₂, s₃, t, u, hvisits, hleft, hright, hfar⟩ := h
  have hfloat : (Numeric.integer (t.millis - u.millis)).toFloat = .error .integerTooLarge := by
    rw [Numeric.toFloat, hfar]
  have hdifference : Value.applyBinary context.limits .subtract (.timestamp t) (.timestamp u) =
      .error (.fault .integerTooLarge) := by
    show (do
      let x ← Value.orFault (Numeric.integer (t.millis - u.millis)).toFloat
      return Value.number x) = _
    rw [hfloat]
    rfl
  have hnode : (Expr.binary span .subtract left right).eval context s₁ =
      .error (.fault .integerTooLarge) s₃ := by
    rw [eval, bind_of_ok hleft, bind_of_ok hright, hdifference]
    rfl
  exact hvisits.fails hnode

end Expr

/-! ## Formulas -/

/-- Parsing fails with errors of the language only. -/
theorem parse_ne_fault (source : String) (limits : Limits) (fault : Fault) :
    parse source limits ≠ .error (.fault fault) := by
  intro h
  cases htokens : tokenize source limits with
  | error e => simp [parse, htokens] at h
  | ok tokens =>
    obtain ⟨body, eof, rfl, hscans, heof⟩ := tokenize_scans htokens
    have hsound := Parser.parse_sound htokens heof hscans
    rw [h] at hsound
    rcases hsound with hsyntax | ⟨hlimit, -⟩
    · exact hsyntax
    · exact hlimit

namespace Evaluation

/-- A proper formula is prepared to a proper tree, or there is an error.  The context gets a source
at most. -/
theorem prepare_proper (context : Context σ) {formula : Formula} (hformula : formula.Proper) :
    (∃ e, prepare formula context = .error (.error e)) ∨
    ∃ e source, prepare formula context = .ok (e, { context with source := source }) ∧
      e.Proper := by
  cases formula with
  | tree e => exact .inr ⟨e, context.source, rfl, hformula⟩
  | text source =>
    have hprepare : prepare (.text source) context = (do
        let e ← parse source context.limits
        return (e, { context with source := context.source.orElse fun _ => some source })) := rfl
    rw [hprepare]
    cases hparse : parse source context.limits with
    | ok e => exact .inr ⟨e, _, rfl, (parse_wellFormed hparse).1.not_foreign⟩
    | error failure =>
      cases failure with
      | error e => exact .inl ⟨e, rfl⟩
      | fault fault => exact absurd hparse (parse_ne_fault _ _ fault)

/-- A run is the evaluation of what is prepared, from the state that the evaluator begins with. -/
theorem run_eq {formula : Formula} {context prepared : Context σ} {host : σ} {e : Expr}
    {s : State σ} (hprepare : prepare formula context = .ok (e, prepared))
    (hbegin : Evaluator.begin prepared host = .ok s) :
    run formula context host =
      ⟨(continueWith prepared e s).1, some (continueWith prepared e s).2⟩ := by
  unfold run
  rw [hprepare]
  dsimp only
  rw [hbegin]

/-- If the evaluation of what is prepared fails, so does the run. -/
theorem result_of_error {formula : Formula} {context prepared : Context σ} {host : σ} {e : Expr}
    {s s' : State σ} {failure : Failure} (hprepare : prepare formula context = .ok (e, prepared))
    (hbegin : Evaluator.begin prepared host = .ok s) (h : e.eval prepared s = .error failure s') :
    (run formula context host).result = .error failure := by
  rw [run_eq hprepare hbegin, continueWith, h]

/-- The host gets a value or an error of the language, and an attempt has a record of it. -/
def Answers (evaluation : Evaluation σ) : Prop :=
  (∃ v, evaluation.result = .ok v ∧ evaluation.attempt = .ok ⟨some v, none, evaluation.bindings⟩) ∨
  ∃ e, evaluation.result = .error (.error e) ∧
    evaluation.attempt = .ok ⟨none, some e, evaluation.bindings⟩

/-- A run answers, or it ends in a fault that an attempt passes on. -/
theorem answers_or_fault (evaluation : Evaluation σ) :
    evaluation.Answers ∨
    ∃ fault, evaluation.result = .error (.fault fault) ∧ evaluation.attempt = .error fault := by
  obtain ⟨result, state⟩ := evaluation
  cases result with
  | ok v => exact .inl (.inl ⟨v, rfl, rfl⟩)
  | error failure =>
    cases failure with
    | error e => exact .inl (.inr ⟨e, rfl, rfl⟩)
    | fault fault => exact .inr ⟨fault, rfl, rfl⟩

/-- If the run of a proper formula ends in a fault, the evaluation of its tree leaves the
language. -/
theorem escapes_of_result {formula : Formula} {context : Context σ} {host : σ} {fault : Fault}
    (hformula : formula.Proper) (hcontext : context.Plain)
    (h : (run formula context host).result = .error (.fault fault)) :
    ∃ e source s, prepare formula context = .ok (e, { context with source := source }) ∧
      Evaluator.begin { context with source := source } host = .ok s ∧
      e.Escapes { context with source := source } s fault := by
  rcases prepare_proper context hformula with ⟨e, hprepare⟩ | ⟨e, source, hprepare, hproper⟩
  · simp [run, hprepare] at h
  have hplain : Context.Plain { context with source := source } :=
    ⟨hcontext.supplied, hcontext.returned⟩
  cases hbegin : Evaluator.begin { context with source := source } host with
  | error error => simp [run, hprepare, hbegin] at h
  | ok s =>
    rw [run_eq hprepare hbegin, continueWith] at h
    cases hrun : e.eval { context with source := source } s with
    | ok v after =>
      rw [hrun] at h
      cases h
    | error failure after =>
      rw [hrun] at h
      obtain rfl := Except.error.inj h
      have hs := Evaluator.furnished_begin hplain hbegin
      exact ⟨e, source, s, hprepare, hbegin, Expr.escapes_of_eval hplain hproper hs hrun⟩

/-- A formula has a value or an error, and an attempt to evaluate it has a record, unless its
evaluation escapes from the language; then there is neither.  If it comes to a difference of
timestamps to which no double is near, then it does escape. -/
theorem run_escapes (formula : Formula) (context : Context σ) (host : σ) (hformula : formula.Proper)
    (hcontext : context.Plain) :
    ((run formula context host).Answers ∨
      ∃ e source s fault, prepare formula context = .ok (e, { context with source := source }) ∧
        Evaluator.begin { context with source := source } host = .ok s ∧
        e.Escapes { context with source := source } s fault ∧
        (run formula context host).result = .error (.fault fault) ∧
        (run formula context host).attempt = .error fault) ∧
    ∀ e prepared s, prepare formula context = .ok (e, prepared) →
      Evaluator.begin prepared host = .ok s →
      e.Overflows prepared s →
        (run formula context host).result = .error (.fault .integerTooLarge) := by
  constructor
  · rcases answers_or_fault (run formula context host) with hanswers | ⟨fault, hresult, hattempt⟩
    · exact .inl hanswers
    · obtain ⟨e, source, s, hprepare, hbegin, hescapes⟩ :=
        escapes_of_result hformula hcontext hresult
      exact .inr ⟨e, source, s, fault, hprepare, hbegin, hescapes, hresult, hattempt⟩
  · intro e prepared s hprepare hbegin hoverflows
    obtain ⟨s', hfault⟩ := hoverflows.fails
    exact result_of_error hprepare hbegin hfault

/-- Where nothing is subtracted, a host with the standard limits gets an answer, also if its
function fails. -/
theorem run_answers_of_failing_function :
    (run (.tree (.call .none "halve" [.identifier .none "xs"]))
      ⟨fun _ => some (.function fun _ calls => (.failed "out of order", calls + 1)),
        [("xs", .tuple [.integer 7, .timestamp ⟨0⟩])], .standard, none⟩ 0).Answers := by
  have hplain : Context.Plain
      ⟨fun _ => some (.function fun _ calls => (.failed "out of order", calls + 1)),
        [("xs", .tuple [.integer 7, .timestamp ⟨0⟩])], .standard, none⟩ := by
    refine ⟨List.forall_mem_singleton.mpr (.tuple ?_ (by decide)), ?_⟩
    · exact List.forall_mem_cons.mpr ⟨.integer 7, List.forall_mem_singleton.mpr (.timestamp _)⟩
    · rintro name run hrun args host v hreply
      obtain rfl := Callee.function.inj (Option.some.inj hrun)
      cases hreply
  have hproper : (Expr.call .none "halve" [.identifier .none "xs"]).Proper := by
    simp [Expr.Proper, Expr.Everywhere, Expr.nodes_eq, Expr.children]
  have hrun := run_escapes (.tree (.call .none "halve" [.identifier .none "xs"])) _ 0 hproper hplain
  rcases hrun.1 with hanswers | ⟨e, source, s, fault, hprepare, -, hescapes, -⟩
  · exact hanswers
  · obtain ⟨rfl, -⟩ := Prod.mk.inj (Except.ok.inj hprepare)
    cases hescapes with
    | difference hoverflows =>
      obtain ⟨hvisits, -, -, -⟩ := hoverflows
      have hmem := hvisits.mem_nodes
      simp [Expr.nodes_eq, Expr.children] at hmem
    | uncountable hlong =>
      have hcountable : ¬ ((Sequence.longest : Int) < Limits.standard.bound .rangeLength ∨
          (Sequence.longest : Int) < Limits.standard.bound .arrayLength) := by decide
      exact absurd hlong.2 hcountable

/-- Two timestamps of a host that are too far apart lead out of the language. -/
theorem run_difference_too_large :
    ∃ context : Context Unit, context.Plain ∧ context.limits = .standard ∧
      context.supplied = [("u", .timestamp ⟨Number.twoTo 1024⟩), ("t", .timestamp ⟨0⟩)] ∧
      (run (.tree (.binary .none .subtract (.identifier .none "u") (.identifier .none "t")))
        context ()).result = .error (.fault .integerTooLarge) ∧
      (run (.tree (.binary .none .subtract (.identifier .none "u") (.identifier .none "t")))
        context ()).attempt = .error .integerTooLarge := by
  have hlarge : Number.ofInt? (Number.twoTo 1024 - 0) = none :=
    Option.isNone_iff_eq_none.mp (by decide +kernel)
  -- The timestamps are general at first, so that nothing computes with the large one.
  have hresult : ∀ t u : Timestamp, Number.ofInt? (u.millis - t.millis) = none →
      (run (.tree (.binary .none .subtract (.identifier .none "u") (.identifier .none "t")))
        ⟨fun _ => none, [("u", .timestamp u), ("t", .timestamp t)], .standard, none⟩ ()).result =
        .error (.fault .integerTooLarge) := by
    intro t u hfar
    have hfault : ∃ s', Expr.eval
        ⟨fun _ => none, [("u", .timestamp u), ("t", .timestamp t)], .standard, none⟩
        (.binary .none .subtract (.identifier .none "u") (.identifier .none "t"))
        ⟨⟨[], ⟨[("u", .timestamp u), ("t", .timestamp t)]⟩⟩, (), [], []⟩ =
        .error (.fault .integerTooLarge) s' :=
      Expr.Overflows.fails (.intro .root (Expr.eval_identifier _ _ _)
        (Expr.eval_identifier _ _ _) hfar)
    obtain ⟨s', hfault⟩ := hfault
    exact result_of_error rfl rfl hfault
  refine ⟨_, ⟨?_, ?_⟩, rfl, rfl, hresult _ _ hlarge, ?_⟩
  · exact List.forall_mem_cons.mpr ⟨.timestamp _, List.forall_mem_singleton.mpr (.timestamp _)⟩
  · intro name run hrun
    cases hrun
  · rw [attempt, hresult _ _ hlarge]

end Evaluation

end Formulary
