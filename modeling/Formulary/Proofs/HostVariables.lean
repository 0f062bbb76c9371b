import Formulary.Proofs.Invariant

/-!
# Variables of the host

A host evaluates any number of trees in one evaluator.  Whatever they assign, and however they end,
each variable that the host supplies keeps its value at the top level, and what stands on the right
side of an assignment to such a variable makes no difference to anything that can be seen
(`Evaluation.session_external`).  The first is an invariant of scopes; for the second `Expr.redact`
blots these right sides out, and a tree evaluates exactly as its redacted form does.
-/

set_option autoImplicit false

namespace Formulary

variable {σ : Type}

/-- The outcomes of evaluating trees one after the other, each in the state that the one before
left. -/
def Evaluation.session (context : Context σ) (s : State σ) :
    List Expr → List (Except Failure Value × State σ)
  | [] => []
  | e :: es =>
    let outcome := continueWith context e s
    outcome :: session context outcome.2 es

/-! ## Their values -/

/-- To bind the variables of a host is to bind the normal form of the first and then the others. -/
theorem Context.bindAll_cons_eq_ok {table after : Bindings} {name : String} {v : Value}
    {rest : List (String × Value)} (h : bindAll table ((name, v) :: rest) = .ok after) :
    ∃ w, v.normalize = .ok w ∧ bindAll (table.insert name w) rest = .ok after := by
  rw [bindAll] at h
  cases hv : v.normalize with
  | error fault =>
    rw [hv] at h
    cases h
  | ok w =>
    rw [hv] at h
    exact ⟨w, rfl, h⟩

/-- A name has the normal form of the last value that is given for it. -/
theorem Context.find?_bindAll {table after : Bindings} {supplied : List (String × Value)}
    (h : bindAll table supplied = .ok after) (name : String) :
    match supplied.reverse.lookup name with
    | some v => ∃ w, v.normalize = .ok w ∧ after.find? name = some w
    | none => after.find? name = table.find? name := by
  induction supplied generalizing table with
  | nil =>
    obtain rfl := Except.ok.inj h
    rfl
  | cons entry rest ih =>
    obtain ⟨other, v⟩ := entry
    obtain ⟨w, hv, h⟩ := bindAll_cons_eq_ok h
    have hrest := ih h
    rw [List.reverse_cons, List.lookup_append]
    cases hlookup : rest.reverse.lookup name with
    | some u =>
      rw [hlookup] at hrest
      exact hrest
    | none =>
      rw [hlookup, Bindings.find?_insert] at hrest
      by_cases hname : name = other
      · subst hname
        rw [if_pos rfl] at hrest
        simpa using ⟨w, hv, hrest⟩
      · have hbeq : (name == other) = false := by simpa using hname
        rw [if_neg hname] at hrest
        simpa [List.lookup_cons, hbeq] using hrest

/-- The names of a table are those for which it has a value. -/
theorem Bindings.mem_names_iff (table : Bindings) (name : String) :
    name ∈ table.names ↔ ∃ v, table.find? name = some v := by
  constructor
  · intro hname
    obtain ⟨⟨_, v⟩, hentry, rfl⟩ := List.mem_map.mp hname
    rw [← Option.isSome_iff_exists, ← Option.ne_none_iff_isSome]
    intro hnone
    have hne := List.lookup_eq_none_iff.mp hnone _ hentry
    simp at hne
  · rintro ⟨v, hv⟩
    obtain ⟨before, after, hsplit, -⟩ := List.lookup_eq_some_iff.mp hv
    have hentry : (name, v) ∈ table.entries := by rw [hsplit]; simp
    exact List.mem_map.mpr ⟨(name, v), hentry, rfl⟩

/-- The names of the host are those for which a value is given. -/
theorem Context.mem_external_iff (context : Context σ) (name : String) :
    name ∈ context.external ↔ ∃ v, context.supplied.reverse.lookup name = some v := by
  have hnames := Bindings.mem_names_iff ⟨context.supplied.reverse⟩ name
  rwa [Bindings.names, List.map_reverse, List.mem_reverse] at hnames

/-- The names of the host are bound at the start, and no others. -/
theorem Context.mem_names_bindAll {context : Context σ} {table : Bindings}
    (h : bindAll .empty context.supplied = .ok table) (name : String) :
    name ∈ table.names ↔ name ∈ context.external := by
  have hfind := find?_bindAll h name
  rw [Bindings.mem_names_iff, mem_external_iff]
  cases hlookup : context.supplied.reverse.lookup name with
  | none =>
    rw [hlookup] at hfind
    rw [hfind]
    exact ⟨nofun, nofun⟩
  | some v =>
    rw [hlookup] at hfind
    obtain ⟨w, -, hw⟩ := hfind
    exact ⟨fun _ => ⟨v, rfl⟩, fun _ => ⟨w, hw⟩⟩

/-- An evaluator begins with a root table of the variables of the host, with no call and no
event. -/
theorem Evaluator.begin_eq_ok {context : Context σ} {host : σ} {s : State σ}
    (h : begin context host = .ok s) :
    ∃ table, Context.bindAll .empty context.supplied = .ok table ∧
      s = ⟨⟨[], table⟩, host, [], []⟩ := by
  unfold begin Context.globals at h
  cases htable : Context.bindAll .empty context.supplied with
  | error fault =>
    rw [htable] at h
    cases h
  | ok table =>
    rw [htable] at h
    exact ⟨table, rfl, (Except.ok.inj h).symm⟩

/-- The names of the host have their values in the root. -/
def Scope.Holds (table : Bindings) (names : List String) (scope : Scope) : Prop :=
  ∀ name ∈ names, scope.root.find? name = table.find? name

/-- Binding a name keeps the values of the host's names if each of them is bound to the value it
has. -/
theorem Scope.Holds.bind {table : Bindings} {names : List String} {scope : Scope} {name : String}
    {v : Value} (h : scope.Holds table names)
    (hv : name ∈ names → v = (scope.root.find? name).getD .null)
    (hfound : ∀ name ∈ names, (table.find? name).isSome = true) :
    (scope.bind name v).Holds table names := by
  intro other hother
  rw [root_bind]
  by_cases hsame : scope.inner = [] ∧ other = name
  · rw [if_pos hsame]
    obtain ⟨-, rfl⟩ := hsame
    obtain ⟨w, hw⟩ := Option.isSome_iff_exists.mp (hfound other hother)
    rw [hv hother, h other hother, hw]
    rfl
  · rw [if_neg hsame]
    exact h other hother

/-- Inside of a comprehension the root is out of reach. -/
theorem Scope.Holds.push {table : Bindings} {names : List String} {scope : Scope}
    (h : scope.Holds table names) (binder : String) (item : Value) :
    (scope.push.bind binder item).Holds table names := by
  intro other hother
  rw [root_bind, if_neg (by simp [Scope.push])]
  exact h other hother

/-- Over a whole session, the names of the host keep their values. -/
theorem Evaluation.holds_session {context : Context σ} {table : Bindings}
    (hfound : ∀ name ∈ context.external, (table.find? name).isSome = true) {s : State σ}
    (hs : s.scope.Holds table context.external) (es : List Expr) :
    ∀ outcome ∈ session context s es, outcome.2.scope.Holds table context.external := by
  induction es generalizing s with
  | nil => intro outcome houtcome; cases houtcome
  | cons e es ih =>
    have hbind : ∀ node, Expr.Rebindable context (Scope.Holds table context.external) node :=
      fun node name _ scope v hv hscope => hscope.bind hv hfound
    have hafter := Expr.scope_kept (e := e) _ _ (fun node _ => hbind node)
      (fun node _ => hbind node)
      (fun _ binder item h => h.push binder item) (fun _ binder item h => h.push binder item) hs
    exact List.forall_mem_cons.mpr ⟨hafter, ih hafter⟩

/-! ## Their assignments -/

namespace Expr

mutual

/-- A tree in which the right sides of all assignments to some names are blotted out. -/
def redact (names : List String) : Expr → Expr
  | .program span statements => .program span (redactAll names statements)
  | .array span elements => .array span (redactAll names elements)
  | .binary span operator left right =>
    .binary span operator (redact names left) (redact names right)
  | .unary span operator argument => .unary span operator (redact names argument)
  | .call span name arguments => .call span name (redactAll names arguments)
  | .assign span name value =>
    .assign span name (if names.contains name then .boolean .none false else redact names value)
  | .conditional span condition consequent alternate =>
    .conditional span (redact names condition) (redact names consequent) (redact names alternate)
  | .comprehension span binder iterable none body =>
    .comprehension span binder (redact names iterable) none (redact names body)
  | .comprehension span binder iterable (some guard) body =>
    .comprehension span binder (redact names iterable) (some (redact names guard))
      (redact names body)
  | .index span object offset => .index span (redact names object) (redact names offset)
  | .range span first last inclusive =>
    .range span (redact names first) (redact names last) inclusive
  | .number span value => .number span value
  | .string span value => .string span value
  | .boolean span value => .boolean span value
  | .identifier span name => .identifier span name
  | .foreign item => .foreign item

/-- Several trees in which these right sides are blotted out. -/
def redactAll (names : List String) : List Expr → List Expr
  | [] => []
  | e :: es => redact names e :: redactAll names es

end

/-- Blotting out right sides keeps the span of a tree. -/
theorem span_redact (names : List String) (e : Expr) : (e.redact names).span = e.span := by
  cases e with
  | comprehension _ _ _ guard _ => cases guard <;> simp [redact, span]
  | _ => simp [redact, span]

section Lists

variable {context : Context σ} {es : List Expr}

/-- A list of trees is evaluated the same with the right sides blotted out if each tree is. -/
theorem evalAll_redactAll (h : ∀ e ∈ es, (e.redact context.external).eval context =
    e.eval context) :
    evalAll context (redactAll context.external es) = evalAll context es := by
  induction es with
  | nil => rfl
  | cons e es ih =>
    rw [redactAll, evalAll, evalAll, h e List.mem_cons_self, ih fun e he =>
      h e (List.mem_cons_of_mem _ he)]

/-- Statements are evaluated the same with the right sides blotted out if each of them is. -/
theorem evalLast_redactAll (h : ∀ e ∈ es, (e.redact context.external).eval context = e.eval context)
    (result : Value) :
    evalLast context result (redactAll context.external es) = evalLast context result es := by
  induction es generalizing result with
  | nil => rfl
  | cons e es ih =>
    rw [redactAll, evalLast, evalLast, h e List.mem_cons_self]
    congr 1
    funext v
    exact ih (fun e he => h e (List.mem_cons_of_mem _ he)) v

end Lists

/-- What is blotted out is never evaluated. -/
theorem eval_redact (context : Context σ) (e : Expr) :
    (e.redact context.external).eval context = e.eval context := by
  induction e using byParts with
  | number | string | boolean | identifier | foreign => rw [redact]
  | program span es ih => rw [redact, eval, eval, evalLast_redactAll ih]
  | array span es ih => rw [redact, eval, eval, evalAll_redactAll ih]
  | call span name es ih =>
    rw [redact, eval, eval]
    cases context.callee? name with
    | none => rfl
    | some callee =>
      cases callee with
      | notCallable => rfl
      | function run => simp only [evalAll_redactAll ih]
  | binary span operator l r hl hr => rw [redact, eval, eval, hl, hr]
  | unary span operator a ih => rw [redact, eval, eval, ih]
  | assign span name value ih =>
    rw [redact, eval, eval]
    by_cases hname : context.external.contains name = true
    · rw [if_pos hname, if_pos hname]
    · rw [if_neg hname, if_neg hname, if_neg hname, ih]
  | conditional span c x y hc hx hy => rw [redact, eval, eval, hc, hx, hy]
  | comprehension span binder iterable guard body hi hg hb =>
    cases guard with
    | none => rw [redact, eval, eval, hi, hb]
    | some g => rw [redact, eval, eval, hi, hb, hg g rfl, span_redact]
  | index span x y hx hy => rw [redact, eval, eval, hx, hy]
  | range span x y inclusive hx hy => rw [redact, eval, eval, hx, hy]

end Expr

/-- What stands on the right of assignments to names of the host makes no difference to a
session. -/
theorem Evaluation.session_redact (context : Context σ) (s : State σ) (es : List Expr) :
    session context s (es.map (Expr.redact context.external)) = session context s es := by
  induction es generalizing s with
  | nil => rfl
  | cons e es ih =>
    have hsame : continueWith context (e.redact context.external) s = continueWith context e s := by
      rw [continueWith, continueWith, Expr.eval_redact]
    rw [List.map_cons, session, session, hsame, ih]

/-- In a session every variable of the host keeps the normal form of the host's value, and trees
that differ only in the right sides of assignments to such variables have the same outcomes: values,
errors, calls and bindings. -/
theorem Evaluation.session_external (context : Context σ) (host : σ) (s : State σ)
    (hbegin : Evaluator.begin context host = .ok s) (es : List Expr) :
    (∀ outcome ∈ session context s es, ∀ name v, context.supplied.reverse.lookup name = some v →
      ∃ w, v.normalize = .ok w ∧ outcome.2.scope.root.find? name = some w) ∧
    (∀ es' : List Expr, es'.map (Expr.redact context.external) =
      es.map (Expr.redact context.external) → session context s es' = session context s es) := by
  unfold Evaluator.begin Context.globals at hbegin
  cases htable : Context.bindAll .empty context.supplied with
  | error fault =>
    rw [htable] at hbegin
    cases hbegin
  | ok table =>
    rw [htable] at hbegin
    obtain rfl := Except.ok.inj hbegin
    have hvalue : ∀ name v, context.supplied.reverse.lookup name = some v →
        ∃ w, v.normalize = .ok w ∧ table.find? name = some w := by
      intro name v hv
      have hfind := Context.find?_bindAll htable name
      rwa [hv] at hfind
    have hfound : ∀ name ∈ context.external, (table.find? name).isSome = true := by
      intro name hname
      obtain ⟨v, hv⟩ := (context.mem_external_iff name).mp hname
      obtain ⟨w, -, hw⟩ := hvalue name v hv
      rw [hw]
      rfl
    constructor
    · intro outcome houtcome name v hv
      obtain ⟨w, hnormal, hw⟩ := hvalue name v hv
      refine ⟨w, hnormal, ?_⟩
      rw [← hw]
      exact holds_session hfound (fun _ _ => rfl) es outcome houtcome name
        ((context.mem_external_iff name).mpr ⟨v, hv⟩)
    · intro es' hsame
      rw [← session_redact context _ es', hsame, session_redact]

/-- The first tree assigns a variable of the host, in a comprehension that also binds it, and the
second one fails.  An undefined name on the right side of the assignment is never met. -/
theorem Evaluation.session_external_of_loop :
    ∃ s : State Unit,
      Evaluator.begin ⟨fun _ => none, [("x", .string "host")], .standard, none⟩ () = .ok s ∧
      (∀ outcome ∈ session ⟨fun _ => none, [("x", .string "host")], .standard, none⟩ s
        [.comprehension .none "x" (.string .none "ab") none
          (.assign .none "x" (.string .none "mine")), .identifier .none "nowhere"],
        ∃ w, Value.normalize (.string "host") = .ok w ∧ outcome.2.scope.root.find? "x" = some w) ∧
      session ⟨fun _ => none, [("x", .string "host")], .standard, none⟩ s
        [.comprehension .none "x" (.string .none "ab") none
          (.assign .none "x" (.identifier .none "nowhere")), .identifier .none "nowhere"] =
      session ⟨fun _ => none, [("x", .string "host")], .standard, none⟩ s
        [.comprehension .none "x" (.string .none "ab") none
          (.assign .none "x" (.string .none "mine")), .identifier .none "nowhere"] := by
  refine ⟨⟨⟨[], ⟨[("x", .string "host")]⟩⟩, (), [], []⟩, rfl, ?_, ?_⟩
  · intro outcome houtcome
    exact (session_external _ () _ rfl _).1 outcome houtcome "x" _ rfl
  · exact (session_external _ () _ rfl _).2 _ rfl

end Formulary
