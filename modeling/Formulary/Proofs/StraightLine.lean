import Formulary.Proofs.Assigned
import Formulary.Proofs.Escape

/-!
# Formulas without choices and loops

Where a formula has neither a choice nor a loop, and the host supplies none of the names that it
assigns, every node is evaluated, unless an earlier one fails: its parts from left to right, also
both operands of `&&` and `||`, and then the node.  Two things follow.  The functions called are
those named in the formula, in the order in which a walk from the leaves to the root meets them; if
the evaluation fails, it has called the first of them (`Expr.run_calls`).  And a node that fails in
every state makes the whole formula fail (`Expr.fails_of_node`).
-/

set_option autoImplicit false

namespace Formulary

variable {σ : Type}

namespace Run

variable {α β : Type}

/-! ## The functions that a run calls -/

/-- The names of the functions called, in order. -/
def called (s : State σ) : List String :=
  s.calls.reverse.map (·.name)

/-- A run that succeeds calls functions of the given names, in order; one that fails has called the
first of them. -/
def Calls (names : List String) (x : Run σ α) : Prop :=
  ∀ s, match x s with
    | .ok _ s' => called s' = called s ++ names
    | .error _ s' => ∃ made, made <+: names ∧ called s' = called s ++ made

namespace Calls

/-- A run that succeeds has called the functions of the given names. -/
theorem ok {names : List String} {x : Run σ α} (h : Calls names x) {s s' : State σ} {a : α}
    (hx : x s = .ok a s') : called s' = called s ++ names := by
  have hs := h s
  rwa [hx] at hs

/-- A run that fails has called the first of the functions of the given names. -/
theorem error {names : List String} {x : Run σ α} (h : Calls names x) {s s' : State σ}
    {failure : Failure} (hx : x s = .error failure s') :
    ∃ made, made <+: names ∧ called s' = called s ++ made := by
  have hs := h s
  rwa [hx] at hs

/-- Returning a value calls nothing. -/
theorem pure (a : α) : Calls [] (pure a : Run σ α) :=
  fun _ => (List.append_nil _).symm

/-- Failing calls the first of any functions, namely none. -/
theorem throw (names : List String) (failure : Failure) : Calls names (throw failure : Run σ α) :=
  fun _ => ⟨[], List.nil_prefix, (List.append_nil _).symm⟩

/-- An operation calls nothing. -/
theorem lift (site : Site) (result : Except Refusal α) : Calls [] (lift site result : Run σ α) := by
  cases result with
  | ok a => exact .pure a
  | error refusal => exact .throw [] _

/-- A change of the state that leaves the calls alone calls nothing. -/
theorem modify {f : State σ → State σ} (hf : ∀ s, (f s).calls = s.calls) :
    Calls [] (modify f : Run σ PUnit) := by
  intro s
  show called (f s) = called s ++ []
  rw [List.append_nil, called, hf, called]

/-- A run calls the functions of its first step and then those of its second. -/
theorem bind {names later : List String} {x : Run σ α} {k : α → Run σ β} (hx : Calls names x)
    (hk : ∀ a, Calls later (k a)) : Calls (names ++ later) (x >>= k) := by
  intro s
  cases hfirst : x s with
  | ok a s₁ =>
    rw [bind_of_ok hfirst]
    have hs₁ := hx.ok hfirst
    cases hsecond : k a s₁ with
    | ok b s₂ =>
      show called s₂ = called s ++ (names ++ later)
      rw [(hk a).ok hsecond, hs₁, List.append_assoc]
    | error failure s₂ =>
      obtain ⟨made, hmade, hs₂⟩ := (hk a).error hsecond
      refine ⟨names ++ made, List.prefix_append_right_inj names |>.mpr hmade, ?_⟩
      rw [hs₂, hs₁, List.append_assoc]
  | error failure s₁ =>
    rw [bind_of_error hfirst]
    obtain ⟨made, hmade, hs₁⟩ := hx.error hfirst
    exact ⟨made, hmade.trans (List.prefix_append names later), hs₁⟩

/-- A run that is followed by one without calls. -/
theorem bind_silent {names : List String} {x : Run σ α} {k : α → Run σ β} (hx : Calls names x)
    (hk : ∀ a, Calls [] (k a)) : Calls names (x >>= k) :=
  List.append_nil names ▸ hx.bind hk

/-- Answering a reply calls nothing. -/
theorem answer (site : Site) (name : String) (reply : Reply) :
    Calls [] (answer site name reply : Run σ Value) := by
  cases reply with
  | raised e => exact .throw [] _
  | failed text =>
    show Calls [] (Run.emit (.hostFunctionFailed name text) >>= fun _ =>
      Run.fail (.functionFailed name text) site)
    exact bind_silent (.modify fun _ => rfl) fun _ => .throw [] _
  | returned v =>
    unfold Run.answer
    cases hv : v.normalize with
    | ok w => simpa only [hv] using .pure w
    | error fault => simpa only [hv] using .throw [] _

/-- A call is logged before its reply is looked at. -/
theorem invoke (site : Site) (name : String) (run : List Value → σ → Reply × σ)
    (args : List Value) :
    Calls [name] (invoke site name run args) := by
  intro s
  rw [invoke_apply]
  have hcalled : ∀ host : σ, called { s with host := host, calls := ⟨name, args⟩ :: s.calls } =
    called s ++ [name] := by
    simp [called]
  have hanswer := Calls.answer (σ := σ) site name (run args s.host).1
  cases hreply : Run.answer site name (run args s.host).1
      { s with host := (run args s.host).2, calls := ⟨name, args⟩ :: s.calls } with
  | ok v s' =>
    show called s' = called s ++ [name]
    rw [hanswer.ok hreply, hcalled, List.append_nil]
  | error failure s' =>
    obtain ⟨made, hmade, hs'⟩ := hanswer.error hreply
    obtain rfl := List.prefix_nil.mp hmade
    refine ⟨[name], List.prefix_refl _, ?_⟩
    rw [hs', hcalled, List.append_nil]

end Calls

/-! ## Runs that fail in any case -/

/-- A run fails in every state. -/
def Fails (x : Run σ α) : Prop :=
  ∀ s, ∃ failure s', x s = .error failure s'

namespace Fails

/-- To fail is to fail in any case. -/
theorem throw (failure : Failure) : Fails (throw failure : Run σ α) :=
  fun s => ⟨failure, s, rfl⟩

/-- A run whose first step fails in any case does so too. -/
theorem first {x : Run σ α} (h : Fails x) (k : α → Run σ β) : Fails (x >>= k) := by
  intro s
  obtain ⟨failure, s', hx⟩ := h s
  exact ⟨failure, s', bind_of_error hx k⟩

/-- A run whose second step fails in any case does so too. -/
theorem second {x : Run σ α} {k : α → Run σ β} (h : ∀ a, Fails (k a)) : Fails (x >>= k) := by
  intro s
  cases hx : x s with
  | ok a s₁ =>
    rw [bind_of_ok hx]
    exact h a s₁
  | error failure s₁ => exact ⟨failure, s₁, bind_of_error hx k⟩

end Fails

end Run

namespace Expr

open Run

/-! ## Straight-line trees -/

/-- A node that is neither a choice nor a loop. -/
def Straight : Expr → Prop
  | .conditional .. | .comprehension .. => False
  | _ => True

/-- A node whose parts are all evaluated, once each: neither a choice nor a loop, nor an assignment
to a name that the host supplies. -/
def Unconditional (context : Context σ) : Expr → Prop
  | .conditional .. | .comprehension .. => False
  | .assign _ name _ => name ∉ context.external
  | _ => True

/-- A tree without choices and loops that assigns no name of the host has nothing but unconditional
nodes. -/
theorem unconditional_of_straight {context : Context σ} {e : Expr} (h : e.Everywhere Straight)
    (hnames : ∀ name ∈ e.assignedNames, name ∉ context.external) :
    e.Everywhere (Unconditional context) := by
  intro node hnode
  cases node with
  | conditional | comprehension => exact (h _ hnode).elim
  | assign span name value =>
    apply hnames name
    exact List.mem_eraseDups.mpr (List.mem_filterMap.mpr ⟨_, hnode, rfl⟩)
  | _ => trivial

/-- The nodes of a tree, each behind its parts and the parts from left to right. -/
def postorder (e : Expr) : List Expr :=
  (e.children.attach.flatMap fun part => postorder part.1) ++ [e]
termination_by e.weight
decreasing_by exact weight_lt_of_mem_children part.2

/-- The root of a tree comes behind the nodes of its parts. -/
theorem postorder_eq (e : Expr) : e.postorder = e.children.flatMap postorder ++ [e] := by
  rw [postorder, List.flatMap_subtype (g := postorder) fun _ _ => rfl, List.unattach_attach]

/-- The name of the function that a node calls. -/
def calledName? : Expr → Option String
  | .call _ name _ => some name
  | _ => none

/-- The names of the functions that a tree calls, each behind those of its arguments. -/
def calledNames (e : Expr) : List String :=
  e.postorder.filterMap calledName?

/-- The functions that a tree calls are those of its parts and then its own. -/
theorem calledNames_eq (e : Expr) :
    e.calledNames = e.children.flatMap calledNames ++ e.calledName?.toList := by
  rw [calledNames, postorder_eq, List.filterMap_append, List.filterMap_flatMap, List.filterMap_cons]
  cases e.calledName? <;> rfl

/-- A node with one part that is no call calls what the part calls. -/
theorem calledNames_of_part {e part : Expr} (hparts : e.children = [part])
    (hname : e.calledName? = none) :
    e.calledNames = part.calledNames := by
  rw [calledNames_eq, hparts, hname, List.flatMap_singleton]
  exact List.append_nil _

/-- A node with two parts that is no call calls what the parts call, the first one first. -/
theorem calledNames_of_parts {e l r : Expr} (hparts : e.children = [l, r])
    (hname : e.calledName? = none) :
    e.calledNames = l.calledNames ++ r.calledNames := by
  rw [calledNames_eq, hparts, hname, List.flatMap_cons, List.flatMap_singleton]
  exact List.append_nil _

section Calls

variable {context : Context σ}

/-- A list of parts calls what its parts call, one after the other. -/
theorem evalAll_calls {es : List Expr} (h : ∀ e ∈ es, Calls e.calledNames (e.eval context)) :
    Calls (es.flatMap calledNames) (evalAll context es) := by
  induction es with
  | nil =>
    rw [evalAll]
    exact .pure _
  | cons e es ih =>
    rw [List.forall_mem_cons] at h
    rw [evalAll, List.flatMap_cons]
    exact h.1.bind fun v => (ih h.2).bind_silent fun vs => .pure _

/-- Evaluation calls the functions that a tree names. -/
theorem eval_calls {e : Expr} (h : e.Everywhere (Unconditional context)) :
    Calls e.calledNames (e.eval context) := by
  induction e using byParts with
  | number | string | boolean =>
    rw [calledNames_eq, eval]
    exact .pure _
  | identifier span name =>
    rw [calledNames_eq]
    intro s
    rw [eval_identifier]
    cases s.scope.lookup? name with
    | some v => exact Calls.pure v s
    | none => exact ⟨[], List.nil_prefix, (List.append_nil _).symm⟩
  | foreign item =>
    rw [eval]
    exact .throw _ _
  | program span es ih =>
    have hparts := evalAll_calls fun e he => ih e he (h.part he)
    rw [calledNames_eq, eval, evalLast_eq]
    exact hparts.bind fun _ => .pure _
  | array span es ih =>
    have hparts := evalAll_calls fun e he => ih e he (h.part he)
    rw [calledNames_eq, eval]
    exact hparts.bind fun _ => (Calls.lift _ _).bind_silent fun _ => .pure _
  | call span name es ih =>
    have hparts := evalAll_calls fun e he => ih e he (h.part he)
    rw [calledNames_eq, eval]
    cases context.callee? name with
    | none => exact .throw _ _
    | some callee =>
      cases callee with
      | notCallable => exact .throw _ _
      | function run => exact hparts.bind fun args => .invoke _ name run args
  | assign span name e ih =>
    have hname : name ∉ context.external := h.root
    rw [calledNames_of_part rfl rfl, eval, if_neg fun h => hname (List.contains_iff_mem.mp h)]
    apply (ih (h.part (List.mem_singleton_self e))).bind_silent
    exact fun v => Calls.bind_silent (.modify fun _ => rfl) fun _ => .pure _
  | unary span operator e ih =>
    rw [calledNames_of_part rfl rfl, eval]
    exact (ih (h.part (List.mem_singleton_self e))).bind_silent fun v => .lift _ _
  | binary span operator l r hl hr | index span l r hl hr | range span l r inclusive hl hr =>
    -- The second operand is evaluated whatever the value of the first one is.
    have hleft := hl (h.part List.mem_cons_self)
    have hright := hr (h.part (List.mem_cons_of_mem _ (List.mem_singleton_self r)))
    rw [calledNames_of_parts rfl rfl, eval]
    exact hleft.bind fun a => hright.bind_silent fun b => .lift _ _
  | conditional | comprehension => exact h.root.elim

end Calls

/-! ## Nodes that fail in any case -/

section Fails

variable {context : Context σ}

/-- A list of parts fails in any case if one of them does. -/
theorem evalAll_fails {es : List Expr} {e : Expr} (he : e ∈ es) (h : Fails (e.eval context)) :
    Fails (evalAll context es) := by
  induction es with
  | nil => cases he
  | cons e' es ih =>
    rw [evalAll]
    rcases List.mem_cons.mp he with rfl | he
    · exact h.first _
    · exact .second fun v => (ih he).first _

/-- If a part fails in every state, so does the node. -/
theorem fails_of_part {e part : Expr} (he : e.Unconditional context) (hpart : part ∈ e.children)
    (h : Fails (part.eval context)) : Fails (e.eval context) := by
  cases e with
  | number | string | boolean | identifier | foreign => cases hpart
  | conditional | comprehension => exact he.elim
  | program span es =>
    rw [eval, evalLast_eq]
    exact (evalAll_fails hpart h).first _
  | array span es =>
    rw [eval]
    exact (evalAll_fails hpart h).first _
  | call span name es =>
    rw [eval]
    cases context.callee? name with
    | none => exact .throw _
    | some callee =>
      cases callee with
      | notCallable => exact .throw _
      | function run => exact (evalAll_fails hpart h).first _
  | assign span name e =>
    obtain rfl := List.mem_singleton.mp hpart
    rw [eval, if_neg fun hname => he (List.contains_iff_mem.mp hname)]
    exact h.first _
  | unary span operator e =>
    obtain rfl := List.mem_singleton.mp hpart
    rw [eval]
    exact h.first _
  | binary span operator l r | index span l r | range span l r inclusive =>
    rw [eval]
    rcases List.mem_pair.mp hpart with rfl | rfl
    · exact h.first _
    · exact .second fun a => h.first _

/-- If a node fails in every state, so does the tree. -/
theorem fails_of_node {e node : Expr} (he : e.Everywhere (Unconditional context))
    (hnode : node ∈ e.nodes) (h : Fails (node.eval context)) : Fails (e.eval context) := by
  induction e using byChildren with
  | node e ih =>
    rw [nodes_eq] at hnode
    rcases List.mem_cons.mp hnode with rfl | hnode
    · exact h
    · obtain ⟨part, hpart, hnode⟩ := List.mem_flatMap.mp hnode
      exact fails_of_part he.root hpart (ih part hpart (he.part hpart) hnode)

end Fails

/-! ## The order of the calls -/

/-- A formula without choices and loops, none of whose assigned names the host supplies, calls the
functions that it names from the leaves to the root and from left to right: all of them if it has a
value, else the first of them. -/
theorem run_calls (context : Context σ) (host : σ) {e : Expr} (he : e.Everywhere Straight)
    (hnames : ∀ name ∈ e.assignedNames, name ∉ context.external) :
    (Evaluation.run (.tree e) context host).calls.map (·.name) <+: e.calledNames ∧
    ∀ v, (Evaluation.run (.tree e) context host).result = .ok v →
      (Evaluation.run (.tree e) context host).calls.map (·.name) = e.calledNames := by
  have hcalls := eval_calls (unconditional_of_straight he hnames)
  cases hbegin : Evaluator.begin context host with
  | error failure => simp [Evaluation.run, Evaluation.prepare, hbegin, Evaluation.calls]
  | ok s =>
    have hnone : called s = [] := by
      rw [Evaluator.begin] at hbegin
      cases hglobals : context.globals with
      | ok table =>
        rw [hglobals] at hbegin
        cases hbegin
        rfl
      | error failure =>
        rw [hglobals] at hbegin
        cases hbegin
    rw [Evaluation.run_eq rfl hbegin, Evaluation.continueWith]
    cases heval : e.eval context s with
    | ok v s' =>
      have hmade : called s' = e.calledNames := by
        rw [hcalls.ok heval, hnone, List.nil_append]
      exact ⟨hmade ▸ List.prefix_refl _, fun _ _ => hmade⟩
    | error failure s' =>
      obtain ⟨made, hmade, hs'⟩ := hcalls.error heval
      rw [hnone, List.nil_append] at hs'
      refine ⟨?_, fun v hv => by cases hv⟩
      rw [← hs'] at hmade
      exact hmade

/-- Both operands of a conjunction are evaluated, and a call comes behind those of its arguments. -/
theorem run_calls_of_conjunction :
    let context : Context Unit :=
      ⟨fun _ => some (.function fun args _ => (.returned (.boolean args.isEmpty), ())),
      [("x", .number 1.0)], .standard, none⟩
    let e : Expr := .program .none [.assign .none "y" (.call .none "f" [.call .none "g" []]),
      .binary .none .and (.identifier .none "y") (.unary .none .not (.call .none "h" []))]
    e.calledNames = ["g", "f", "h"] ∧
      (Evaluation.run (.tree e) context ()).result = .ok (.boolean false) ∧
    (Evaluation.run (.tree e) context ()).calls.map (·.name) = e.calledNames := by
  intro context e
  have hnames : ∀ name ∈ e.assignedNames, name ∉ context.external := by
    decide +kernel
  have hstraight : e.Everywhere Straight := by
    simp [e, Everywhere, nodes_eq, children, Straight]
  refine ⟨?_, rfl, (run_calls context () hstraight hnames).2 (.boolean false) rfl⟩
  simp [e, calledNames_eq, children, calledName?]

end Expr

end Formulary
