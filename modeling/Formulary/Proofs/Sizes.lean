import Formulary.Proofs.Circulation

/-!
# Sizes of arrays

An array that a formula makes is an array literal, the result of a comprehension, two arrays joined
or a range, and each of these is checked against a limit before it becomes a value.  So if the
arrays that a host supplies and replies with are within the limits, all arrays that circulate are,
and all that stand inside of others (`Evaluation.reaches_fits`).
-/

set_option autoImplicit false

namespace Formulary

variable {σ : Type}

/-- The arrays in a value, at whatever depth, are within the limits: lists and tuples, which become
lists, within the one for arrays, and ranges within the one for ranges. -/
inductive Value.Fits (limits : Limits) : Value → Prop
  | scalar {v : Value} : v.sequence? = none → Fits limits v
  | range {r : IntRange} : (r.length : Int) ≤ limits.bound .rangeLength → Fits limits (.range r)
  | list {vs : List Value} :
      (∀ v ∈ vs, Fits limits v) → (vs.length : Int) ≤ limits.bound .arrayLength →
      Fits limits (.list vs)
  | tuple {vs : List Value} :
      (∀ v ∈ vs, Fits limits v) → (vs.length : Int) ≤ limits.bound .arrayLength →
      Fits limits (.tuple vs)

namespace Value.Fits

variable {limits : Limits}

/-- The elements of a list within the limits are within the limits. -/
theorem items {vs : List Value} (h : Fits limits (.list vs)) : ∀ v ∈ vs, Fits limits v := by
  cases h with
  | scalar hnone => cases hnone
  | list hvs _ => exact hvs

/-- An array has as many items in its normal form as before. -/
theorem normalize {v w : Value} (hv : Fits limits v) (h : v.normalize = .ok w) : Fits limits w := by
  induction hv generalizing w with
  | range hlength =>
    obtain rfl := Except.ok.inj h
    exact .range hlength
  | list _ hlength ih | tuple _ hlength ih =>
    obtain ⟨ws, rfl, hsame, hws⟩ := map_normalizeAll_eq_ok h
    refine .list (fun w hw => ?_) (hsame ▸ hlength)
    obtain ⟨v, hv, hnormal⟩ := hws w hw
    exact ih v hv hnormal
  | @scalar v hnone =>
    refine .scalar ?_
    cases v with
    | integer n =>
      rw [Value.normalize] at h
      split at h
      · obtain rfl := Except.ok.inj h
        rfl
      · cases h
    | range | list | tuple => cases hnone
    | null | object => cases h
    | _ =>
      obtain rfl := Except.ok.inj h
      rfl

end Value.Fits

/-- What the host supplies and what its functions reply with is within the limits, the replies if
the arguments are. -/
structure Context.Fitting (context : Context σ) : Prop where
  supplied : ∀ entry ∈ context.supplied, entry.2.Fits context.limits
  returned : ∀ name run, context.callee? name = some (.function run) →
    ∀ args, (∀ v ∈ args, v.Fits context.limits) →
      ∀ host v, (run args host).1 = .returned v → v.Fits context.limits

/-- Evaluation does not leave the values within the limits. -/
theorem Context.Fitting.closes {context : Context σ} (h : context.Fitting) :
    context.Closes fun v => v.Normal ∧ v.Fits context.limits where
  normal _ hv := hv.1
  number x := ⟨.number x, .scalar rfl⟩
  string s := ⟨.string s, .scalar rfl⟩
  boolean b := ⟨.boolean b, .scalar rfl⟩
  timestamp t := ⟨.timestamp t, .scalar rfl⟩
  list _ hvs hlength := ⟨.list fun v hv => (hvs v hv).1, .list (fun v hv => (hvs v hv).2) hlength⟩
  items _ hlist v hv := ⟨context.closes_normal.items _ hlist.1 v hv, hlist.2.items v hv⟩
  range first stop hle hlength := by
    refine ⟨.range _, .range ?_⟩
    rw [Native.length_upTo, Int.toNat_of_nonneg (Int.sub_nonneg.mpr hle)]
    exact hlength
  supplied entry hentry _ hnormal :=
    ⟨Value.normal_of_normalize hnormal, (h.supplied entry hentry).normalize hnormal⟩
  returned name run hrun args hargs host v _ hreply hnormal :=
    ⟨Value.normal_of_normalize hnormal,
      (h.returned name run hrun args (fun v hv => (hargs v hv).2) host v hreply).normalize hnormal⟩

namespace Evaluation

/-- Arrays stay within the limits.  Let what a host supplies and replies with be within them.
Whatever trees are evaluated one after the other: where their evaluation comes to a node, the values
that names are bound to and those that functions have been called with are within the limits, before
and behind the node, and so is the value of the node if it has one. -/
theorem reaches_fits (context : Context σ) (hfitting : context.Fitting) (host : σ) (s : State σ)
    (es : List Expr) (node : Expr) (s₁ : State σ) (hbegin : Evaluator.begin context host = .ok s)
    (hreaches : Reaches context s es node s₁) :
    (∀ v ∈ s₁.values, v.Fits context.limits) ∧
    (∀ v ∈ (continueWith context node s₁).2.values, v.Fits context.limits) ∧
    ∀ v, (continueWith context node s₁).1 = .ok v → v.Fits context.limits := by
  have hclosed := hfitting.closes
  have hs₁ := hreaches.stocked hclosed (Evaluator.stocked_begin hclosed hbegin)
  obtain ⟨hafter, hvalue⟩ := stocked_continueWith hclosed node hs₁
  exact ⟨fun v hv => (hs₁.values v hv).2, fun v hv => (hafter.values v hv).2, fun v hv =>
    (hvalue v hv).2⟩

/-- Under a limit of two items, a host that supplies two of them as a tuple and answers with the
first two arguments of a call: in the body of a loop two replies are joined to as many items as the
limit admits. -/
theorem reaches_fits_of_joined_replies :
    let context : Context Unit :=
      ⟨fun _ => some (.function fun args host => (.returned (.tuple (args.take 2)), host)),
        [("xs", .tuple [.string "a", .string "b"])], Limits.standard.set .arrayLength 2, none⟩
    let reply : Expr := .call .none "f" [.identifier .none "x"]
    let node : Expr := .binary .none .add reply reply
    let root : Bindings := ⟨[("xs", .list [.string "a", .string "b"])]⟩
    let s : State Unit := ⟨⟨[], root⟩, (), [], []⟩
    let s₁ : State Unit := ⟨⟨[⟨[("x", .string "a")]⟩], root⟩, (), [], []⟩
    Evaluator.begin context () = .ok s ∧
    Reaches context s [.comprehension .none "x" (.identifier .none "xs") none node] node s₁ ∧
    (continueWith context node s₁).1 = .ok (.list [.string "a", .string "a"]) ∧
    Value.Fits context.limits (.list [.string "a", .string "a"]) ∧
    ∀ v ∈ (continueWith context node s₁).2.values, v.Fits context.limits := by
  intro context reply node root s s₁
  have hfitting : context.Fitting := by
    have hscalar : ∀ text : String, Value.Fits context.limits (.string text) := fun _ => .scalar rfl
    refine ⟨?_, ?_⟩
    · rintro _ (_ | ⟨_, ⟨⟩⟩)
      refine .tuple ?_ (by decide)
      simp [hscalar]
    · rintro name run ⟨⟩ args hargs host v ⟨⟩
      refine .tuple (fun v hv => hargs v (List.mem_of_mem_take hv)) ?_
      have hlength := List.length_take_le 2 args
      exact Int.ofNat_le.mpr hlength
  have hbegin : Evaluator.begin context () = .ok s := rfl
  have hreaches : Reaches context s [.comprehension .none "x" (.identifier .none "xs") none node]
      node s₁ := by
    have hsource : (Expr.identifier .none "xs").eval context s =
        .ok (.list [.string "a", .string "b"]) s := rfl
    have hitems : Value.items (.list [.string "a", .string "b"]) =
        .ok ([] ++ .string "a" :: [.string "b"]) := rfl
    exact .within (.part (.body (.intro hsource hitems rfl)) .root)
  obtain ⟨-, hafter, hvalue⟩ := reaches_fits context hfitting () s _ node s₁ hbegin hreaches
  exact ⟨hbegin, hreaches, rfl, hvalue _ rfl, hafter⟩

end Evaluation

end Formulary
