import Formulary.Proofs.Pointing
import Formulary.Proofs.Widening

/-!
# Limits are monotone

A limit does nothing but stop: a formula that is not stopped under some limits means the same under
wider ones.  The scanner, the parser and the evaluator check limits at different moments, before a
text is scanned, while expressions are nested, behind each list, on the finished tree and at each
array that is made.  For all of them the comparison is the same: `SameUnless stop x y` says that two
results are equal, unless the first is a failure that counts as a stop.  For the parser this is
carried through its readers (`Parser.Reader.Admits`), with the levels that may still be opened
growing along with the limits.

Main statement: `Evaluation.run_of_wider_limits`.
-/

set_option autoImplicit false

namespace Formulary

/-- The second result is the first, unless the first is a failure that counts as a stop. -/
def SameUnless {ε α : Type} (stop : ε → Prop) (x y : Except ε α) : Prop :=
  x = y ∨ ∃ failure, x = .error failure ∧ stop failure

namespace SameUnless

variable {ε α β : Type} {stop : ε → Prop}

/-- A result is the same as itself. -/
theorem refl (x : Except ε α) : SameUnless stop x x :=
  .inl rfl

/-- Where the first result is a stop, nothing is required of the second. -/
theorem error {failure : ε} (h : stop failure) (y : Except ε α) :
    SameUnless stop (.error failure) y :=
  .inr ⟨failure, rfl, h⟩

/-- Results of two steps are the same unless there is a stop if those of each step are. -/
theorem bind {x y : Except ε α} {k l : α → Except ε β} (hxy : SameUnless stop x y)
    (hkl : ∀ a, SameUnless stop (k a) (l a)) : SameUnless stop (x >>= k) (y >>= l) := by
  rcases hxy with rfl | ⟨failure, rfl, hstop⟩
  · cases x with
    | ok a => exact hkl a
    | error failure => exact refl _
  · exact error hstop _

/-- What is to be shown of the two results holds if it does for each result and itself, and for each
stop. -/
@[elab_as_elim]
theorem elim {motive : Except ε α → Except ε α → Prop} {x y : Except ε α} (h : SameUnless stop x y)
    (same : ∀ r, motive r r) (stopped : ∀ failure r, stop failure → motive (.error failure) r) :
    motive x y := by
  rcases h with rfl | ⟨failure, rfl, hstop⟩
  · exact same x
  · exact stopped failure y hstop

/-- Results that are not stopped are equal. -/
theorem eq {x y : Except ε α} (h : SameUnless stop x y)
    (hstop : ∀ failure, x = .error failure → ¬ stop failure) : x = y := by
  rcases h with heq | ⟨failure, herror, hstops⟩
  · exact heq
  · exact absurd hstops (hstop failure herror)

end SameUnless

/-! ## Checks -/

/-- A limit that is exceeded is a stop. -/
theorem Limits.stops_exceeded {limits : Limits} {kind : LimitKind} {amount : Int}
    (h : limits.bound kind < amount) :
    limits.Stops (.error ⟨limits.exceeded kind amount, .unknown⟩) :=
  ⟨kind, amount, h, rfl⟩

/-- What is within a limit is within every wider one. -/
theorem Limits.check_widened {limits limits' : Limits} (h : limits ≤ limits') (kind : LimitKind)
    (amount : Int) :
    SameUnless (fun cause => limits.Stops (.error ⟨cause, .unknown⟩)) (limits.check kind amount)
      (limits'.check kind amount) := by
  unfold Limits.check
  by_cases hover : limits.bound kind < amount
  · rw [if_pos hover]
    exact .inr ⟨_, rfl, stops_exceeded hover⟩
  · have hwider := h kind
    rw [if_neg hover, if_neg (by omega)]
    exact .refl _

/-- A function of the host fails with nothing that could be taken for the failure of a check: its
errors have a position. -/
theorem Run.invoke_not_stops {σ : Type} {limits : Limits} {site : Site} {name : String}
    {run : List Value → σ → Reply × σ} {args : List Value} {s s' : State σ} {failure : Failure}
    (hsite : site.position ≠ none) (h : Run.invoke site name run args s = .error failure s') :
    ¬ limits.Stops failure := by
  have hkeeps : Run.Keeps (fun _ => True) (fun _ => True) (fun failure => ¬ limits.Stops failure)
      (Run.invoke site name run args) := by
    refine .invoke (fun _ _ _ => trivial) (fun _ _ _ => trivial) (fun _ _ _ _ _ => trivial) ?_ ?_
    · rintro host e - ⟨kind, amount, -, hstop⟩
      have hposition : (e.locatedAt site).site.position = none :=
        congrArg (fun e : Error => e.site.position) (Failure.error.inj hstop)
      unfold Error.locatedAt at hposition
      cases he : e.site.position with
      | some position => simp [he] at hposition
      | none => simp [he, hsite] at hposition
    · rintro text ⟨kind, amount, -, hstop⟩
      cases hstop
  have hkept := hkeeps s trivial
  rw [h] at hkept
  exact hkept.1

/-! ## The scanner -/

section Scanner

variable {limits limits' : Limits} (hwider : limits ≤ limits')
include hwider

/-- A lexeme is accepted the same under wider limits. -/
theorem Cursor.accept_widened (source : String) (position : Nat) (lexeme : Lexeme) :
    SameUnless (fun failure => limits.Stops (.error (failure.toError source)))
      (accept limits position lexeme)
      (accept limits' position lexeme) := by
  cases lexeme with
  | fault => exact .refl _
  | token kind value length =>
    unfold accept
    dsimp only
    by_cases hkind : kind = .string
    · rw [if_pos hkind, if_pos hkind]
      refine (Limits.check_widened hwider .stringLength value.length).elim (fun _ => .refl _) ?_
      exact fun _ _ hstops => .inr ⟨_, rfl, hstops⟩
    · rw [if_neg hkind, if_neg hkind]
      exact .refl _

/-- A step of the cursor yields the same token and goes to the same place. -/
theorem Cursor.next_widened (source : String) (c : Cursor) :
    SameUnless (fun failure => limits.Stops (.error (failure.toError source))) (c.next limits).1
        (c.next limits').1 ∧ (c.next limits).2 = (c.next limits').2 := by
  unfold next
  dsimp only
  cases c.skip.rest with
  | nil => exact ⟨.refl _, rfl⟩
  | cons first rest => exact ⟨accept_widened hwider source _ _, rfl⟩

/-- The tokens from a cursor on are the same under wider limits. -/
theorem Cursor.tokens_widened (source : String) (count : Nat) (c : Cursor) :
    SameUnless (fun failure => limits.Stops (.error (failure.toError source)))
      (c.tokens limits count)
      (c.tokens limits' count) := by
  induction count generalizing c with
  | zero => exact .refl _
  | succ count ih =>
    obtain ⟨htoken, hafter⟩ := next_widened hwider source c
    unfold Cursor.tokens
    generalize c.next limits = step at htoken hafter ⊢
    generalize c.next limits' = step' at htoken hafter ⊢
    obtain ⟨result, after⟩ := step
    obtain ⟨result', after'⟩ := step'
    obtain rfl : after = after' := hafter
    rcases htoken with hsame | ⟨failure, herror, hstops⟩
    · obtain rfl : result = result' := hsame
      cases result with
      | error failure => exact .refl _
      | ok token =>
        dsimp only
        by_cases heof : token.kind = .eof
        · rw [if_pos heof, if_pos heof]
          exact .refl _
        · rw [if_neg heof, if_neg heof]
          exact (ih after).bind fun tokens => .refl (.ok (token :: tokens))
    · obtain rfl : result = .error failure := herror
      exact .inr ⟨failure, rfl, hstops⟩

/-- The tokens of a source are the same under wider limits. -/
theorem tokenize_widened (source : String) :
    SameUnless (fun e => limits.Stops (.error e)) (tokenize source limits)
      (tokenize source limits') := by
  unfold tokenize openSource
  refine (Limits.check_widened hwider .expressionLength source.length).elim (fun opened => ?_) ?_
  · cases opened with
    | error cause => exact .refl _
    | ok =>
      dsimp only
      refine (Cursor.tokens_widened hwider source source.length (.start source)).elim
        (fun _ => .refl _) ?_
      exact fun _ _ hstops => .inr ⟨_, rfl, hstops⟩
  · exact fun _ _ hstops => .inr ⟨_, rfl, hstops⟩

end Scanner

/-! ## The parser -/

namespace Parser

/-- The second reader does what the first does, unless a check stops the first. -/
def Reader.Admits {α : Type} (limits : Limits) (x y : Reader α) : Prop :=
  ∀ s, SameUnless limits.Stops (x s) (y s)

namespace Reader.Admits

variable {α β : Type} {limits : Limits}

/-- A reader does what it does. -/
theorem refl (x : Reader α) : Reader.Admits limits x x :=
  fun _ => .refl _

/-- A reader under wider limits does the same if both its steps do. -/
theorem bind {x y : Reader α} {k l : α → Reader β} (hxy : Reader.Admits limits x y)
    (hkl : ∀ a, Reader.Admits limits (k a) (l a)) : Reader.Admits limits (x >>= k) (y >>= l) :=
  fun s => (hxy s).bind fun p => hkl p.1 p.2

end Reader.Admits

/-- A demand of a limit does the same if the limit is wider. -/
theorem demand_widened {limits limits' : Limits} (hwider : limits ≤ limits') (kind : LimitKind)
    (amount : Nat) :
    Reader.Admits limits (demand limits kind amount) (demand limits' kind amount) := by
  intro s
  unfold demand
  refine (Limits.check_widened hwider kind amount).elim (fun _ => .refl _) ?_
  exact fun _ _ hstops => .error hstops _

section Constructs

variable {input : Input} {limits : Limits} (hwider : input.limits ≤ limits)
  {read read' : Nat → Reader Expr} (hread : ∀ minimum, Reader.Admits input.limits (read minimum)
    (read' minimum))

include hread

/-- The rest of a list is read the same under wider limits. -/
theorem moreElements_widened (count : Nat) :
    Reader.Admits input.limits (moreElements read count) (moreElements read' count) := by
  induction count with
  | zero => exact .refl _
  | succ count ih =>
    unfold moreElements
    refine (Reader.Admits.refl _).bind fun found => ?_
    cases found with
    | false => exact .refl _
    | true => exact (hread _).bind fun element => ih.bind fun elements => .refl _

/-- A list with the token that closes it is read the same under wider limits. -/
theorem elements_widened (closing : TokenKind) (expectation : Expectation) :
    Reader.Admits input.limits (elements input read closing expectation)
      (elements { input with limits := limits } read' closing expectation) := by
  unfold elements
  refine (Reader.Admits.refl (peek input)).bind fun token => ?_
  by_cases htoken : token.kind = closing
  · rw [if_pos htoken, if_pos htoken]
    exact .refl _
  · rw [if_neg htoken, if_neg htoken]
    refine (hread _).bind fun first => (Reader.Admits.refl _).bind fun s => ?_
    exact (moreElements_widened hread _).bind fun more => .refl _

/-- A conditional is read the same under wider limits. -/
theorem conditional_widened (keyword : Token) :
    Reader.Admits input.limits (conditional input read keyword)
      (conditional { input with limits := limits } read' keyword) := by
  unfold conditional
  refine (hread _).bind fun condition => (Reader.Admits.refl _).bind fun _ => ?_
  refine (hread _).bind fun consequent => (Reader.Admits.refl _).bind fun _ => ?_
  exact (hread _).bind fun alternate => .refl _

/-- A guard is read the same under wider limits. -/
theorem guard_widened : Reader.Admits input.limits (guard? read) (guard? read') := by
  unfold guard?
  refine (Reader.Admits.refl _).bind fun found => ?_
  cases found with
  | false => exact .refl _
  | true => exact (hread _).bind fun guard => .refl _

/-- A comprehension is read the same under wider limits. -/
theorem comprehension_widened (keyword : Token) :
    Reader.Admits input.limits (comprehension input read keyword)
      (comprehension { input with limits := limits } read' keyword) := by
  unfold comprehension
  refine (Reader.Admits.refl _).bind fun binder => (Reader.Admits.refl _).bind fun _ => ?_
  refine (hread _).bind fun iterable => (guard_widened hread).bind fun guard => ?_
  refine (Reader.Admits.refl _).bind fun _ => ?_
  exact (hread _).bind fun body => .refl _

/-- An extension is read the same under wider limits. -/
theorem extend_widened (left : Expr) (token : Token) (extension : Extension) :
    Reader.Admits input.limits (extend input read left token extension)
      (extend { input with limits := limits } read' left token extension) := by
  cases extension with
  | index => exact (hread _).bind fun offset => .refl _
  | assign =>
    cases left with
    | identifier span name => exact (hread _).bind fun value => .refl _
    | _ => exact .refl _
  | ternary =>
    refine (hread _).bind fun consequent => (Reader.Admits.refl _).bind fun _ => ?_
    exact (hread _).bind fun alternate => .refl _
  | range inclusive => exact (hread _).bind fun last => .refl _
  | binary operator => exact (hread _).bind fun right => .refl _

/-- Any number of extensions is read the same under wider limits. -/
theorem climb_widened (minimum count : Nat) (left : Expr) :
    Reader.Admits input.limits (climb input read minimum count left)
      (climb { input with limits := limits } read' minimum count left) := by
  induction count generalizing left with
  | zero => exact .refl _
  | succ count ih =>
    unfold climb
    refine (Reader.Admits.refl (peek input)).bind fun token => ?_
    cases token.kind.extension? with
    | none => exact .refl _
    | some extension =>
      dsimp only
      by_cases hmin : extension.precedence < minimum
      · rw [if_pos hmin, if_pos hmin]
        exact .refl _
      · rw [if_neg hmin, if_neg hmin]
        refine (Reader.Admits.refl _).bind fun _ => ?_
        exact (extend_widened hread left token extension).bind fun extended => ih extended

include hwider

/-- A name or a call is read the same under wider limits. -/
theorem nameOrCall_widened (name : Token) :
    Reader.Admits input.limits (nameOrCall input read name)
      (nameOrCall { input with limits := limits } read' name) := by
  unfold nameOrCall
  refine (Reader.Admits.refl _).bind fun found => ?_
  cases found with
  | false => exact .refl _
  | true =>
    refine (elements_widened hread _ _).bind fun arguments => ?_
    exact (demand_widened hwider _ _).bind fun _ => .refl _

/-- An operand is read the same under wider limits. -/
theorem operand_widened :
    Reader.Admits input.limits (operand input read)
      (operand { input with limits := limits } read') := by
  unfold operand
  refine (Reader.Admits.refl (peek input)).bind fun token => ?_
  cases token.kind with
  | identifier => exact (Reader.Admits.refl _).bind fun _ => nameOrCall_widened hwider hread token
  | leftParen =>
    refine (Reader.Admits.refl _).bind fun _ => ?_
    exact (hread _).bind fun inner => .refl _
  | leftBracket =>
    refine (Reader.Admits.refl _).bind fun _ => (elements_widened hread _ _).bind fun items => ?_
    exact (demand_widened hwider _ _).bind fun _ => .refl _
  | minus | not =>
    refine (Reader.Admits.refl _).bind fun _ => ?_
    exact (hread _).bind fun argument => .refl _
  | «if» => exact (Reader.Admits.refl _).bind fun _ => conditional_widened hread token
  | «for» => exact (Reader.Admits.refl _).bind fun _ => comprehension_widened hread token
  | _ => exact .refl _

end Constructs

section Programs

variable {input : Input} {limits : Limits} (hwider : input.limits ≤ limits)
include hwider

/-- By induction on the levels that may still be opened under the narrower limits; where none is
left, these stop the parser. -/
theorem expression_widened {levels levels' : Nat} (hlevels : levels ≤ levels') (minimum : Nat) :
    Reader.Admits input.limits (expression input levels minimum)
      (expression { input with limits := limits } levels' minimum) := by
  induction levels generalizing levels' minimum with
  | zero =>
    intro s
    refine .error (Limits.stops_exceeded ?_) _
    omega
  | succ levels ih =>
    obtain ⟨more, rfl⟩ : ∃ more, levels' = more + 1 := ⟨levels' - 1, by omega⟩
    have hread := ih (Nat.le_of_succ_le_succ hlevels)
    unfold expression
    refine (operand_widened hwider hread).bind fun left => (Reader.Admits.refl _).bind fun s => ?_
    exact climb_widened hread minimum _ left

/-- Statements are read the same under wider limits. -/
theorem statements_widened (count : Nat) :
    Reader.Admits input.limits (statements input count)
      (statements { input with limits := limits } count) := by
  have hlevels : (input.limits.bound .parseDepth).toNat ≤ (limits.bound .parseDepth).toNat :=
    Int.toNat_le_toNat (hwider .parseDepth)
  induction count with
  | zero => exact .refl _
  | succ count ih =>
    unfold statements
    refine (Reader.Admits.refl _).bind fun s => ?_
    cases s.rest with
    | nil => exact .refl _
    | cons token rest =>
      refine (expression_widened hwider hlevels _).bind fun first => ?_
      exact ih.bind fun more => .refl _

end Programs

/-- A tree that is within limits is so under wider ones. -/
theorem withinLimits_widened {limits limits' : Limits} (hwider : limits ≤ limits') (tree : Expr) :
    SameUnless limits.Stops (withinLimits limits tree) (withinLimits limits' tree) := by
  unfold withinLimits
  refine (Limits.check_widened hwider .nodeCount tree.size).elim (fun checked => ?_) ?_
  · cases checked with
    | error cause => exact .refl _
    | ok =>
      dsimp only
      refine (Limits.check_widened hwider .treeDepth tree.depth).elim (fun _ => .refl _) ?_
      exact fun _ _ hstops => .error hstops _
  · exact fun _ _ hstops => .error hstops _

end Parser

/-- Tokens are parsed the same under wider limits. -/
theorem parseTokens_widened {limits limits' : Limits} (hwider : limits ≤ limits')
    (tokens : List Token) (source : String) :
    SameUnless limits.Stops (parseTokens tokens source limits)
      (parseTokens tokens source limits') := by
  unfold parseTokens
  dsimp only
  split
  · exact .refl _
  · obtain ⟨body, hbody⟩ : ∃ body, tokens.takeWhile (·.kind != .eof) = body := ⟨_, rfl⟩
    obtain ⟨eof, heof⟩ : ∃ eof, (tokens.find? (·.kind == .eof)).getD
      (Cursor.eofAt source.length) = eof := ⟨_, rfl⟩
    rw [hbody, heof]
    refine (@Parser.statements_widened ⟨source, limits, eof⟩ _ hwider body.length ⟨body, 0⟩).elim
      (fun read => ?_) ?_
    · cases read with
      | error failure => exact .refl _
      | ok result => exact Parser.withinLimits_widened hwider _
    · exact fun _ _ hstops => .error hstops _

/-- A source is parsed the same under wider limits. -/
theorem parse_widened {limits limits' : Limits} (hwider : limits ≤ limits') (source : String) :
    SameUnless limits.Stops (parse source limits) (parse source limits') := by
  unfold parse
  refine (tokenize_widened hwider source).elim (fun scanned => ?_) ?_
  · cases scanned with
    | error e => exact .refl _
    | ok tokens => exact parseTokens_widened hwider tokens source
  · exact fun _ _ hstops => .error hstops _

/-! ## Formulas -/

namespace Evaluation

variable {σ : Type} {context : Context σ} {limits : Limits}

/-- Under wider limits a formula has the same tree, and its context differs in the limits alone. -/
theorem prepare_widened (hwider : context.limits ≤ limits) (formula : Formula) :
    SameUnless context.limits.Stops
      ((prepare formula context).map fun p => (p.1, { p.2 with limits := limits }))
      (prepare formula { context with limits := limits }) := by
  cases formula with
  | tree e => exact .refl _
  | text source =>
    unfold prepare
    dsimp only
    refine (parse_widened hwider source).elim (fun parsed => ?_) ?_
    · cases parsed with
      | error failure => exact .refl _
      | ok e => exact .refl _
    · exact fun _ _ hstops => .error hstops _

/-- Preparing a formula does not change the limits. -/
theorem limits_of_prepare {formula : Formula} {prepared : Context σ} {e : Expr}
    (h : prepare formula context = .ok (e, prepared)) : prepared.limits = context.limits := by
  cases formula with
  | tree e' =>
    cases h
    rfl
  | text source =>
    unfold prepare at h
    dsimp only at h
    cases htree : parse source context.limits with
    | error failure =>
      rw [htree] at h
      cases h
    | ok e' =>
      rw [htree] at h
      cases h
      rfl

/-- From the same state, a tree that no check stops is evaluated alike under wider limits. -/
theorem continueWith_widened (hwider : context.limits ≤ limits) (e : Expr) (s : State σ)
    (hstop : ∀ failure, (continueWith context e s).1 = .error failure →
      ¬ context.limits.Stops failure) :
    continueWith { context with limits := limits } e s = continueWith context e s := by
  unfold continueWith at hstop ⊢
  rcases Expr.eval_widened hwider e s with hsame | ⟨failure, s', herror, hstops⟩
  · rw [hsame]
  · rw [herror] at hstop
    exact absurd hstops (hstop failure rfl)

/-- A run that no check stops is the same under wider limits. -/
theorem run_widened (hwider : context.limits ≤ limits) (formula : Formula) (host : σ)
    (hstop : ∀ failure, (run formula context host).result = .error failure →
      ¬ context.limits.Stops failure) :
    run formula { context with limits := limits } host = run formula context host := by
  have hprepared := prepare_widened hwider formula
  cases hprepare : prepare formula context with
  | error failure =>
    have hresult : (run formula context host).result = .error failure := by
      rw [run, hprepare]
    rw [hprepare] at hprepared
    have hwidened := hprepared.eq fun failure' hfailure => by
      obtain rfl := Except.error.inj hfailure
      exact hstop _ hresult
    rw [run, run, hprepare, ← hwidened]
    rfl
  | ok p =>
    obtain ⟨e, prepared⟩ := p
    rw [hprepare] at hprepared
    have hwidened : prepare formula { context with limits := limits } =
      .ok (e, { prepared with limits := limits }) :=
      (hprepared.eq fun failure hfailure => by cases hfailure).symm
    have hlimits := limits_of_prepare hprepare
    cases hbegin : Evaluator.begin prepared host with
    | error failure =>
      have hbegin' : Evaluator.begin { prepared with limits := limits } host = .error failure :=
        hbegin
      rw [run, run, hprepare, hwidened]
      dsimp only
      rw [hbegin, hbegin']
    | ok s =>
      have hbegin' : Evaluator.begin { prepared with limits := limits } host = .ok s := hbegin
      rw [run_eq hprepare hbegin] at hstop ⊢
      rw [run_eq hwidened hbegin', continueWith_widened (hlimits ▸ hwider) e s (hlimits ▸ hstop)]

/-- Limits are monotone.  A formula that no check stops under the limits of its context has the same
evaluation under wider limits: the same value or the same error at the same place, after the same
calls and events, with the same bindings and the host in the same state.  A source that no check
stops has the same tree, with the same spans, or is rejected with the same error.  What a function
of the host raises never counts as a stop. -/
theorem run_of_wider_limits (formula : Formula) (context : Context σ) (host : σ) {limits : Limits}
    (hwider : context.limits ≤ limits) :
    ((∀ failure, (run formula context host).result = .error failure →
      ¬ context.limits.Stops failure) →
      run formula { context with limits := limits } host = run formula context host) ∧
    (∀ source, (∀ failure, parse source context.limits = .error failure →
      ¬ context.limits.Stops failure) → parse source limits = parse source context.limits) ∧
    ∀ span name function args (s : State σ) failure after,
      Run.invoke (context.siteOf span) name function args s = .error failure after →
        ¬ context.limits.Stops failure := by
  refine ⟨run_widened hwider formula host, fun source hstop => ?_, ?_⟩
  · exact ((parse_widened hwider source).eq hstop).symm
  · intro span name function args s failure after hfailure
    exact Run.invoke_not_stops (Option.some_ne_none _) hfailure

/-- The first array is as long as the narrower limits admit, and what fails is the second: under
wider limits the error is the same. -/
theorem run_of_wider_limits_undefined :
    let narrow := Limits.standard.set .arrayLength 2
    let context : Context Unit := ⟨fun _ => none, [("x", .string "u")], narrow, none⟩
    narrow ≤ Limits.standard ∧
    (run (.text "[x, x] + [y]") context ()).attempt.toOption.bind (·.error) =
      some ⟨.undefinedVariable "y", ⟨some 10, some "[x, x] + [y]", some 11⟩⟩ ∧
    run (.text "[x, x] + [y]") { context with limits := .standard } () =
      run (.text "[x, x] + [y]") context () := by
  intro narrow context
  have hwider : narrow ≤ Limits.standard := by
    intro kind
    cases kind <;> decide
  have hattempt : (run (.text "[x, x] + [y]") context ()).attempt.toOption.bind (·.error) =
      some ⟨.undefinedVariable "y", ⟨some 10, some "[x, x] + [y]", some 11⟩⟩ := by decide +kernel
  refine ⟨hwider, hattempt, (run_of_wider_limits _ context () hwider).1 ?_⟩
  rintro failure hresult ⟨kind, amount, -, rfl⟩
  rw [attempt, hresult] at hattempt
  cases hattempt

end Evaluation

end Formulary
