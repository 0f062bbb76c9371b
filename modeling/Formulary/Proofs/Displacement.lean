import Formulary.Proofs.Recognition
import Mathlib.Data.List.Forall2

/-!
# Tokens at other places

The parser looks at the kinds and values of tokens, and at their texts where it has to name one in a
message.  Where they stand it only writes down.  So two sources whose tokens match in this sense are
read alike (`parseTokens_displaced`): as the same tree apart from spans, or with failures of the
same cause.

`Reader.Parallel R x y` says so of two readers, the values that they return being related by `R`.
There is one rule for each step of a reader and one lemma for each function of the parser; the
levels that may still be opened carry the induction.
-/

set_option autoImplicit false

namespace Formulary

open Formulary.Expr

/-- Failures that differ at most in where they arose. -/
def Failure.SameCause : Failure → Failure → Prop
  | .error e, .error e' => e.cause = e'.cause
  | .fault f, .fault f' => f = f'
  | _, _ => False

/-- A failure has the same cause as itself. -/
theorem Failure.SameCause.refl (failure : Failure) : failure.SameCause failure := by
  cases failure <;> rfl

namespace Parser

/-- Tokens of two sources that differ at most in where they stand. -/
structure Matches (source source' : String) (token token' : Token) : Prop where
  symbol : token.symbol = token'.symbol
  text : tokenText source token = tokenText source' token'

/-- Tokens that match are of the same kind. -/
theorem Matches.kind {source source' : String} {token token' : Token}
    (h : Matches source source' token token') :
    token.kind = token'.kind :=
  congrArg Symbol.kind h.symbol

/-- Tokens that match have the same value. -/
theorem Matches.value {source source' : String} {token token' : Token}
    (h : Matches source source' token token') :
    token.value = token'.value :=
  congrArg Symbol.value h.symbol

/-- Trees that differ at most in their spans. -/
def SameTree (t t' : Expr) : Prop :=
  t.bare = t'.bare

/-! ## Readers of matching streams -/

section Rules

variable (source source' : String) {α β γ δ : Type}

/-- Results of two readers: values that are related and streams that match, or failures of the same
cause. -/
def Paired (R : α → β → Prop) : Except Failure (α × Stream) → Except Failure (β × Stream) → Prop
  | .ok (a, s), .ok (b, s') => R a b ∧ List.Forall₂ (Matches source source') s.rest s'.rest
  | .error failure, .error failure' => failure.SameCause failure'
  | _, _ => False

/-- Two readers go alike over streams of tokens that match. -/
def Reader.Parallel (R : α → β → Prop) (x : Reader α) (y : Reader β) : Prop :=
  ∀ s s' : Stream, List.Forall₂ (Matches source source') s.rest s'.rest →
    Paired source source' R (x s) (y s')

namespace Reader.Parallel

variable {source source'} {R : α → β → Prop} {Q : γ → δ → Prop}

/-- Readers that return related values go alike. -/
theorem pure {a : α} {b : β} (h : R a b) : Reader.Parallel source source' R (pure a) (pure b) :=
  fun _ _ hs => ⟨h, hs⟩

/-- Readers that fail of the same cause go alike. -/
theorem throw {failure failure' : Failure} (h : failure.SameCause failure') :
    Reader.Parallel source source' R (throw failure) (throw failure') :=
  fun _ _ _ => h

/-- Readers that go alike can be followed by readers that go alike from related values. -/
theorem bind {x : Reader α} {y : Reader β} {k : α → Reader γ} {l : β → Reader δ}
    (hxy : Reader.Parallel source source' R x y)
    (hkl : ∀ a b, R a b → Reader.Parallel source source' Q (k a) (l b)) :
    Reader.Parallel source source' Q (x >>= k) (y >>= l) := by
  intro s s' hs
  have hfirst := hxy s s' hs
  show Paired source source' Q (Except.bind (x s) fun p => k p.1 p.2)
    (Except.bind (y s') fun p => l p.1 p.2)
  cases hx : x s <;> cases hy : y s' <;> rw [hx, hy] at hfirst
  case ok.ok p q => exact hkl p.1 q.1 hfirst.1 p.2 q.2 hfirst.2
  case error.error => exact hfirst
  all_goals exact hfirst.elim

/-- A reader may look at the stream. -/
theorem get {k : Stream → Reader γ} {l : Stream → Reader δ}
    (h : ∀ s s' : Stream, List.Forall₂ (Matches source source') s.rest s'.rest →
      Reader.Parallel source source' Q (k s) (l s')) :
    Reader.Parallel source source' Q (MonadState.get >>= k) (MonadState.get >>= l) :=
  fun s s' hs => h s s' hs s s' hs

end Reader.Parallel

end Rules

/-! ## The steps -/

section Steps

variable {input input' : Input} (heof : Matches input.source input'.source input.eof input'.eof)

/-- Advancing goes alike. -/
theorem advance_parallel : Reader.Parallel input.source input'.source Eq advance advance := by
  rintro ⟨tokens, lastStop⟩ ⟨tokens', lastStop'⟩ (hnil | ⟨htoken, hrest⟩)
  · exact ⟨rfl, .nil⟩
  · exact ⟨rfl, hrest⟩

include heof in
/-- Peeking at streams that match yields tokens that match. -/
theorem peek_parallel :
    Reader.Parallel input.source input'.source (Matches input.source input'.source)
    (peek input) (peek input') := by
  rintro ⟨tokens, lastStop⟩ ⟨tokens', lastStop'⟩ (hnil | ⟨htoken, hrest⟩)
  · exact ⟨heof, .nil⟩
  · exact ⟨htoken, .cons htoken hrest⟩

/-- Skipping a token of a kind goes alike. -/
theorem skipIf_parallel (kind : TokenKind) :
    Reader.Parallel input.source input'.source Eq (skipIf kind) (skipIf kind) := by
  unfold skipIf
  refine .get fun s s' hs => ?_
  obtain ⟨tokens, _⟩ := s
  obtain ⟨tokens', _⟩ := s'
  obtain hnil | @⟨token, token', rest, rest', htoken, hrest⟩ := hs
  · exact .pure rfl
  · dsimp only
    rw [← htoken.kind]
    by_cases hkind : token.kind = kind
    · rw [if_pos hkind]
      exact advance_parallel.bind fun _ _ _ => .pure rfl
    · rw [if_neg hkind]
      exact .pure rfl

/-- Rejections with the same fault go alike, whichever tokens they mark. -/
theorem reject_parallel {α β : Type} {R : α → β → Prop} (fault : SyntaxFault)
    (token token' : Token) :
    Reader.Parallel input.source input'.source R (reject input fault token)
      (reject input' fault token') :=
  .throw rfl

include heof in
/-- Consuming a token goes alike and yields tokens that match. -/
theorem consume_parallel (kind : TokenKind) (expectation : Expectation) :
    Reader.Parallel input.source input'.source (Matches input.source input'.source)
      (consume input kind expectation) (consume input' kind expectation) := by
  unfold consume
  refine (peek_parallel heof).bind fun token token' htoken => ?_
  rw [← htoken.kind]
  by_cases hkind : token.kind = kind
  · rw [if_pos hkind, if_pos hkind]
    exact advance_parallel.bind fun _ _ _ => .pure htoken
  · rw [if_neg hkind, if_neg hkind]
    exact reject_parallel _ _ _

/-- Demands of the same limit go alike. -/
theorem demand_parallel (limits : Limits) (kind : LimitKind) (amount : Nat) :
    Reader.Parallel input.source input'.source Eq (demand limits kind amount)
      (demand limits kind amount) := by
  unfold demand
  cases limits.check kind amount with
  | ok => exact .pure rfl
  | error cause => exact .throw rfl

end Steps

/-! ## The constructs -/

section Constructs

variable {input input' : Input} (heof : Matches input.source input'.source input.eof input'.eof)
  {read read' : Nat → Reader Expr}
  (hread : ∀ minimum, Reader.Parallel input.source input'.source SameTree (read minimum)
    (read' minimum))

include hread in
/-- Reading the rest of a list goes alike, up to spans. -/
theorem moreElements_parallel (count : Nat) :
    Reader.Parallel input.source input'.source (fun ts ts' => ts.map bare = ts'.map bare)
      (moreElements read count) (moreElements read' count) := by
  induction count with
  | zero => exact .pure rfl
  | succ count ih =>
    unfold moreElements
    refine (skipIf_parallel .comma).bind fun found _ hfound => ?_
    subst hfound
    cases found with
    | false => exact .pure rfl
    | true =>
      refine (hread _).bind fun t t' ht => ih.bind fun ts ts' hts => .pure ?_
      rw [List.map_cons, List.map_cons, ht, hts]

include heof hread in
/-- Reading a list with the token that closes it goes alike, up to spans. -/
theorem elements_parallel (closing : TokenKind) (expectation : Expectation) :
    Reader.Parallel input.source input'.source (fun ts ts' => ts.map bare = ts'.map bare)
      (elements input read closing expectation) (elements input' read' closing expectation) := by
  unfold elements
  refine (peek_parallel heof).bind fun token token' htoken => ?_
  rw [← htoken.kind]
  by_cases hclosing : token.kind = closing
  · rw [if_pos hclosing, if_pos hclosing]
    exact advance_parallel.bind fun _ _ _ => .pure rfl
  · rw [if_neg hclosing, if_neg hclosing]
    refine (hread _).bind fun t t' ht => .get fun s s' hs => ?_
    rw [hs.length_eq]
    refine (moreElements_parallel hread _).bind fun ts ts' hts => ?_
    refine (consume_parallel heof closing expectation).bind fun _ _ _ => .pure ?_
    rw [List.map_cons, List.map_cons, ht, hts]

include heof hread in
/-- Reading a conditional goes alike, up to spans. -/
theorem conditional_parallel (keyword keyword' : Token) :
    Reader.Parallel input.source input'.source SameTree (conditional input read keyword)
      (conditional input' read' keyword') := by
  unfold conditional
  refine (hread _).bind fun c c' hc => (consume_parallel heof _ _).bind fun _ _ _ => ?_
  refine (hread _).bind fun a a' ha => (consume_parallel heof _ _).bind fun _ _ _ => ?_
  refine (hread _).bind fun b b' hb => .get fun s s' _ => .pure ?_
  rw [SameTree, bare, bare, hc, ha, hb]

include hread in
/-- Reading a guard goes alike, up to spans. -/
theorem guard_parallel :
    Reader.Parallel input.source input'.source (fun g g' => g.map bare = g'.map bare) (guard? read)
      (guard? read') := by
  unfold guard?
  refine (skipIf_parallel .when).bind fun found _ hfound => ?_
  subst hfound
  cases found with
  | false => exact .pure rfl
  | true => exact (hread _).bind fun g g' hg => .pure (congrArg some hg)

include heof hread in
/-- Reading a comprehension goes alike, up to spans. -/
theorem comprehension_parallel (keyword keyword' : Token) :
    Reader.Parallel input.source input'.source SameTree (comprehension input read keyword)
      (comprehension input' read' keyword') := by
  unfold comprehension
  refine (consume_parallel heof _ _).bind fun binder binder' hbinder => ?_
  refine (consume_parallel heof _ _).bind fun _ _ _ => ?_
  refine (hread _).bind fun i i' hi => (guard_parallel hread).bind fun g g' hg => ?_
  refine (consume_parallel heof _ _).bind fun _ _ _ => ?_
  refine (hread _).bind fun b b' hb => .get fun s s' _ => .pure ?_
  rw [SameTree, bare_comprehension, bare_comprehension, hbinder.value, hi, hg, hb]

include heof hread in
/-- Reading a name or a call goes alike, up to spans. -/
theorem nameOrCall_parallel (hlimits : input.limits = input'.limits) {name name' : Token}
    (hname : Matches input.source input'.source name name') :
    Reader.Parallel input.source input'.source SameTree (nameOrCall input read name)
      (nameOrCall input' read' name') := by
  unfold nameOrCall
  refine (skipIf_parallel .leftParen).bind fun found _ hfound => ?_
  subst hfound
  cases found with
  | false => exact .pure (by rw [SameTree, bare, bare, hname.value])
  | true =>
    refine (elements_parallel heof hread _ _).bind fun ts ts' hts => ?_
    have hlength : ts.length = ts'.length := by simpa using congrArg List.length hts
    rw [hlimits, hlength]
    refine (demand_parallel _ _ _).bind fun _ _ _ => .get fun s s' _ => .pure ?_
    rw [SameTree, bare, bare, bareAll_eq_map, bareAll_eq_map, hts, hname.value]

include heof hread in
/-- Reading an operand goes alike, up to spans. -/
theorem operand_parallel (hlimits : input.limits = input'.limits) :
    Reader.Parallel input.source input'.source SameTree (operand input read)
      (operand input' read') := by
  unfold operand
  refine (peek_parallel heof).bind fun token token' htoken => ?_
  rw [← htoken.kind]
  cases token.kind with
  | trueWord | falseWord => exact advance_parallel.bind fun _ _ _ => .pure rfl
  | string =>
    exact advance_parallel.bind fun _ _ _ => .pure (by rw [SameTree, bare, bare, htoken.value])
  | number =>
    refine advance_parallel.bind fun _ _ _ => ?_
    rw [← htoken.value]
    cases Number.read? token.value with
    | some value => exact .pure rfl
    | none => exact .throw rfl
  | identifier =>
    exact advance_parallel.bind fun _ _ _ => nameOrCall_parallel heof hread hlimits htoken
  | leftParen =>
    refine advance_parallel.bind fun _ _ _ => (hread _).bind fun t t' ht => ?_
    exact (consume_parallel heof _ _).bind fun _ _ _ => .pure ht
  | leftBracket =>
    refine advance_parallel.bind fun _ _ _ => ?_
    refine (elements_parallel heof hread _ _).bind fun ts ts' hts => ?_
    have hlength : ts.length = ts'.length := by simpa using congrArg List.length hts
    rw [hlimits, hlength]
    refine (demand_parallel _ _ _).bind fun _ _ _ => .get fun s s' _ => .pure ?_
    rw [SameTree, bare, bare, bareAll_eq_map, bareAll_eq_map, hts]
  | minus | not =>
    refine advance_parallel.bind fun _ _ _ => (hread _).bind fun t t' ht => .pure ?_
    rw [SameTree, bare, bare, ht]
  | «if» => exact advance_parallel.bind fun _ _ _ => conditional_parallel heof hread token token'
  | «for» => exact advance_parallel.bind fun _ _ _ => comprehension_parallel heof hread token token'
  | eof => exact reject_parallel _ _ _
  | _ =>
    dsimp only
    rw [htoken.text]
    exact reject_parallel _ _ _

/-- Only a name can be assigned. -/
theorem extend_invalid {left : Expr} (h : ¬ ∃ span name, left = .identifier span name)
    (input : Input) (read : Nat → Reader Expr) (token : Token) :
    ∃ site, extend input read left token .assign =
      throw (.error ⟨.grammatical .invalidTarget, site⟩) := by
  cases left with
  | identifier span name => exact absurd ⟨span, name, rfl⟩ h
  | _ => exact ⟨_, rfl⟩

include heof hread in
/-- Reading an extension of trees that differ at most in their spans goes alike, up to spans. -/
theorem extend_parallel {left left' : Expr} (hleft : left.bare = left'.bare) (token token' : Token)
    (extension : Extension) :
    Reader.Parallel input.source input'.source SameTree (extend input read left token extension)
      (extend input' read' left' token' extension) := by
  cases extension with
  | index =>
    refine (hread _).bind fun i i' hi => (consume_parallel heof _ _).bind fun _ _ _ => .pure ?_
    rw [SameTree, bare, bare, hleft, hi]
  | ternary =>
    refine (hread _).bind fun a a' ha => (consume_parallel heof _ _).bind fun _ _ _ => ?_
    refine (hread _).bind fun b b' hb => .get fun s s' _ => .pure ?_
    rw [SameTree, bare, bare, hleft, ha, hb]
  | range inclusive =>
    refine (hread _).bind fun t t' ht => .pure ?_
    rw [SameTree, bare, bare, hleft, ht]
  | binary operator =>
    refine (hread _).bind fun t t' ht => .pure ?_
    rw [SameTree, bare, bare, hleft, ht]
  | assign =>
    by_cases hname : ∃ span name, left = .identifier span name
    · obtain ⟨span, name, rfl⟩ := hname
      obtain ⟨span', rfl⟩ := bare_eq_identifier hleft.symm
      refine (hread _).bind fun v v' hv => .get fun s s' _ => .pure ?_
      rw [SameTree, bare, bare, hv]
    · have hname' : ¬ ∃ span name, left' = .identifier span name := by
        rintro ⟨span, name, rfl⟩
        obtain ⟨span', rfl⟩ := bare_eq_identifier hleft
        exact hname ⟨span', name, rfl⟩
      obtain ⟨site, hextend⟩ := extend_invalid hname input read token
      obtain ⟨site', hextend'⟩ := extend_invalid hname' input' read' token'
      rw [hextend, hextend']
      exact .throw rfl

include heof hread in
/-- Reading extensions of trees that differ at most in their spans goes alike, up to spans. -/
theorem climb_parallel (minimum count : Nat) {left left' : Expr} (hleft : left.bare = left'.bare) :
    Reader.Parallel input.source input'.source SameTree (climb input read minimum count left)
      (climb input' read' minimum count left') := by
  induction count generalizing left left' with
  | zero => exact .pure hleft
  | succ count ih =>
    unfold climb
    refine (peek_parallel heof).bind fun token token' htoken => ?_
    rw [← htoken.kind]
    cases token.kind.extension? with
    | none => exact .pure hleft
    | some extension =>
      dsimp only
      by_cases hmin : extension.precedence < minimum
      · rw [if_pos hmin, if_pos hmin]
        exact .pure hleft
      · rw [if_neg hmin, if_neg hmin]
        refine advance_parallel.bind fun _ _ _ => ?_
        exact (extend_parallel heof hread hleft token token' extension).bind fun t t' ht => ih ht

end Constructs

/-! ## Expressions and programs -/

section Programs

variable {input input' : Input} (heof : Matches input.source input'.source input.eof input'.eof)
  (hlimits : input.limits = input'.limits)
include heof hlimits

/-- Reading an expression goes alike, up to spans. -/
theorem expression_parallel (levels minimum : Nat) :
    Reader.Parallel input.source input'.source SameTree (expression input levels minimum)
      (expression input' levels minimum) := by
  induction levels generalizing minimum with
  | zero => exact .throw (by rw [Failure.SameCause, hlimits])
  | succ levels ih =>
    unfold expression
    refine (operand_parallel heof ih hlimits).bind fun left left' hleft => .get fun s s' hs => ?_
    rw [hs.length_eq]
    exact climb_parallel heof ih minimum _ hleft

/-- Reading statements goes alike, up to spans. -/
theorem statements_parallel (count : Nat) :
    Reader.Parallel input.source input'.source (fun ts ts' => ts.map bare = ts'.map bare)
      (statements input count) (statements input' count) := by
  induction count with
  | zero => exact .pure rfl
  | succ count ih =>
    unfold statements
    refine .get fun s s' hs => ?_
    obtain ⟨tokens, _⟩ := s
    obtain ⟨tokens', _⟩ := s'
    obtain hnil | ⟨htoken, hrest⟩ := hs
    · exact .pure rfl
    · dsimp only
      rw [hlimits]
      refine (expression_parallel heof hlimits _ _).bind fun t t' ht =>
        ih.bind fun ts ts' hts => .pure ?_
      rw [List.map_cons, List.map_cons, ht, hts]

end Programs

/-- Results of reading two sources: trees that differ at most in their spans, or failures of the
same cause. -/
def SameReading : Except Failure Expr → Except Failure Expr → Prop
  | .ok t, .ok t' => SameTree t t'
  | .error failure, .error failure' => failure.SameCause failure'
  | _, _ => False

/-- Whether a tree is within limits does not depend on its spans, nor does the way in which it
exceeds one. -/
theorem withinLimits_displaced (limits : Limits) {t t' : Expr} (h : SameTree t t') :
    SameReading (withinLimits limits t) (withinLimits limits t') := by
  have hsize : t.size = t'.size := by rw [← size_bare, h, size_bare]
  have hdepth : t.depth = t'.depth := by rw [← depth_bare, h, depth_bare]
  unfold withinLimits
  rw [hsize, hdepth]
  cases limits.check .nodeCount t'.size with
  | error cause => exact rfl
  | ok =>
    dsimp only
    cases limits.check .treeDepth t'.depth with
    | error cause => exact rfl
    | ok => exact h

/-- Sources whose tokens match are read alike. -/
theorem parseTokens_displaced {source source' : String} (limits : Limits) {body body' : List Token}
    {eof eof' : Token} (heof : eof.kind = .eof) (hbody : ∀ token ∈ body, token.kind ≠ .eof)
    (hbody' : ∀ token ∈ body', token.kind ≠ .eof)
    (hmatch : List.Forall₂ (Matches source source') body body')
    (hend : Matches source source' eof eof') :
    SameReading (parseTokens (body ++ [eof]) source limits)
      (parseTokens (body' ++ [eof']) source' limits) := by
  rw [parseTokens_eq heof hbody, parseTokens_eq (hend.kind ▸ heof) hbody', ← hmatch.length_eq]
  have hend' : Matches (⟨source, limits, eof⟩ : Input).source (⟨source', limits, eof'⟩ :
      Input).source eof eof' := hend
  have hstatements := statements_parallel hend' rfl body.length ⟨body, 0⟩ ⟨body', 0⟩ hmatch
  cases hmatch with
  | nil => exact rfl
  | cons hfirst hrest =>
    rw [if_neg (by simp), if_neg (by simp)]
    generalize statements ⟨source, limits, eof⟩ _ _ = result at hstatements ⊢
    generalize statements ⟨source', limits, eof'⟩ _ _ = result' at hstatements ⊢
    cases result <;> cases result'
    case ok.ok p q =>
      refine withinLimits_displaced limits ?_
      rw [SameTree, bare_assemble, bare_assemble, hstatements.1]
    case error.error => exact hstatements
    all_goals exact hstatements.elim

end Parser

end Formulary
