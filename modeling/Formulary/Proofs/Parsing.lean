import Formulary.Proofs.Reader

/-!
# The parser reads the grammar

Construct by construct, the parser is compared with the grammar.  If the readers of nested
expressions are sound and complete, so are `operand`, which reads a `Term`, `extend`, which reads an
`Extends`, and `climb`, which reads a `Climbs` up to where the phrase `Ends`.  Induction on the
levels closes the circle: `expression` reads exactly the `Phrase`s of as many levels, and
`statements` exactly the `Statements`.
-/

set_option autoImplicit false

namespace Formulary

/-- The level of a token that goes on an expression is that of the extension it starts. -/
theorem TokenKind.infixLevel?_eq (kind : TokenKind) :
    kind.infixLevel? = kind.extension?.map Extension.precedence := by
  cases kind <;> rfl

/-- The kind of token that starts an extension. -/
def Extension.tokenKind? : Extension → Option TokenKind
  | .index => some .leftBracket
  | .assign => some .assign
  | .ternary => some .question
  | .range false => some .dotDot
  | .range true => some .dotDotEqual
  | .binary operator => operator.tokenKind?

/-- A kind of token starts an extension exactly if the extension is started by that kind. -/
theorem TokenKind.extension?_eq_some_iff {kind : TokenKind} {extension : Extension} :
    kind.extension? = some extension ↔ extension.tokenKind? = some kind := by
  constructor
  · intro h
    cases kind <;> simp only [extension?, Option.some.injEq, reduceCtorEq] at h <;> subst h <;> rfl
  · intro h
    cases extension with
    | index | assign | ternary => exact (Option.some.inj h) ▸ rfl
    | range inclusive => cases inclusive <;> exact (Option.some.inj h) ▸ rfl
    | binary operator =>
      cases operator <;>
        simp only [Extension.tokenKind?, BinaryOp.tokenKind?, Option.some.injEq,
          reduceCtorEq] at h <;>
        subst h <;> rfl

/-- Only powers group to the right. -/
theorem BinaryOp.isRightAssociative_of_ne {operator : BinaryOp} (h : operator ≠ .power) :
    operator.isRightAssociative = false := by
  cases operator <;> first | rfl | exact absurd rfl h

/-- The lists of a tree are within limits if the root's own list and those of the parts are. -/
theorem Expr.ListsWithin.intro {limits : Limits} {t : Expr} (hroot : t.ListWithin limits)
    (hparts : ∀ part ∈ t.children, part.ListsWithin limits) : t.ListsWithin limits :=
  (Expr.everywhere_iff t).mpr ⟨hroot, hparts⟩

namespace Grammar

/-- The rest of a list of elements: nothing, or a comma and one or more of them. -/
def More (sub : Nat → Phrases) (xs : List Symbol) (ts : List Expr) (ys : List Symbol) : Prop :=
  (ts = [] ∧ ys = xs) ∨ ∃ v zs, xs = ⟨.comma, v⟩ :: zs ∧ Elements sub zs ts ys

/-- One or more elements are a first one and the rest. -/
theorem elements_iff {sub : Nat → Phrases} {xs zs : List Symbol} {ts : List Expr} :
    Elements sub xs ts zs ↔ ∃ t more ys, ts = t :: more ∧ sub 0 xs t ys ∧ More sub ys more zs := by
  constructor
  · intro h
    cases h with
    | last h => exact ⟨_, [], _, rfl, h, .inl ⟨rfl, rfl⟩⟩
    | more h hmore => exact ⟨_, _, _, rfl, h, .inr ⟨_, _, rfl, hmore⟩⟩
  · rintro ⟨t, more, ys, rfl, h, ⟨rfl, rfl⟩ | ⟨v, rest, rfl, hmore⟩⟩
    · exact .last h
    · exact .more h hmore

/-- The symbol in front of an extension starts it, with a level that the minimum allows. -/
theorem Extends.extension? {sub : Nat → Phrases} {minimum : Nat} {kind : TokenKind}
    {left t : Expr} {xs ys : List Symbol} (h : Extends sub minimum kind left xs t ys) :
    ∃ extension, kind.extension? = some extension ∧ minimum ≤ extension.precedence := by
  cases h with
  | index hmin => exact ⟨.index, rfl, hmin⟩
  | power hmin => exact ⟨.binary .power, rfl, hmin⟩
  | binary hkind _ hmin =>
    exact ⟨.binary _, TokenKind.extension?_eq_some_iff.mpr hkind, hmin⟩
  | range hmin => exact ⟨.range false, rfl, hmin⟩
  | inclusiveRange hmin => exact ⟨.range true, rfl, hmin⟩
  | ternary hmin => exact ⟨.ternary, rfl, hmin⟩
  | assign hmin => exact ⟨.assign, rfl, hmin⟩

/-- What is extended is within limits if the whole is. -/
theorem Climbs.listsWithin {sub : Nat → Phrases} {limits : Limits} {minimum : Nat}
    {left t : Expr} {xs ys : List Symbol} (h : Climbs sub minimum left xs t ys)
    (ht : t.ListsWithin limits) : left.ListsWithin limits := by
  induction h with
  | done => exact ht
  | step hext _ ih =>
    have hnext := ih ht
    cases hext with
    | assign => exact .intro trivial (by simp [Expr.children])
    | _ => exact hnext.part (by simp [Expr.children])

/-- No phrase begins with a token that closes a list. -/
def Opens (sub : Nat → Phrases) : Prop :=
  ∀ minimum x xs t ys, sub minimum (x :: xs) t ys →
    x.kind ≠ .rightParen ∧ x.kind ≠ .rightBracket

/-- Every phrase opens with a symbol that closes no list. -/
theorem Phrase.opens (levels : Nat) : Opens (Phrase levels) := by
  intro minimum x xs t ys h
  cases levels with
  | zero => exact h.elim
  | succ levels =>
    obtain ⟨⟨first, rest, hterm, -⟩, -⟩ := h
    cases hterm <;> simp

end Grammar

namespace Parser

open Grammar Formulary.Expr

/-! ## Soundness -/

section Soundness

variable {input : Input} (heof : input.eof.kind = .eof) {levels room : Nat}
  {read : Nat → Reader Expr} {sub : Nat → Phrases} (hsub : Advances sub)
  (hread : Sound input.limits (Expected input.limits levels room) room read sub)

/-- Trees that are all within limits once their spans are forgotten. -/
def AllWithin (limits : Limits) (ts : List Expr) : Prop :=
  ∀ t ∈ ts.map bare, t.ListsWithin limits

/-- No trees at all are within limits. -/
theorem AllWithin.nil (limits : Limits) : AllWithin limits [] := by
  simp [AllWithin]

/-- A tree and further trees are all within limits if the tree is and the others are. -/
theorem AllWithin.cons {limits : Limits} {t : Expr} {ts : List Expr}
    (ht : t.bare.ListsWithin limits) (hts : AllWithin limits ts) : AllWithin limits (t :: ts) := by
  intro t' ht'
  rw [List.map_cons, List.mem_cons] at ht'
  rcases ht' with rfl | ht'
  · exact ht
  · exact hts t' ht'

include hsub hread in
/-- What is read behind an element of a list is the rest of a list of the grammar. -/
theorem moreElements_sound (count : Nat) (s : Stream) (hcount : s.symbols.length ≤ count)
    (hs : Pending room s.symbols) :
    Holds (moreElements read count s)
      (fun ts s' => More sub s.symbols (ts.map bare) s'.symbols ∧ AllWithin input.limits ts)
      (Expected input.limits levels room) := by
  induction count generalizing s with
  | zero => exact ⟨.inl ⟨rfl, rfl⟩, AllWithin.nil _⟩
  | succ count ih =>
    unfold moreElements
    refine (skipIf_holds .comma s).bind ?_
    rintro found s₁ (⟨rfl, v, hv⟩ | ⟨rfl, rfl, -⟩)
    · have hs₁ : Pending room s₁.symbols := Pending.rest (hv ▸ hs)
      refine (hread _ s₁ hs₁).bind ?_
      rintro t s₂ ⟨ht, htwithin⟩
      have hbehind := hsub _ _ _ _ ht
      have hcount₂ : s₂.symbols.length ≤ count := by
        have hlength := hbehind.length_lt
        rw [hv, List.length_cons] at hcount
        omega
      refine (ih s₂ hcount₂ (hs₁.behind hbehind)).bind ?_
      rintro ts s₃ ⟨hts, htswithin⟩
      refine ⟨.inr ⟨v, s₁.symbols, hv, ?_⟩, htswithin.cons htwithin⟩
      exact elements_iff.mpr ⟨_, _, _, rfl, ht, hts⟩
    · exact ⟨.inl ⟨rfl, rfl⟩, AllWithin.nil _⟩

include heof hsub hread in
/-- What is read between brackets is a list of the grammar with the symbol that closes it. -/
theorem elements_sound {closing : TokenKind} (hclosing : closing ≠ .eof)
    (expectation : Expectation) (s : Stream) (hs : Pending room s.symbols) :
    Holds (elements input read closing expectation s)
      (fun ts s' => Items sub closing s.symbols (ts.map bare) s'.symbols ∧
        AllWithin input.limits ts)
      (Expected input.limits levels room) := by
  unfold elements
  refine (peek_holds s).bind ?_
  rintro token _ ⟨rfl, hnext⟩
  by_cases htoken : token.kind = closing
  · simp only [htoken, ↓reduceIte]
    rcases hnext with ⟨-, rfl⟩ | ⟨ys, hys⟩
    · exact absurd (htoken.symm.trans heof) hclosing
    · refine (advance_holds hys).bind ?_
      intro _ s' hs'
      refine ⟨?_, AllWithin.nil _⟩
      rw [hys, hs', Token.symbol, htoken]
      exact .none
  · simp only [htoken, ↓reduceIte]
    refine (hread _ _ hs).bind ?_
    rintro t s₁ ⟨ht, htwithin⟩
    refine Holds.get ?_
    have hs₁ : Pending room s₁.symbols := hs.behind (hsub _ _ _ _ ht)
    refine (moreElements_sound hsub hread _ s₁ (Nat.le_of_eq s₁.length_symbols) hs₁).bind ?_
    rintro ts s₂ ⟨hts, htswithin⟩
    refine (consume_sound heof hclosing expectation s₂).bind ?_
    intro close s₃ hclose
    have hall : Elements sub _ ((t :: ts).map bare) s₂.symbols :=
      elements_iff.mpr ⟨_, _, _, rfl, ht, hts⟩
    exact ⟨.some (hclose ▸ hall), htswithin.cons htwithin⟩

include heof hsub hread in
/-- What is read behind `if` is a conditional of the grammar. -/
theorem conditional_sound (keyword : Token) (s : Stream) (hs : Pending room s.symbols)
    (u : String) :
    Holds (conditional input read keyword s)
      (fun t s' => Term sub (⟨.if, u⟩ :: s.symbols) t.bare s'.symbols ∧
        t.bare.ListsWithin input.limits)
      (Expected input.limits levels room) := by
  unfold conditional
  refine (hread _ _ hs).bind ?_
  rintro c s₁ ⟨hc, hcwithin⟩
  refine (consume_sound heof (by decide) _ s₁).bind ?_
  intro _ s₂ hthen
  have hs₂ : Pending room s₂.symbols := Pending.rest (hthen ▸ hs.behind (hsub _ _ _ _ hc))
  refine (hread _ _ hs₂).bind ?_
  rintro a s₃ ⟨ha, hawithin⟩
  refine (consume_sound heof (by decide) _ s₃).bind ?_
  intro _ s₄ helse
  have hs₄ : Pending room s₄.symbols := Pending.rest (helse ▸ hs₂.behind (hsub _ _ _ _ ha))
  refine (hread _ _ hs₄).bind ?_
  rintro b s₅ ⟨hb, hbwithin⟩
  refine ⟨.conditional (hthen ▸ hc) (helse ▸ ha) hb, ?_⟩
  refine ListsWithin.intro trivial ?_
  simp only [bare, children, List.mem_cons, List.not_mem_nil, or_false, forall_eq_or_imp, forall_eq]
  exact ⟨hcwithin, hawithin, hbwithin⟩

include heof hsub hread in
/-- What is read behind `for` is a comprehension of the grammar, with a guard or without. -/
theorem comprehension_sound (keyword : Token) (s : Stream) (hs : Pending room s.symbols)
    (u : String) :
    Holds (comprehension input read keyword s)
      (fun t s' => Term sub (⟨.for, u⟩ :: s.symbols) t.bare s'.symbols ∧
        t.bare.ListsWithin input.limits)
      (Expected input.limits levels room) := by
  unfold comprehension
  refine (consume_sound heof (by decide) _ s).bind ?_
  intro binder s₁ hbinder
  refine (consume_sound heof (by decide) _ s₁).bind ?_
  intro _ s₂ hin
  have hs₂ : Pending room s₂.symbols := Pending.rest (hin ▸ Pending.rest (hbinder ▸ hs))
  refine (hread _ _ hs₂).bind ?_
  rintro i s₃ ⟨hi, hiwithin⟩
  have hs₃ := hs₂.behind (hsub _ _ _ _ hi)
  rw [hbinder, hin]
  unfold guard?
  simp only [bind_assoc]
  refine (skipIf_holds .when s₃).bind ?_
  rintro found s₄ (⟨rfl, v, hwhen⟩ | ⟨rfl, rfl, -⟩)
  · simp only [↓reduceIte, bind_assoc, pure_bind]
    have hs₄ : Pending room s₄.symbols := Pending.rest (hwhen ▸ hs₃)
    refine (hread _ _ hs₄).bind ?_
    rintro g s₅ ⟨hg, hgwithin⟩
    refine (consume_sound heof (by decide) _ s₅).bind ?_
    intro _ s₆ hthen
    have hs₆ : Pending room s₆.symbols := Pending.rest (hthen ▸ hs₄.behind (hsub _ _ _ _ hg))
    refine (hread _ _ hs₆).bind ?_
    rintro b s₇ ⟨hb, hbwithin⟩
    refine ⟨.guarded (hwhen ▸ hi) (hthen ▸ hg) hb, ?_⟩
    refine ListsWithin.intro trivial ?_
    simp only [bare, children, Option.toList_some, List.cons_append, List.nil_append, List.mem_cons,
      List.not_mem_nil, or_false, forall_eq_or_imp, forall_eq]
    exact ⟨hiwithin, hgwithin, hbwithin⟩
  · simp only [Bool.false_eq_true, ↓reduceIte, pure_bind]
    refine (consume_sound heof (by decide) _ s₄).bind ?_
    intro _ s₅ hthen
    have hs₅ : Pending room s₅.symbols := Pending.rest (hthen ▸ hs₃)
    refine (hread _ _ hs₅).bind ?_
    rintro b s₆ ⟨hb, hbwithin⟩
    refine ⟨.comprehension (hthen ▸ hi) hb, ?_⟩
    refine ListsWithin.intro trivial ?_
    simp only [bare, children, Option.toList_none, List.nil_append, List.cons_append, List.mem_cons,
      List.not_mem_nil, or_false, forall_eq_or_imp, forall_eq]
    exact ⟨hiwithin, hbwithin⟩

include heof hsub hread in
/-- What is read from an identifier is a call of the grammar or the name itself. -/
theorem nameOrCall_sound (name : Token) (s : Stream) (hs : Pending room s.symbols) :
    Holds (nameOrCall input read name s)
      (fun t s' => Term sub (⟨.identifier, name.value⟩ :: s.symbols) t.bare s'.symbols ∧
        t.bare.ListsWithin input.limits)
      (Expected input.limits levels room) := by
  unfold nameOrCall
  refine (skipIf_holds .leftParen s).bind ?_
  rintro found s₁ (⟨rfl, v, hparen⟩ | ⟨rfl, rfl, hother⟩)
  · simp only [↓reduceIte]
    have hs₁ : Pending room s₁.symbols := Pending.rest (hparen ▸ hs)
    refine (elements_sound heof hsub hread (by decide) _ s₁ hs₁).bind ?_
    rintro ts s₂ ⟨hts, htswithin⟩
    have hroomy : Roomy input.limits levels room →
        (ts.length : Int) ≤ input.limits.bound .argumentCount := by
      rintro ⟨-, -, hroom⟩
      have hcount := hts.length_lt hsub
      have hpending := hs₁.length_lt
      simp only [List.length_map] at hcount
      omega
    refine (demand_sound hroomy).bind ?_
    rintro _ _ ⟨rfl, hlength⟩
    refine Holds.get ⟨?_, ListsWithin.intro ?_ ?_⟩
    · rw [hparen]
      simpa [bare] using Term.call (v := name.value) (w := v) hts
    · simpa [bare, ListWithin] using hlength
    · simpa [bare, children, AllWithin] using htswithin
  · simp only [Bool.false_eq_true, ↓reduceIte]
    refine ⟨.name ?_, ListsWithin.intro trivial (by simp [bare, children])⟩
    cases hsymbols : s₁.symbols with
    | nil => trivial
    | cons x ys =>
      intro hx
      exact hother x.value ys (by rw [hsymbols, ← hx])

include heof hsub hread in
/-- What `operand` returns is a term. -/
theorem operand_sound (s : Stream) (hs : Pending (room + 1) s.symbols) :
    Holds (operand input read s)
      (fun t s' => Term sub s.symbols t.bare s'.symbols ∧ t.bare.ListsWithin input.limits)
      (Expected input.limits levels room) := by
  unfold operand
  refine (peek_holds s).bind ?_
  rintro token _ ⟨rfl, hnext⟩
  rcases hnext with ⟨-, rfl⟩ | ⟨ys, hys⟩
  · rw [heof]
    exact reject_holds _ _
  · -- One case for each token that a term can start with; `operand` rejects all others.
    cases hkind : token.kind with
    | trueWord =>
      refine (advance_holds hys).bind ?_
      rintro _ s₁ rfl
      rw [hys, Token.symbol, hkind]
      exact ⟨.truth, .intro trivial (by simp [bare, children])⟩
    | falseWord =>
      refine (advance_holds hys).bind ?_
      rintro _ s₁ rfl
      rw [hys, Token.symbol, hkind]
      exact ⟨.falsehood, .intro trivial (by simp [bare, children])⟩
    | string =>
      refine (advance_holds hys).bind ?_
      rintro _ s₁ rfl
      rw [hys, Token.symbol, hkind]
      exact ⟨.string, .intro trivial (by simp [bare, children])⟩
    | number =>
      have hsome := hs.readable token.symbol (hys ▸ List.mem_cons_self) hkind
      obtain ⟨x, hx⟩ := Option.isSome_iff_exists.mp hsome
      refine (advance_holds hys).bind ?_
      rintro _ s₁ rfl
      rw [hys, Token.symbol, hkind]
      rw [show Number.read? token.value = some x from hx]
      exact ⟨.number hx, .intro trivial (by simp [bare, children])⟩
    | identifier =>
      refine (advance_holds hys).bind ?_
      rintro _ s₁ rfl
      rw [hys, Token.symbol, hkind]
      exact nameOrCall_sound heof hsub hread token s₁ (Pending.tail (hys ▸ hs))
    | leftParen =>
      refine (advance_holds hys).bind ?_
      rintro _ s₁ rfl
      refine (hread _ s₁ (Pending.tail (hys ▸ hs))).bind ?_
      rintro t s₂ ⟨ht, htwithin⟩
      refine (consume_sound heof (by decide) _ s₂).bind ?_
      intro _ s₃ hclose
      rw [hys, Token.symbol, hkind]
      exact ⟨.group (hclose ▸ ht), htwithin⟩
    | leftBracket =>
      refine (advance_holds hys).bind ?_
      rintro _ s₁ rfl
      have hs₁ : Pending room s₁.symbols := Pending.tail (hys ▸ hs)
      refine (elements_sound heof hsub hread (by decide) _ s₁ hs₁).bind ?_
      rintro ts s₂ ⟨hts, htswithin⟩
      have hroomy : Roomy input.limits levels room →
          (ts.length : Int) ≤ input.limits.bound .arrayLength := by
        rintro ⟨-, hroom, -⟩
        have hcount := hts.length_lt hsub
        have hpending := hs₁.length_lt
        simp only [List.length_map] at hcount
        omega
      refine (demand_sound hroomy).bind ?_
      rintro _ _ ⟨rfl, hlength⟩
      refine Holds.get ⟨?_, ListsWithin.intro ?_ ?_⟩
      · rw [hys, Token.symbol, hkind]
        simpa [bare] using Term.array hts
      · simpa [bare, ListWithin] using hlength
      · simpa [bare, children, AllWithin] using htswithin
    | minus =>
      refine (advance_holds hys).bind ?_
      rintro _ s₁ rfl
      refine (hread _ s₁ (Pending.tail (hys ▸ hs))).bind ?_
      rintro t s₂ ⟨ht, htwithin⟩
      rw [hys, Token.symbol, hkind]
      exact ⟨.negate ht, .intro trivial (by simpa [bare, children] using htwithin)⟩
    | not =>
      refine (advance_holds hys).bind ?_
      rintro _ s₁ rfl
      refine (hread _ s₁ (Pending.tail (hys ▸ hs))).bind ?_
      rintro t s₂ ⟨ht, htwithin⟩
      rw [hys, Token.symbol, hkind]
      exact ⟨.not ht, .intro trivial (by simpa [bare, children] using htwithin)⟩
    | «if» =>
      refine (advance_holds hys).bind ?_
      rintro _ s₁ rfl
      rw [hys, Token.symbol, hkind]
      exact conditional_sound heof hsub hread token s₁ (Pending.tail (hys ▸ hs)) _
    | «for» =>
      refine (advance_holds hys).bind ?_
      rintro _ s₁ rfl
      rw [hys, Token.symbol, hkind]
      exact comprehension_sound heof hsub hread token s₁ (Pending.tail (hys ▸ hs)) _
    | _ => exact reject_holds _ _

include heof hsub hread in
/-- What `extend` returns is an extension of what it is given. -/
theorem extend_sound {minimum : Nat} {left : Expr} (hleft : left.bare.ListsWithin input.limits)
    {token : Token} {extension : Extension} (hkind : token.kind.extension? = some extension)
    (hmin : minimum ≤ extension.precedence) (s : Stream) (hs : Pending room s.symbols) :
    Holds (extend input read left token extension s)
      (fun t s' => Extends sub minimum token.kind left.bare s.symbols t.bare s'.symbols ∧
        t.bare.ListsWithin input.limits)
      (Expected input.limits levels room) := by
  have hstart := TokenKind.extension?_eq_some_iff.mp hkind
  cases extension with
  | index =>
    rw [← Option.some.inj hstart]
    refine (hread _ _ hs).bind ?_
    rintro i s₁ ⟨hi, hiwithin⟩
    refine (consume_sound heof (by decide) _ s₁).bind ?_
    intro close s₂ hclose
    refine ⟨.index hmin (hclose ▸ hi), .intro trivial ?_⟩
    simpa [bare, children] using ⟨hleft, hiwithin⟩
  | assign =>
    rw [← Option.some.inj hstart]
    cases left with
    | identifier span name =>
      refine (hread _ _ hs).bind ?_
      rintro value s₁ ⟨hvalue, hvaluewithin⟩
      refine Holds.get ⟨.assign hmin hvalue, .intro trivial ?_⟩
      simpa [bare, children] using hvaluewithin
    | _ => exact .inl ⟨_, rfl⟩
  | ternary =>
    rw [← Option.some.inj hstart]
    refine (hread _ _ hs).bind ?_
    rintro a s₁ ⟨ha, hawithin⟩
    refine (consume_sound heof (by decide) _ s₁).bind ?_
    intro _ s₂ hcolon
    have hs₂ : Pending room s₂.symbols := Pending.rest (hcolon ▸ hs.behind (hsub _ _ _ _ ha))
    refine (hread _ _ hs₂).bind ?_
    rintro b s₃ ⟨hb, hbwithin⟩
    refine Holds.get ⟨.ternary hmin (hcolon ▸ ha) hb, .intro trivial ?_⟩
    simpa [bare, children] using ⟨hleft, hawithin, hbwithin⟩
  | range inclusive =>
    refine (hread _ _ hs).bind ?_
    rintro last s₁ ⟨hlast, hlastwithin⟩
    refine ⟨?_, .intro trivial (by simpa [bare, children] using ⟨hleft, hlastwithin⟩)⟩
    cases inclusive with
    | false =>
      rw [← Option.some.inj hstart]
      exact .range hmin hlast
    | true =>
      rw [← Option.some.inj hstart]
      exact .inclusiveRange hmin hlast
  | binary operator =>
    refine (hread _ _ hs).bind ?_
    rintro right s₁ ⟨hright, hrightwithin⟩
    refine ⟨?_, .intro trivial (by simpa [bare, children] using ⟨hleft, hrightwithin⟩)⟩
    -- Only a power groups to the right: its right operand may be of the same level again.
    by_cases hpower : operator = .power
    · subst hpower
      rw [← Option.some.inj hstart]
      exact .power hmin hright
    · rw [BinaryOp.isRightAssociative_of_ne hpower] at hright
      exact .binary hstart hpower hmin hright

/-- A phrase ends in front of a token that starts no extension of its level. -/
theorem ends_of_next {minimum : Nat} {token : Token} {s : Stream}
    (hnext : s.symbols = [] ∧ token = input.eof ∨ ∃ ys, s.symbols = token.symbol :: ys)
    (h : ∀ extension, token.kind.extension? = some extension → extension.precedence < minimum) :
    Ends minimum s.symbols := by
  rcases hnext with ⟨hnil, -⟩ | ⟨ys, hys⟩
  · exact hnil ▸ trivial
  · rw [hys]
    intro level hlevel
    rw [Token.symbol, TokenKind.infixLevel?_eq] at hlevel
    obtain ⟨extension, hextension, rfl⟩ := Option.map_eq_some_iff.mp hlevel
    exact h extension hextension

include heof hsub hread in
/-- What `climb` returns goes on a chain up to where the phrase ends. -/
theorem climb_sound {minimum : Nat} {xs : List Symbol} (count : Nat) (left : Expr) (s : Stream)
    (hcount : s.symbols.length ≤ count) (hs : Pending (room + 1) s.symbols)
    (hchain : Chain sub minimum xs left.bare s.symbols)
    (hleft : left.bare.ListsWithin input.limits) :
    Holds (climb input read minimum count left s)
      (fun t s' => (Chain sub minimum xs t.bare s'.symbols ∧ Ends minimum s'.symbols) ∧
        t.bare.ListsWithin input.limits)
      (Expected input.limits levels room) := by
  -- The chain grows at its end while the symbols ahead get fewer: the invariant is the chain read
  -- so far.
  induction count generalizing left s with
  | zero =>
    have hnil : s.symbols = [] := List.eq_nil_of_length_eq_zero (Nat.le_zero.mp hcount)
    exact ⟨⟨hchain, hnil ▸ trivial⟩, hleft⟩
  | succ count ih =>
    unfold climb
    refine (peek_holds s).bind ?_
    rintro token _ ⟨rfl, hnext⟩
    cases hextension : token.kind.extension? with
    | none => exact ⟨⟨hchain, ends_of_next hnext (by simp [hextension])⟩, hleft⟩
    | some extension =>
      by_cases hmin : extension.precedence < minimum
      · simp only [hmin, ↓reduceIte]
        exact ⟨⟨hchain, ends_of_next hnext (by simpa [hextension] using hmin)⟩, hleft⟩
      · simp only [hmin, ↓reduceIte]
        rcases hnext with ⟨-, rfl⟩ | ⟨ys, hys⟩
        · rw [heof] at hextension
          simp [TokenKind.extension?] at hextension
        · refine (advance_holds hys).bind ?_
          rintro _ s₁ rfl
          have hs₁ : Pending room s₁.symbols := Pending.tail (hys ▸ hs)
          refine (extend_sound heof hsub hread hleft hextension
            (Nat.le_of_not_lt hmin) s₁ hs₁).bind ?_
          rintro next s₂ ⟨hnext, hnextwithin⟩
          have hbehind := hnext.behind hsub
          have hcount₂ : s₂.symbols.length ≤ count := by
            have hlength := hbehind.length_lt
            rw [hys, List.length_cons] at hcount
            omega
          have hchain₂ : Chain sub minimum xs next.bare s₂.symbols :=
            Chain.snoc (hys ▸ hchain) hnext
          exact ih next s₂ hcount₂ (hs₁.behind hbehind).succ hchain₂ hnextwithin

include heof in
/-- The reader of expressions with a number of levels returns phrases of as many levels. -/
theorem expression_sound (levels room : Nat) :
    Sound input.limits (Expected input.limits levels room) (room + 1) (expression input levels)
      (Phrase levels) := by
  induction levels generalizing room with
  | zero => exact fun _ _ _ => .inr ⟨⟨_, _, _, rfl⟩, fun h => Nat.not_lt_zero _ h.1⟩
  | succ levels ih =>
    -- A nested expression stands behind a symbol at least, so that it has less room and one level
    -- less to fail by.
    have hread : Sound input.limits (Expected input.limits (levels + 1) room) room
        (expression input levels) (Phrase levels) := by
      intro minimum s hs
      obtain ⟨room, rfl⟩ : ∃ n, room = n + 1 := ⟨room - 1, by have := hs.length_lt; omega⟩
      refine (ih room minimum s hs).mono (fun _ _ h => h) fun failure h => h.imp_right ?_
      rintro ⟨hlimit, hroomy⟩
      refine ⟨hlimit, fun ⟨hlevels, harrays, hcalls⟩ => hroomy ⟨?_, ?_, ?_⟩⟩ <;> omega
    intro minimum s hs
    unfold expression
    refine (operand_sound heof (Phrase.advances levels) hread s hs).bind ?_
    rintro left s₁ ⟨hleft, hleftwithin⟩
    refine Holds.get ?_
    have hs₁ := hs.behind (hleft.behind (Phrase.advances levels))
    exact climb_sound heof (Phrase.advances levels) hread _ left s₁
      (Nat.le_of_eq s₁.length_symbols) hs₁ ⟨_, _, hleft, .done⟩ hleftwithin

/-- Nothing is read where nothing is left. -/
theorem statements_nil {bad : Failure → Prop} (count : Nat) (s : Stream) (hs : s.symbols = []) :
    Holds (statements input count s) (fun ts _ => ts = []) bad := by
  have hrest : s.rest = [] := by simpa [Stream.symbols] using hs
  cases count with
  | zero => rfl
  | succ count =>
    unfold statements
    refine Holds.get ?_
    rw [hrest]
    rfl

include heof in
/-- What `statements` returns are statements, if there is anything to read. -/
theorem statements_sound (count : Nat) (s : Stream) (hcount : s.symbols.length ≤ count)
    (hs : Pending (room + 1) s.symbols) (hne : s.symbols ≠ []) :
    Holds (statements input count s)
      (fun ts _ =>
        Statements (input.limits.bound .parseDepth).toNat s.symbols (ts.map bare) ∧
        AllWithin input.limits ts)
      (Expected input.limits (input.limits.bound .parseDepth).toNat room) := by
  induction count generalizing s with
  | zero => exact absurd (List.eq_nil_of_length_eq_zero (Nat.le_zero.mp hcount)) hne
  | succ count ih =>
    unfold statements
    refine Holds.get ?_
    cases hrest : s.rest with
    | nil => exact absurd (by simp [Stream.symbols, hrest]) hne
    | cons token rest =>
      refine (expression_sound heof _ room _ s hs).bind ?_
      rintro t s₁ ⟨ht, htwithin⟩
      have hbehind := Phrase.advances _ _ _ _ _ ht
      have hcount₁ : s₁.symbols.length ≤ count := by
        have hlength := hbehind.length_lt
        omega
      by_cases hlast : s₁.symbols = []
      · refine (statements_nil count s₁ hlast).bind ?_
        rintro _ s₂ rfl
        exact ⟨.last (hlast ▸ ht), (AllWithin.nil _).cons htwithin⟩
      · refine (ih s₁ hcount₁ (hs.behind hbehind) hlast).bind ?_
        rintro ts s₂ ⟨hts, htswithin⟩
        exact ⟨.more ht hts, htswithin.cons htwithin⟩

end Soundness

/-! ## Completeness -/

section Completeness

variable {input : Input} (heof : input.eof.kind = .eof) {enough : Prop} {read : Nat → Reader Expr}
  {sub : Nat → Phrases} (hsub : Advances sub) (hopens : Opens sub)
  (hread : Complete input.limits enough read sub)

include hsub hread in
/-- The rest of a list of the grammar is read to its end, unless an element exceeds a limit. -/
theorem moreElements_complete {bad : Failure → Prop} (count : Nat) (s : Stream) {ts : List Expr}
    {zs : List Symbol} (hmore : More sub s.symbols ts zs) (hend : ∀ v ys, zs ≠ ⟨.comma, v⟩ :: ys)
    (hcount : s.symbols.length ≤ count)
    (hbad : ∀ t ∈ ts, ∀ failure, Exceeded input.limits enough t failure → bad failure) :
    Holds (moreElements read count s) (fun ts' s' => ts'.map bare = ts ∧ s'.symbols = zs) bad := by
  induction count generalizing s ts with
  | zero =>
    have hnil : s.symbols = [] := List.eq_nil_of_length_eq_zero (Nat.le_zero.mp hcount)
    rcases hmore with ⟨rfl, rfl⟩ | ⟨v, rest, hv, -⟩
    · exact ⟨rfl, rfl⟩
    · simp [hnil] at hv
  | succ count ih =>
    unfold moreElements
    rcases hmore with ⟨rfl, rfl⟩ | ⟨v, rest, hv, helements⟩
    · refine (skipIf_other hend).bind ?_
      rintro _ _ ⟨rfl, rfl⟩
      exact ⟨rfl, rfl⟩
    · refine (skipIf_cons hv).bind ?_
      rintro _ s₁ ⟨rfl, rfl⟩
      obtain ⟨t, more, ys, rfl, ht, hmore⟩ := elements_iff.mp helements
      refine ((hread _ s₁ _ _ ht).mono (fun _ _ h => h) (hbad t List.mem_cons_self)).bind ?_
      rintro t' s₂ ⟨rfl, rfl⟩
      have hcount₂ : s₂.symbols.length ≤ count := by
        have hlength := (hsub _ _ _ _ ht).length_lt
        rw [hv, List.length_cons] at hcount
        omega
      refine (ih s₂ hmore hcount₂ fun t ht => hbad t (List.mem_cons_of_mem _ ht)).bind ?_
      rintro ts' s₃ ⟨rfl, rfl⟩
      exact ⟨rfl, rfl⟩

include hsub hopens hread in
/-- A list of the grammar is read to the symbol that closes it, unless an element exceeds a
limit. -/
theorem elements_complete {bad : Failure → Prop} {closing : TokenKind}
    (hclosing : closing = .rightParen ∨ closing = .rightBracket) (expectation : Expectation)
    (s : Stream) {ts : List Expr} {zs : List Symbol} (hitems : Items sub closing s.symbols ts zs)
    (hbad : ∀ t ∈ ts, ∀ failure, Exceeded input.limits enough t failure → bad failure) :
    Holds (elements input read closing expectation s)
      (fun ts' s' => ts'.map bare = ts ∧ s'.symbols = zs) bad := by
  unfold elements
  generalize hxs : s.symbols = xs at hitems
  cases hitems with
  | none =>
    refine (peek_cons hxs).bind ?_
    rintro token _ ⟨rfl, htoken⟩
    have hkind : token.kind = closing := (Symbol.mk.inj htoken).1
    simp only [hkind, ↓reduceIte]
    refine (advance_holds hxs).bind ?_
    rintro _ s₁ rfl
    exact ⟨rfl, rfl⟩
  | @some _ _ v _ helements =>
    obtain ⟨t, more, ys, rfl, ht, hmore⟩ := elements_iff.mp helements
    subst hxs
    obtain ⟨x, rest, hx⟩ := List.exists_cons_of_length_pos
      (Nat.zero_lt_of_lt (hsub _ _ _ _ ht).length_lt)
    refine (peek_cons hx).bind ?_
    rintro token _ ⟨rfl, htoken⟩
    -- An element is there, and no phrase opens with the token that would close the list.
    have hkind : token.kind ≠ closing := by
      have hother := hopens _ _ _ _ _ (hx ▸ ht)
      rw [← htoken] at hother
      rcases hclosing with rfl | rfl
      · exact hother.1
      · exact hother.2
    simp only [hkind, ↓reduceIte]
    refine ((hread _ _ _ _ ht).mono (fun _ _ h => h) (hbad t List.mem_cons_self)).bind ?_
    rintro t' s₁ ⟨rfl, rfl⟩
    refine Holds.get ?_
    have hend : ∀ w rest, (⟨closing, v⟩ :: zs : List Symbol) ≠ ⟨.comma, w⟩ :: rest := by
      rcases hclosing with rfl | rfl <;> simp
    refine (moreElements_complete hsub hread _ s₁ hmore hend (Nat.le_of_eq s₁.length_symbols)
      fun t ht => hbad t (List.mem_cons_of_mem _ ht)).bind ?_
    rintro more' s₂ ⟨rfl, hs₂⟩
    refine (consume_complete hs₂).bind ?_
    rintro _ s₃ ⟨-, rfl⟩
    exact ⟨rfl, rfl⟩

include hread in
/-- A phrase for a part is read, unless something is exceeded that the whole tree exceeds too. -/
theorem read_part {minimum : Nat} {s : Stream} {part t : Expr} {ys : List Symbol}
    (h : sub minimum s.symbols part ys) (hpart : part ∈ t.children) :
    Holds (read minimum s) (fun t' s' => t'.bare = part ∧ s'.symbols = ys)
      (Exceeded input.limits enough t) :=
  (hread _ _ _ _ h).mono (fun _ _ h => h) fun _ h => h.of_part hpart

/-- A list that is demanded to be within its limit is so, or the tree that has it exceeds one. -/
theorem demand_list {kind : LimitKind} {amount : Nat} {t : Expr} {s : Stream}
    (hlist : t.ListWithin input.limits → (amount : Int) ≤ input.limits.bound kind) :
    Holds (demand input.limits kind amount s) (fun _ s' => s' = s)
      (Exceeded input.limits enough t) :=
  demand_complete.mono (fun _ _ h => h) fun _ h => .inr ⟨h.1, fun ht => h.2 (hlist ht.root)⟩

include hread in
/-- A conditional of the grammar is read, unless it exceeds a limit. -/
theorem conditional_complete (keyword : Token) (s : Stream) {c a b : Expr} {v w : String}
    {ys zs rest : List Symbol} (hc : sub 0 s.symbols c (⟨.then, v⟩ :: ys))
    (ha : sub 0 ys a (⟨.else, w⟩ :: zs)) (hb : sub 0 zs b rest) :
    Holds (conditional input read keyword s)
      (fun t' s' => t'.bare = .conditional .none c a b ∧ s'.symbols = rest)
      (Exceeded input.limits enough (.conditional .none c a b)) := by
  unfold conditional
  refine (read_part hread hc (by simp [children])).bind ?_
  rintro c' s₁ ⟨rfl, hs₁⟩
  refine (consume_complete hs₁).bind ?_
  rintro _ s₂ ⟨-, rfl⟩
  refine (read_part hread ha (by simp [children])).bind ?_
  rintro a' s₃ ⟨rfl, hs₃⟩
  refine (consume_complete hs₃).bind ?_
  rintro _ s₄ ⟨-, rfl⟩
  refine (read_part hread hb (by simp [children])).bind ?_
  rintro b' s₅ ⟨rfl, rfl⟩
  exact ⟨rfl, rfl⟩

/-- No guard is read where the body of a comprehension begins. -/
theorem guard?_absent {bad : Failure → Prop} (s : Stream) {v : String} {ys : List Symbol}
    (h : s.symbols = ⟨.then, v⟩ :: ys) :
    Holds (guard? read s)
      (fun g' s' => g'.map bare = none ∧ s'.symbols = ⟨.then, v⟩ :: ys) bad := by
  unfold guard?
  refine (skipIf_other (by simp [h])).bind ?_
  rintro _ _ ⟨rfl, rfl⟩
  exact ⟨rfl, h⟩

include hread in
/-- A guard of the grammar is read, unless its comprehension exceeds a limit. -/
theorem guard?_present {t g : Expr} (s : Stream) {v : String} {xs ys : List Symbol}
    (h : s.symbols = ⟨.when, v⟩ :: xs) (hg : sub 0 xs g ys) (hpart : g ∈ t.children) :
    Holds (guard? read s) (fun g' s' => g'.map bare = some g ∧ s'.symbols = ys)
      (Exceeded input.limits enough t) := by
  unfold guard?
  refine (skipIf_cons h).bind ?_
  rintro _ s₁ ⟨rfl, rfl⟩
  refine (read_part hread hg hpart).bind ?_
  rintro g' s₂ ⟨rfl, rfl⟩
  exact ⟨rfl, rfl⟩

include hread in
/-- A comprehension is read if its guard is, be there one or not. -/
theorem comprehension_complete (keyword : Token) (s : Stream) {i b : Expr} {g : Option Expr}
    {x v w : String} {xs ys zs rest : List Symbol}
    (hs : s.symbols = ⟨.identifier, x⟩ :: ⟨.in, v⟩ :: xs) (hi : sub 0 xs i ys)
    (hguard : ∀ s' : Stream, s'.symbols = ys → Holds (guard? read s')
      (fun g' s'' => g'.map bare = g ∧ s''.symbols = ⟨.then, w⟩ :: zs)
      (Exceeded input.limits enough (.comprehension .none x i g b)))
    (hb : sub 0 zs b rest) :
    Holds (comprehension input read keyword s)
      (fun t' s' => t'.bare = .comprehension .none x i g b ∧ s'.symbols = rest)
      (Exceeded input.limits enough (.comprehension .none x i g b)) := by
  unfold comprehension
  refine (consume_complete hs).bind ?_
  rintro binder s₁ ⟨hbinder, hs₁⟩
  refine (consume_complete hs₁).bind ?_
  rintro _ s₂ ⟨-, rfl⟩
  refine (read_part hread hi (by cases g <;> simp [children])).bind ?_
  rintro i' s₃ ⟨rfl, hs₃⟩
  refine (hguard s₃ hs₃).bind ?_
  rintro g' s₄ ⟨rfl, hs₄⟩
  refine (consume_complete hs₄).bind ?_
  rintro _ s₅ ⟨-, rfl⟩
  refine (read_part hread hb (by cases g' <;> simp [children])).bind ?_
  rintro b' s₆ ⟨rfl, rfl⟩
  refine ⟨?_, rfl⟩
  cases g' with
  | none => rw [bare, hbinder, Option.map_none]
  | some g' => rw [bare, hbinder, Option.map_some]

include hsub hopens hread in
/-- A call of the grammar is read, unless it exceeds a limit. -/
theorem call_complete (name : Token) (s : Stream) {w : String} {ts : List Expr}
    {xs ys : List Symbol} (hs : s.symbols = ⟨.leftParen, w⟩ :: xs)
    (hts : Items sub .rightParen xs ts ys) :
    Holds (nameOrCall input read name s)
      (fun t' s' => t'.bare = .call .none name.value ts ∧ s'.symbols = ys)
      (Exceeded input.limits enough (.call .none name.value ts)) := by
  unfold nameOrCall
  refine (skipIf_cons hs).bind ?_
  rintro _ s₁ ⟨rfl, rfl⟩
  refine (elements_complete hsub hopens hread (.inl rfl) _ s₁ hts
    fun _ ht _ h => h.of_part (t := .call .none _ _) ht).bind ?_
  rintro ts' s₂ ⟨rfl, rfl⟩
  refine (demand_list fun hlist => by simpa [ListWithin] using hlist).bind ?_
  rintro _ _ rfl
  exact ⟨by simp [bare], rfl⟩

/-- An identifier with no argument list behind it is read as a name. -/
theorem name_complete {bad : Failure → Prop} (name : Token) (s : Stream)
    (hno : NoArguments s.symbols) :
    Holds (nameOrCall input read name s)
      (fun t' s' => t'.bare = .identifier .none name.value ∧ s'.symbols = s.symbols) bad := by
  unfold nameOrCall
  refine (skipIf_other ?_).bind ?_
  · intro v ys hys
    rw [hys] at hno
    exact hno rfl
  · rintro _ _ ⟨rfl, rfl⟩
    exact ⟨rfl, rfl⟩

include hsub hopens hread in
/-- A term at the front of the stream is what `operand` returns. -/
theorem operand_complete (s : Stream) {t : Expr} {ys : List Symbol}
    (h : Term sub s.symbols t ys) :
    Holds (operand input read s) (fun t' s' => t'.bare = t ∧ s'.symbols = ys)
      (Exceeded input.limits enough t) := by
  unfold operand
  generalize hxs : s.symbols = xs at h
  obtain ⟨x, rest, rfl⟩ := List.exists_cons_of_length_pos
    (Nat.zero_lt_of_lt (h.behind hsub).length_lt)
  refine (peek_cons hxs).bind ?_
  rintro token s₀ ⟨rfl, htoken⟩
  have hadvance : ∀ {bad : Failure → Prop},
      Holds (advance s₀) (fun _ s' => s'.symbols = rest) bad := advance_holds hxs
  have hkind : token.kind = x.kind := congrArg Symbol.kind htoken
  have hvalue : token.value = x.value := congrArg Symbol.value htoken
  rw [hkind]
  -- Each rule for terms fixes the kind of the first symbol, and with it the branch that is taken.
  cases h with
  | truth =>
    refine hadvance.bind ?_
    rintro _ s₁ rfl
    exact ⟨rfl, rfl⟩
  | falsehood =>
    refine hadvance.bind ?_
    rintro _ s₁ rfl
    exact ⟨rfl, rfl⟩
  | string =>
    refine hadvance.bind ?_
    rintro _ s₁ rfl
    exact ⟨by rw [bare, hvalue], rfl⟩
  | number hx =>
    refine hadvance.bind ?_
    rintro _ s₁ rfl
    rw [hvalue, hx]
    exact ⟨rfl, rfl⟩
  | @name v _ hno =>
    obtain rfl : token.value = v := hvalue
    refine hadvance.bind ?_
    rintro _ s₁ rfl
    exact name_complete token s₁ hno
  | @call v _ _ _ _ hts =>
    obtain rfl : token.value = v := hvalue
    refine hadvance.bind ?_
    intro _ s₁ hs₁
    exact call_complete hsub hopens hread token s₁ hs₁ hts
  | group ht =>
    refine hadvance.bind ?_
    rintro _ s₁ rfl
    refine (hread _ _ _ _ ht).bind ?_
    rintro t' s₂ ⟨rfl, hs₂⟩
    refine (consume_complete hs₂).bind ?_
    rintro _ s₃ ⟨-, rfl⟩
    exact ⟨rfl, rfl⟩
  | array hts =>
    refine hadvance.bind ?_
    rintro _ s₁ rfl
    refine (elements_complete hsub hopens hread (.inr rfl) _ s₁ hts
      fun _ ht _ h => h.of_part (t := .array .none _) ht).bind ?_
    rintro ts' s₂ ⟨rfl, rfl⟩
    refine (demand_list fun hlist => by simpa [ListWithin] using hlist).bind ?_
    rintro _ _ rfl
    exact ⟨by simp [bare], rfl⟩
  | negate ht =>
    refine hadvance.bind ?_
    rintro _ s₁ rfl
    refine (read_part hread ht (by simp [children])).bind ?_
    rintro t' s₂ ⟨rfl, rfl⟩
    exact ⟨rfl, rfl⟩
  | not ht =>
    refine hadvance.bind ?_
    rintro _ s₁ rfl
    refine (read_part hread ht (by simp [children])).bind ?_
    rintro t' s₂ ⟨rfl, rfl⟩
    exact ⟨rfl, rfl⟩
  | conditional hc ha hb =>
    refine hadvance.bind ?_
    rintro _ s₁ rfl
    exact conditional_complete hread token s₁ hc ha hb
  | comprehension hi hb =>
    refine hadvance.bind ?_
    intro _ s₁ hs₁
    exact comprehension_complete hread token s₁ hs₁ hi (fun s' hs' => guard?_absent s' hs') hb
  | guarded hi hg hb =>
    refine hadvance.bind ?_
    intro _ s₁ hs₁
    exact comprehension_complete hread token s₁ hs₁ hi
      (fun s' hs' => guard?_present hread s' hs' hg (by simp [children])) hb

include hread in
/-- The extension at the front of the stream is what `extend` returns. -/
theorem extend_complete {minimum : Nat} {left t : Expr} {token : Token} {extension : Extension}
    (hkind : token.kind.extension? = some extension) (s : Stream) {ys : List Symbol}
    (h : Extends sub minimum token.kind left.bare s.symbols t ys) :
    Holds (extend input read left token extension s) (fun t' s' => t'.bare = t ∧ s'.symbols = ys)
      (Exceeded input.limits enough t) := by
  generalize htoken : token.kind = kind at h hkind
  generalize hleft : left.bare = start at h
  cases h with
  | index _ hi =>
    obtain rfl := Option.some.inj hkind
    refine (read_part hread hi (by simp [children])).bind ?_
    rintro i' s₁ ⟨rfl, hs₁⟩
    refine (consume_complete hs₁).bind ?_
    rintro _ s₂ ⟨-, rfl⟩
    exact ⟨by rw [bare, hleft], rfl⟩
  | power _ hright =>
    obtain rfl := Option.some.inj hkind
    refine (read_part hread hright (by simp [children])).bind ?_
    rintro right' s₁ ⟨rfl, rfl⟩
    exact ⟨by rw [bare, hleft], rfl⟩
  | @binary operator _ _ _ _ _ hoperator hpower _ hright =>
    have hstart : kind.extension? = some (.binary operator) :=
      TokenKind.extension?_eq_some_iff.mpr hoperator
    obtain rfl := Option.some.inj (hstart.symm.trans hkind)
    -- The power, which alone groups from the right, has a rule of its own.
    have hminimum : (if operator.isRightAssociative then operator.precedence
        else operator.precedence + 1) = operator.precedence + 1 := by
      simp [BinaryOp.isRightAssociative_of_ne hpower]
    rw [← hminimum] at hright
    refine (read_part hread hright (by simp [children])).bind ?_
    rintro right' s₁ ⟨rfl, rfl⟩
    exact ⟨by rw [bare, hleft], rfl⟩
  | range _ hlast =>
    obtain rfl := Option.some.inj hkind
    refine (read_part hread hlast (by simp [children])).bind ?_
    rintro last' s₁ ⟨rfl, rfl⟩
    exact ⟨by rw [bare, hleft], rfl⟩
  | inclusiveRange _ hlast =>
    obtain rfl := Option.some.inj hkind
    refine (read_part hread hlast (by simp [children])).bind ?_
    rintro last' s₁ ⟨rfl, rfl⟩
    exact ⟨by rw [bare, hleft], rfl⟩
  | ternary _ ha hb =>
    obtain rfl := Option.some.inj hkind
    refine (read_part hread ha (by simp [children])).bind ?_
    rintro a' s₁ ⟨rfl, hs₁⟩
    refine (consume_complete hs₁).bind ?_
    rintro _ s₂ ⟨-, rfl⟩
    refine (read_part hread hb (by simp [children])).bind ?_
    rintro b' s₃ ⟨rfl, rfl⟩
    exact ⟨by rw [bare, hleft], rfl⟩
  | assign _ hvalue =>
    obtain rfl := Option.some.inj hkind
    obtain ⟨span, rfl⟩ := bare_eq_identifier hleft
    refine (read_part hread hvalue (by simp [children])).bind ?_
    rintro value' s₁ ⟨rfl, rfl⟩
    exact ⟨rfl, rfl⟩

include heof hsub hread in
/-- A chain of extensions, up to where the phrase ends, is what `climb` returns. -/
theorem climb_complete {minimum : Nat} {start t : Expr} {xs ys : List Symbol}
    (h : Climbs sub minimum start xs t ys) (hends : Ends minimum ys) (count : Nat) (left : Expr)
    (s : Stream) (hleft : left.bare = start) (hs : s.symbols = xs) (hcount : xs.length ≤ count) :
    Holds (climb input read minimum count left s) (fun t' s' => t'.bare = t ∧ s'.symbols = ys)
      (Exceeded input.limits enough t) := by
  induction h generalizing count left s with
  | done =>
    cases count with
    | zero => exact ⟨hleft, hs⟩
    | succ count =>
      unfold climb
      refine (peek_holds s).bind ?_
      rintro token s₁ ⟨rfl, hnext⟩
      cases hextension : token.kind.extension? with
      | none => exact ⟨hleft, hs⟩
      | some extension =>
        -- The end token starts no extension, and any other token here has too low a level.
        have hmin : extension.precedence < minimum := by
          rcases hnext with ⟨-, rfl⟩ | ⟨zs, hzs⟩
          · rw [heof] at hextension
            simp [TokenKind.extension?] at hextension
          · rw [← hs, hzs] at hends
            refine hends _ ?_
            rw [Token.symbol, TokenKind.infixLevel?_eq, hextension]
            rfl
        simp only [hmin, ↓reduceIte]
        exact ⟨hleft, hs⟩
  | @step kind v start xs next ys t zs hext hclimbs ih =>
    obtain ⟨count, rfl⟩ : ∃ n, count = n + 1 := ⟨count - 1, by simp at hcount; omega⟩
    unfold climb
    refine (peek_cons hs).bind ?_
    rintro token s₁ ⟨rfl, htoken⟩
    obtain ⟨extension, hextension, hmin⟩ := hext.extension?
    have hkind : token.kind = kind := congrArg Symbol.kind htoken
    rw [hkind, hextension]
    simp only [Nat.not_lt.mpr hmin, ↓reduceIte]
    refine (advance_holds hs).bind ?_
    rintro _ s₂ rfl
    subst hleft hkind
    refine ((extend_complete hread hextension s₂ hext).mono (fun _ _ h => h)
      fun _ h => h.of_lists hclimbs.listsWithin).bind ?_
    rintro next' s₃ ⟨rfl, rfl⟩
    have hlength := (hext.behind hsub).length_lt
    exact ih hends count next' s₃ rfl rfl (by simp at hcount; omega)

end Completeness

variable {input : Input} (heof : input.eof.kind = .eof)

include heof in
/-- The reader of expressions with a number of levels returns every phrase of as many levels that
stands at the front of the stream, unless a limit is exceeded. -/
theorem expression_complete (levels needed : Nat) :
    Complete input.limits (needed ≤ levels) (expression input levels) (Phrase needed) := by
  induction levels generalizing needed with
  | zero =>
    intro minimum s t ys h
    cases needed with
    | zero => exact h.elim
    | succ needed => exact .inl ⟨rfl, by omega⟩
  | succ levels ih =>
    intro minimum s t ys h
    cases needed with
    | zero => exact h.elim
    | succ needed =>
      obtain ⟨⟨first, rest, hterm, hclimbs⟩, hends⟩ := h
      have hread : Complete input.limits (needed + 1 ≤ levels + 1) (expression input levels)
          (Phrase needed) := by
        rw [Nat.succ_le_succ_iff]
        exact ih needed
      unfold expression
      refine ((operand_complete (Phrase.advances needed) (Phrase.opens needed) hread s hterm).mono
        (fun _ _ h => h) fun _ h => h.of_lists hclimbs.listsWithin).bind ?_
      rintro left s₁ ⟨rfl, rfl⟩
      refine Holds.get ?_
      exact climb_complete heof (Phrase.advances needed) hread hclimbs hends _ left s₁ rfl rfl
        (Nat.le_of_eq s₁.length_symbols)

include heof in
/-- Statements are what `statements` returns, unless a limit is exceeded. -/
theorem statements_complete {levels : Nat} {xs : List Symbol} {ts : List Expr}
    (h : Statements levels xs ts) (count : Nat) (s : Stream) (hs : s.symbols = xs)
    (hcount : xs.length ≤ count) :
    Holds (statements input count s) (fun ts' _ => ts'.map bare = ts)
      (Exceeded input.limits (levels ≤ (input.limits.bound .parseDepth).toNat)
        (.program .none ts)) := by
  induction h generalizing count s with
  | @last xs t hphrase =>
    obtain ⟨x, rest, rfl⟩ := List.exists_cons_of_length_pos
      (Nat.zero_lt_of_lt (Phrase.advances _ _ _ _ _ hphrase).length_lt)
    obtain ⟨count, rfl⟩ : ∃ n, count = n + 1 := ⟨count - 1, by simp at hcount; omega⟩
    unfold statements
    refine Holds.get ?_
    obtain ⟨token, tokens, hrest, -, -⟩ := Stream.symbols_eq_cons hs
    rw [hrest]
    rw [← hs] at hphrase
    refine ((expression_complete heof _ levels _ s t [] hphrase).mono (fun _ _ h => h)
      fun _ h => h.of_part List.mem_cons_self).bind ?_
    rintro t' s₁ ⟨rfl, hs₁⟩
    refine (statements_nil count s₁ hs₁).bind ?_
    rintro _ _ rfl
    rfl
  | @more xs t ys ts hphrase hmore ih =>
    have hbehind := Phrase.advances _ _ _ _ _ hphrase
    obtain ⟨x, rest, rfl⟩ := List.exists_cons_of_length_pos (Nat.zero_lt_of_lt hbehind.length_lt)
    obtain ⟨count, rfl⟩ : ∃ n, count = n + 1 := ⟨count - 1, by simp at hcount; omega⟩
    unfold statements
    refine Holds.get ?_
    obtain ⟨token, tokens, hrest, -, -⟩ := Stream.symbols_eq_cons hs
    rw [hrest]
    rw [← hs] at hphrase
    refine ((expression_complete heof _ levels _ s t ys hphrase).mono (fun _ _ h => h)
      fun _ h => h.of_part List.mem_cons_self).bind ?_
    rintro t' s₁ ⟨rfl, rfl⟩
    have hcount₁ : s₁.symbols.length ≤ count := by
      have hlength := hbehind.length_lt
      omega
    have hlists : (Expr.program .none (t'.bare :: ts)).ListsWithin input.limits →
        (Expr.program .none ts).ListsWithin input.limits :=
      fun h => .intro trivial fun part hpart => h.part (List.mem_cons_of_mem _ hpart)
    refine ((ih count s₁ rfl hcount₁).mono (fun _ _ h => h) fun _ h => h.of_lists hlists).bind ?_
    rintro ts' s₂ rfl
    rfl

end Parser

end Formulary
