import Formulary.Proofs.ParsedTree
import Formulary.Proofs.RoundTrip

/-!
# Printing a formula that was read, under the limits it was read with

The text of a tree that the parser has returned is a formula again.  Is it accepted under the same
limits?  Its strings, its lists, its nodes and its levels are those of the tree, so they are.  But
two limits are on the text and not on the tree: how long it is, and how many expressions it nests in
one another.  A text can be shorter and nest less than the text that is printed for it: blanks are
put around operators, and `c ? a : b`, in which the condition is not nested, is printed as `if c
then a else b`, in which it is.  So these two limits can stop the printed text.  `Expr.nesting` says
how many levels the text needs, and no other limit and no rule of the grammar stops it.

The text of a number need not be read as that very number for this: it is read as some number
(`reread`).
-/

set_option autoImplicit false

namespace Formulary

open Grammar Formulary.Expr

/-! ## The strings of a text are those of its tree -/

namespace Grammar

/-- Among symbols, the strings in front of what follows a phrase are within their limit. -/
def ShortBefore (limits : Limits) (ys xs : List Symbol) : Prop :=
  ∀ x ∈ xs, (x.kind = .string → (x.value.length : Int) ≤ limits.bound .stringLength) ∨ x ∈ ys

section ShortBefore

variable {limits : Limits} {xs ys zs : List Symbol} {x : Symbol}

/-- In front of nothing there are no strings. -/
theorem ShortBefore.refl (limits : Limits) (xs : List Symbol) : ShortBefore limits xs xs :=
  fun _ hx => .inr hx

/-- Strings in front of two phrases, one behind the other, are within their limit if they are in
each. -/
theorem ShortBefore.trans (h : ShortBefore limits zs ys) (h' : ShortBefore limits ys xs) :
    ShortBefore limits zs xs :=
  fun x hx => (h' x hx).elim .inl (h x)

/-- A symbol that is no string can be put in front. -/
theorem ShortBefore.under (h : ShortBefore limits ys xs) (hx : x.kind ≠ .string) :
    ShortBefore limits ys (x :: xs) := by
  intro y hy
  rcases List.mem_cons.mp hy with rfl | hy
  · exact .inl fun hstring => absurd hstring hx
  · exact h y hy

/-- A symbol that is no string can be passed over. -/
theorem ShortBefore.past (h : ShortBefore limits (x :: ys) xs) (hx : x.kind ≠ .string) :
    ShortBefore limits ys xs :=
  ((ShortBefore.refl limits ys).under hx).trans h

end ShortBefore

/-- The strings of a phrase are within their limit if those of its tree are. -/
def StringsOfTree (limits : Limits) (sub : Nat → Phrases) : Prop :=
  ∀ minimum xs t ys, sub minimum xs t ys → t.Everywhere (StringWithin limits) →
    ShortBefore limits ys xs

section StringsOfTree

variable {limits : Limits} {sub : Nat → Phrases} (hsub : StringsOfTree limits sub) {minimum : Nat}
  {xs ys : List Symbol} {t : Expr}
include hsub

/-- The strings of elements are within their limit if those of their trees are. -/
theorem Elements.short {ts : List Expr} (h : Elements sub xs ts ys)
    (hts : ∀ t ∈ ts, t.Everywhere (StringWithin limits)) : ShortBefore limits ys xs := by
  induction h with
  | last h => exact hsub _ _ _ _ h (hts _ List.mem_cons_self)
  | more h _ ih =>
    have hfirst := (hsub _ _ _ _ h (hts _ List.mem_cons_self)).past (by simp)
    exact (ih fun t ht => hts t (List.mem_cons_of_mem _ ht)).trans hfirst

/-- The strings of a list are within their limit if those of its elements are. -/
theorem Items.short {closing : TokenKind} (hclosing : closing ≠ .string) {ts : List Expr}
    (h : Items sub closing xs ts ys) (hts : ∀ t ∈ ts, t.Everywhere (StringWithin limits)) :
    ShortBefore limits ys xs := by
  cases h with
  | none => exact (ShortBefore.refl limits ys).under hclosing
  | some h => exact (h.short hsub hts).past hclosing

/-- The strings of a term are within their limit if those of its tree are. -/
theorem Term.short (h : Term sub xs t ys) (ht : t.Everywhere (StringWithin limits)) :
    ShortBefore limits ys xs := by
  cases h with
  | truth | falsehood | number | name => exact (ShortBefore.refl limits ys).under (by simp)
  | string =>
    intro x hx
    rcases List.mem_cons.mp hx with rfl | hx
    · exact .inl fun _ => ht.root
    · exact .inr hx
  | call h => exact ((h.short hsub (by simp) fun t => ht.part).under (by simp)).under (by simp)
  | group h => exact ((hsub _ _ _ _ h ht).past (by simp)).under (by simp)
  | array h => exact (h.short hsub (by simp) fun t => ht.part).under (by simp)
  | negate h | not h => exact (hsub _ _ _ _ h (ht.part (by simp [children]))).under (by simp)
  | conditional hc ha hb =>
    have hthen := (hsub _ _ _ _ hc (ht.part (by simp [children]))).past (by simp)
    have helse := (hsub _ _ _ _ ha (ht.part (by simp [children]))).past (by simp)
    have hrest := hsub _ _ _ _ hb (ht.part (by simp [children]))
    exact ((hrest.trans helse).trans hthen).under (by simp)
  | comprehension hi hb =>
    have hthen := (hsub _ _ _ _ hi (ht.part (by simp [children]))).past (by simp)
    have hrest := hsub _ _ _ _ hb (ht.part (by simp [children]))
    exact (((hrest.trans hthen).under (by simp)).under (by simp)).under (by simp)
  | guarded hi hg hb =>
    have hwhen := (hsub _ _ _ _ hi (ht.part (by simp [children]))).past (by simp)
    have hthen := (hsub _ _ _ _ hg (ht.part (by simp [children]))).past (by simp)
    have hrest := hsub _ _ _ _ hb (ht.part (by simp [children]))
    exact ((((hrest.trans hthen).trans hwhen).under (by simp)).under (by simp)).under (by simp)

/-- The strings of an extension are within their limit, and so are those of what is extended. -/
theorem Extends.short {kind : TokenKind} {left : Expr} (h : Extends sub minimum kind left xs t ys)
    (ht : t.Everywhere (StringWithin limits)) :
    ShortBefore limits ys xs ∧ left.Everywhere (StringWithin limits) := by
  cases h with
  | index _ h =>
    exact ⟨(hsub _ _ _ _ h (ht.part (by simp [children]))).past (by simp),
      ht.part (by simp [children])⟩
  | power _ h | binary _ _ _ h | range _ h | inclusiveRange _ h =>
    exact ⟨hsub _ _ _ _ h (ht.part (by simp [children])), ht.part (by simp [children])⟩
  | ternary _ ha hb =>
    have hcolon := (hsub _ _ _ _ ha (ht.part (by simp [children]))).past (by simp)
    exact ⟨(hsub _ _ _ _ hb (ht.part (by simp [children]))).trans hcolon,
      ht.part (by simp [children])⟩
  | assign _ h =>
    exact ⟨hsub _ _ _ _ h (ht.part (by simp [children])), (everywhere_iff _).mpr
      ⟨trivial, by simp [children]⟩⟩

/-- The strings of extensions, and those of the tree on their left, are within their limit if those
of the extended tree are. -/
theorem Climbs.short {left : Expr} (h : Climbs sub minimum left xs t ys)
    (ht : t.Everywhere (StringWithin limits)) :
    ShortBefore limits ys xs ∧ left.Everywhere (StringWithin limits) := by
  induction h with
  | done => exact ⟨.refl _ _, ht⟩
  | @step kind v left xs next ys t zs hext _ ih =>
    obtain ⟨hmore, hnext⟩ := ih ht
    obtain ⟨hfirst, hleft⟩ := hext.short hsub hnext
    have hkind : kind ≠ .string := by
      rintro rfl
      obtain ⟨extension, hextension, -⟩ := hext.extension?
      cases hextension
    exact ⟨(hmore.trans hfirst).under hkind, hleft⟩

/-- The strings of a chain are within their limit if those of its tree are. -/
theorem Chain.short (h : Chain sub minimum xs t ys) (ht : t.Everywhere (StringWithin limits)) :
    ShortBefore limits ys xs := by
  obtain ⟨first, rest, hterm, hclimbs⟩ := h
  obtain ⟨hmore, hfirst⟩ := hclimbs.short hsub ht
  exact hmore.trans (hterm.short hsub hfirst)

end StringsOfTree

/-- The strings of phrases are within their limit if those of their trees are, with however many
levels. -/
theorem Phrase.short (limits : Limits) (levels : Nat) : StringsOfTree limits (Phrase levels) := by
  induction levels with
  | zero => exact fun _ _ _ _ h => h.elim
  | succ levels ih => exact fun _ _ _ _ h => h.1.short ih

/-- Statements need at least one level. -/
theorem Statements.levels_pos {levels : Nat} {xs : List Symbol} {ts : List Expr}
    (h : Statements levels xs ts) :
    0 < levels := by
  refine Nat.pos_of_ne_zero ?_
  rintro rfl
  cases h with
  | last hphrase | more hphrase => exact hphrase

/-- The strings of statements are within their limit if those of their trees are. -/
theorem Statements.short {limits : Limits} {levels : Nat} {xs : List Symbol} {ts : List Expr}
    (h : Statements levels xs ts) (hts : ∀ t ∈ ts, t.Everywhere (StringWithin limits)) :
    ∀ x ∈ xs, x.kind = .string → (x.value.length : Int) ≤ limits.bound .stringLength := by
  have hshort : ShortBefore limits [] xs := by
    induction h with
    | last h => exact Phrase.short limits levels _ _ _ _ h (hts _ List.mem_cons_self)
    | more h _ ih =>
      have hfirst := Phrase.short limits levels _ _ _ _ h (hts _ List.mem_cons_self)
      exact (ih fun t ht => hts t (List.mem_cons_of_mem _ ht)).trans hfirst
  exact fun x hx => (hshort x hx).resolve_right List.not_mem_nil

end Grammar

/-! ## Reading with the levels that a text needs -/

/-- A text that is too long is not scanned. -/
theorem parse_of_tooLong {source : String} {limits : Limits}
    (h : limits.bound .expressionLength < (source.length : Int)) :
    parse source limits =
      .error (.error ⟨limits.exceeded .expressionLength source.length, .unknown⟩) := by
  rw [parse, tokenize_of_tooLong h]

/-- Statements within all other limits are read if there are as many levels as they need, and are
too deep otherwise. -/
theorem Parser.parse_of_needs {source : String} {limits : Limits} {body : List Token} {eof : Token}
    {levels : Nat} {ts : List Expr} (htokens : tokenize source limits = .ok (body ++ [eof]))
    (heof : eof.kind = .eof) (hscans : Scans source.toList (body.map Token.symbol))
    (hneeds : Needs levels fun k => Statements k (body.map Token.symbol) ts)
    (hlists : (Expr.program .none ts).ListsWithin limits)
    (hsize : ((Grammar.assemble ts).size : Int) ≤ limits.bound .nodeCount)
    (hdepth : ((Grammar.assemble ts).depth : Int) ≤ limits.bound .treeDepth) :
    (levels ≤ (limits.bound .parseDepth).toNat ∧ ∃ tree, parse source limits = .ok tree) ∨
      ((limits.bound .parseDepth).toNat < levels ∧
        parse source limits = .error (.error ⟨tooDeep limits, .unknown⟩)) := by
  have hne := hneeds.holds.ne_nil
  have hempty : body.isEmpty = false := by simpa using hne
  have heof' : (Input.mk source limits eof).eof.kind = .eof := heof
  have hsound := statements_sound heof' body.length ⟨body, 0⟩
    (Nat.le_of_eq (Stream.length_symbols _))
    (pending_body hscans) hne
  have hreads := statements_complete heof' hneeds.holds body.length ⟨body, 0⟩ rfl
    (Nat.le_of_eq (Stream.length_symbols ⟨body, 0⟩))
  rw [parse_eq htokens heof hscans, hempty]
  cases hrun : statements ⟨source, limits, eof⟩ body.length ⟨body, 0⟩ with
  | error failure =>
    rw [hrun] at hreads
    rcases hreads with ⟨rfl, hfew⟩ | ⟨-, hlong⟩
    · exact .inr ⟨Nat.lt_of_not_le hfew, rfl⟩
    · exact absurd hlists hlong
  | ok result =>
    obtain ⟨found, rest⟩ := result
    rw [hrun] at hsound hreads
    obtain rfl : found.map bare = ts := hreads
    refine .inl ⟨(hneeds _).mp hsound.1, ?_⟩
    rw [← bare_assemble source, size_bare] at hsize
    rw [← bare_assemble source, depth_bare] at hdepth
    rcases withinLimits_cases limits (assemble source found) with ⟨hok, -⟩ | ⟨failure, -, -, hover⟩
    · exact ⟨_, hok⟩
    · exact absurd ⟨hsize, hdepth⟩ hover

/-! ## The text of a parsed tree -/

namespace Expr

/-- The number that is read from the text of a number. -/
def reread (x : Float) : Float :=
  (Number.read? (codeStyle.text x)).getD x

/-- What the text of a tree without negative numbers and NaN is read as. -/
def reprinted : Expr → Expr :=
  spelledBy fun x => .number .none (reread x)

/-- The parts of a reprinted tree are the reprinted parts of the tree. -/
theorem children_reprinted (e : Expr) : e.reprinted.children = e.children.map reprinted := by
  cases e with
  | comprehension _ _ _ guard _ => cases guard <;> rfl
  | foreign item => cases item <;> rfl
  | program | array | call => simp [reprinted, spelledBy, children]
  | _ => rfl

/-- Reprinting keeps a node's own list within its limit. -/
theorem listWithin_reprinted {limits : Limits} (e : Expr) (h : e.ListWithin limits) :
    e.reprinted.ListWithin limits := by
  cases e with
  | array | call => simpa [reprinted, spelledBy, ListWithin] using h
  | comprehension _ _ _ guard _ => cases guard <;> trivial
  | foreign item => cases item <;> trivial
  | _ => trivial

/-- Reprinting keeps a string literal within its limit. -/
theorem stringWithin_reprinted {limits : Limits} (e : Expr) (h : e.StringWithin limits) :
    e.reprinted.StringWithin limits := by
  cases e with
  | string => exact h
  | comprehension _ _ _ guard _ => cases guard <;> trivial
  | foreign item => cases item <;> trivial
  | _ => trivial

/-- The text of a literal that is not negative is read as the number that its text denotes. -/
theorem literalReads_of_unsigned {e : Expr} (h : e.Unsigned) :
    e.LiteralReads fun x => .number .none (reread x) := by
  cases e with
  | number span value =>
    obtain ⟨hsign, hnan⟩ := h
    have hunsigned := Number.unsigned_text hsign hnan
    obtain ⟨digits, scale, hread⟩ := Number.read?_numeral hunsigned.1
    have hvalue : Number.read? (String.ofList (codeStyle.text value).toList) =
        some (reread value) := by
      rw [String.ofList_toList] at hread
      rw [String.ofList_toList, reread, hread, Option.getD_some]
    have hlevels : (Expr.number span value).nested = 0 := by simp [nested, hsign, hnan]
    rw [LiteralReads, hlevels]
    exact reads_numeral hunsigned hvalue _ _
  | _ => trivial

end Expr

/-- What holds of every node of a program holds of every node of its statements. -/
theorem Grammar.assemble_parts {P : Expr → Prop} {ts : List Expr} (h : (assemble ts).Everywhere P) :
    ∀ t ∈ ts, t.Everywhere P := by
  rcases ts with _ | ⟨single, _ | ⟨second, more⟩⟩
  · exact fun _ ht => absurd ht List.not_mem_nil
  · intro t ht
    rwa [List.mem_singleton.mp ht]
  · exact fun t ht => h.part ht

/-- A text that is not too long is read if there are as many levels as it nests expressions, and is
too deep otherwise: all else is within limits, because it is so in the tree. -/
theorem parse_render {source : String} {limits : Limits} {t : Expr}
    (h : parse source limits = .ok t) (hlength : ((String.ofList t.render).length : Int) ≤
      limits.bound .expressionLength) :
    ((t.nesting : Int) ≤ limits.bound .parseDepth ∧ ∃ found, parse (String.ofList t.render) limits =
      .ok found) ∨
      (limits.bound .parseDepth < (t.nesting : Int) ∧
        parse (String.ofList t.render) limits =
          .error (.error ⟨Parser.tooDeep limits, .unknown⟩)) := by
  obtain ⟨hformed, hunsigned⟩ := parse_wellFormed h
  obtain ⟨xs, ts, hspells, hneeds, htree⟩ :=
    statements_render (fun x => .number .none (reread x)) hformed
      (hunsigned.imp fun _ => literalReads_of_unsigned)
  change t.reprinted = assemble ts at htree
  have hstrings : (assemble ts).Everywhere (StringWithin limits) :=
    htree ▸ everywhere_map children_reprinted stringWithin_reprinted (Parser.parse_stringsWithin h)
  have hlists : (assemble ts).ListsWithin limits :=
    htree ▸ everywhere_map children_reprinted listWithin_reprinted (Parser.parse_listsWithin h)
  obtain ⟨hsize, hdepth⟩ := Parser.parse_measured h
  rw [← size_map children_reprinted, htree] at hsize
  rw [← depth_map children_reprinted, htree] at hdepth
  have hpos : 0 < t.nesting := hneeds.holds.levels_pos
  have hscans := scans_of_spells hspells
  rcases tokenize_of_scans hscans limits with ⟨body, eof, htokens, rfl, heof⟩ | ⟨e, -, -, hover⟩
  · rcases Parser.parse_of_needs htokens heof hscans hneeds (.intro trivial (assemble_parts hlists))
      hsize hdepth with
      ⟨hlevels, hread⟩ | ⟨hlevels, hdeep⟩
    · exact .inl ⟨by omega, hread⟩
    · exact .inr ⟨by omega, hdeep⟩
  · exact absurd ⟨hlength, hneeds.holds.short (assemble_parts hstrings)⟩ hover

/-- The text of a tree that the parser has returned is accepted under the same limits exactly if it
is not too long and does not nest too many expressions in one another.  Otherwise it fails by the
one limit or the other; no other limit and no rule of the grammar stops it. -/
theorem parse_reprinted {source : String} {limits : Limits} {t : Expr}
    (h : parse source limits = .ok t) :
    ∃ text, t.code = .ok text ∧
      ((∃ found, parse text limits = .ok found) ↔
        (text.length : Int) ≤ limits.bound .expressionLength ∧
        (t.nesting : Int) ≤ limits.bound .parseDepth) ∧
      (limits.bound .expressionLength < (text.length : Int) →
        parse text limits =
          .error (.error ⟨limits.exceeded .expressionLength text.length, .unknown⟩)) ∧
      ((text.length : Int) ≤ limits.bound .expressionLength → limits.bound .parseDepth <
        (t.nesting : Int) →
        parse text limits = .error (.error ⟨Parser.tooDeep limits, .unknown⟩)) := by
  refine ⟨_, code_eq (parse_wellFormed h).1, ⟨?_, ?_⟩, parse_of_tooLong, ?_⟩
  · rintro ⟨found, hfound⟩
    by_cases hlong : limits.bound .expressionLength < ((String.ofList t.render).length : Int)
    · rw [parse_of_tooLong hlong] at hfound
      cases hfound
    · rcases parse_render h (Int.not_lt.mp hlong) with ⟨hlevels, -⟩ | ⟨-, hdeep⟩
      · exact ⟨Int.not_lt.mp hlong, hlevels⟩
      · rw [hdeep] at hfound
        cases hfound
  · rintro ⟨hlength, hlevels⟩
    rcases parse_render h hlength with ⟨-, hread⟩ | ⟨hover, -⟩
    · exact hread
    · exact absurd hlevels (Int.not_le.mpr hover)
  · intro hlength hover
    rcases parse_render h hlength with ⟨hlevels, -⟩ | ⟨-, hdeep⟩
    · exact absurd hlevels (Int.not_le.mpr hover)
    · exact hdeep

/-- A text that is as long and nests as much as the limits allow; the source is shorter and nests
less. -/
theorem parse_reprinted_exactly :
    let limits := (Limits.standard.set .expressionLength 47).set .parseDepth 7
    ∃ t, parse "(x=c?'a':-y^2)([x,.5][0])" limits = .ok t ∧ t.nesting = 7 ∧
      t.code = .ok "(x = if c then \"a\" else -(y ^ 2))\n([x, 0.5][0])" ∧
      ∃ found, parse "(x = if c then \"a\" else -(y ^ 2))\n([x, 0.5][0])" limits = .ok found := by
  intro limits
  have hmeasures : (parse "(x=c?'a':-y^2)([x,.5][0])" limits).toOption.map
      (fun t => (t.code.toOption, t.nesting)) =
      some (some "(x = if c then \"a\" else -(y ^ 2))\n([x, 0.5][0])", 7) := by decide +kernel
  cases h : parse "(x=c?'a':-y^2)([x,.5][0])" limits with
  | error failure =>
    rw [h] at hmeasures
    cases hmeasures
  | ok t =>
    rw [h] at hmeasures
    obtain ⟨hcode, hnesting⟩ := Prod.mk.inj (Option.some.inj hmeasures)
    obtain ⟨text, htext, haccepted, -⟩ := parse_reprinted h
    rw [htext] at hcode
    obtain rfl := Option.some.inj hcode
    exact ⟨t, rfl, hnesting, htext, haccepted.mpr ⟨by decide, by rw [hnesting]; decide⟩⟩

/-- Blanks make `1+2` too long, and the condition of `a[b] ? c : d` is nested when it stands behind
`if`. -/
theorem parse_reprinted_stopped :
    let short := Limits.standard.set .expressionLength 3
    let flat := Limits.standard.set .parseDepth 2
    (∀ kind, 0 < short.bound kind ∧ 0 < flat.bound kind) ∧
    ((parse "1+2" short).toOption.bind (·.code.toOption) = some "1 + 2" ∧
      ∀ found, parse "1 + 2" short ≠ .ok found) ∧
    ((parse "a[b] ? c : d" flat).toOption.bind (·.code.toOption) = some "if a[b] then c else d" ∧
      ∀ found, parse "if a[b] then c else d" flat ≠ .ok found) := by
  intro short flat
  have hlong : (parse "1 + 2" short).toOption.isNone = true := by decide +kernel
  have hdeep : (parse "if a[b] then c else d" flat).toOption.isNone = true := by decide +kernel
  refine ⟨fun kind => ?_, ⟨by decide +kernel, ?_⟩, by decide +kernel, ?_⟩
  · cases kind <;> decide
  · intro found hfound
    rw [hfound] at hlong
    cases hlong
  · intro found hfound
    rw [hfound] at hdeep
    cases hdeep

end Formulary
