import Formulary.Proofs.LoneLexeme

/-!
# The spans of a parsed tree

Every node of a parsed tree carries the span of the text that stands for it: a name, a literal, an
operator, or the part of the source from the first token of a construct to its last.
`Expr.StandsFor` says which text a node of each kind is found at, and `Expr.Exact` that it is found
there.

The tokens of a source stand in it (`tokenize_stands`).  The parser reads them in order, so what it
has read ends where the last token read ended, and a construct that starts with a token and ends
there spans both.  Each function of the parser gives nodes at which the right text is found, as long
as the parser for subexpressions does (`Marks`); the ladder is closed by induction on its levels.
-/

set_option autoImplicit false

namespace Formulary

/-- The value that the token of a literal denotes. -/
def Token.literal? (token : Token) : Option Value :=
  match token.kind with
  | .number => (Number.read? token.value).map .number
  | .string => some (.string token.value)
  | .trueWord => some (.boolean true)
  | .falseWord => some (.boolean false)
  | _ => none

/-- A text has one token, and the token denotes a value. -/
def Denotes (limits : Limits) (text : List Char) (value : Value) : Prop :=
  ∃ token, tokenize (String.ofList text) limits = .ok [token, Cursor.eofAt text.length] ∧
    token.literal? = some value

/-- The text that stands for a node in a source. -/
def Expr.StandsFor (source : List Char) (limits : Limits) (text : List Char) : Expr → Prop
  | .program .. => text = source
  | .number _ value => Denotes limits text (.number value)
  | .string _ value => Denotes limits text (.string value)
  | .boolean _ value => Denotes limits text (.boolean value)
  | .array .. | .index .. => "[".toList <+: text ∧ "]".toList <:+ text
  | .identifier _ name => text = name.toList
  | .binary _ operator .. => text = operator.symbol.toList
  | .unary _ operator _ => text = operator.symbol.toList
  | .call _ name _ => name.toList <+: text ∧ ")".toList <:+ text
  | .assign _ name _ => name.toList <+: text
  | .conditional .. => "if".toList <+: text ∨ "?".toList <+: text
  | .comprehension .. => "for".toList <+: text
  | .range _ _ _ inclusive => text = if inclusive then "..=".toList else "..".toList
  | .foreign _ => False

/-- The span of a node is a part of the source that is not empty, and its text stands for the
node. -/
structure Expr.Exact (source : String) (limits : Limits) (node : Expr) : Prop where
  nonneg : 0 ≤ node.span.start
  lt : node.span.start < node.span.stop
  le : node.span.stop ≤ source.length
  text : node.StandsFor source.toList limits (slice source.toList node.span.start node.span.stop)

/-! ## Slices -/

/-- A slice is at the front of one that starts with it and stops later. -/
theorem slice_isPrefix_slice {text : List Char} {start stop last : Int} (hstop : stop ≤ last) :
    slice text start stop <+: slice text start last := by
  unfold slice
  exact List.take_prefix_take_left (by omega)

/-- A slice is at the end of one that stops with it and starts earlier. -/
theorem slice_isSuffix_slice {text : List Char} {first start stop : Int} (hfirst : 0 ≤ first)
    (hstart : first ≤ start) :
    slice text start stop <:+ slice text first stop := by
  unfold slice
  have hdrop : text.drop start.toNat = (text.drop first.toNat).drop (start - first).toNat := by
    rw [List.drop_drop]
    congr 1
    omega
  have htake : (stop - start).toNat = (stop - first).toNat - (start - first).toNat := by omega
  rw [hdrop, htake, ← List.drop_take]
  exact List.drop_suffix _ _

/-- The slice over a whole source is the text of the source. -/
theorem slice_whole (source : String) : slice source.toList 0 source.length = source.toList := by
  have hlength : source.toList.length ≤ ((source.length : Int) - 0).toNat := by
    rw [String.length_toList]
    omega
  exact List.take_of_length_le hlength

/-! ## Tokens in a source -/

/-- The text of a token in its source. -/
def Token.text (source : String) (token : Token) : List Char :=
  slice source.toList token.span.start token.span.stop

/-- A token stands in a source: its text is not empty, is a lexeme for it and, where it is the token
of a literal, denotes the same value by itself. -/
structure Token.Stands (source : String) (limits : Limits) (token : Token) : Prop where
  nonneg : 0 ≤ token.span.start
  lt : token.span.start < token.span.stop
  le : token.span.stop ≤ source.length
  lexeme : IsLexeme token.kind (token.text source) token.value.toList
  literal : ∀ value, token.literal? = some value → Denotes limits (token.text source) value

/-- The tokens that are always written alike, the keywords among them. -/
def fixedWords : List (TokenKind × String) :=
  fixedTexts ++ TokenKind.keywords.map Prod.swap

/-- A token is always written alike if it is in the table of texts or a keyword. -/
theorem mem_fixedWords {kind : TokenKind} {word : String} :
    (kind, word) ∈ fixedWords ↔ (kind, word) ∈ fixedTexts ∨ (word, kind) ∈ TokenKind.keywords := by
  rw [fixedWords, List.mem_append, List.mem_map]
  refine or_congr_right ⟨?_, fun h => ⟨(word, kind), h, rfl⟩⟩
  rintro ⟨⟨word', kind'⟩, h, hswap⟩
  obtain ⟨rfl, rfl⟩ := Prod.mk.inj hswap
  exact h

/-- A kind of token is always written in one way at most. -/
theorem fixedWords_unique {kind : TokenKind} {word word' : String} (h : (kind, word) ∈ fixedWords)
    (h' : (kind, word') ∈ fixedWords) : word = word' := by
  have hall : ∀ p ∈ fixedWords, ∀ q ∈ fixedWords, p.1 = q.1 → p.2 = q.2 := by decide +kernel
  exact hall _ h _ h' rfl

/-- No token of a class with many texts is always written alike. -/
theorem open_kind_not_fixed {kind : TokenKind} {word : String} (h : (kind, word) ∈ fixedWords) :
    kind ∉ [.number, .identifier, .string] := by
  have hall : ∀ p ∈ fixedWords, p.1 ∉ [TokenKind.number, .identifier, .string] := by decide +kernel
  exact hall _ h

namespace IsLexeme

variable {kind : TokenKind} {text value : List Char}

/-- The text of a token that is always written alike. -/
theorem text_of_fixed (h : IsLexeme kind text value) {word : String}
    (hword : (kind, word) ∈ fixedWords) :
    text = word.toList := by
  have hopen := open_kind_not_fixed hword
  cases h with
  | fixed hfixed => rw [fixedWords_unique hword (mem_fixedWords.mpr (.inl hfixed))]
  | keyword hkeyword => rw [fixedWords_unique hword (mem_fixedWords.mpr (.inr hkeyword))]
  | number | identifier | string => simp at hopen

/-- An identifier is written as its value. -/
theorem text_of_identifier (h : IsLexeme .identifier text value) : text = value := by
  cases h <;> rfl

/-- The text of a literal, read alone, is its token. -/
theorem alone (h : IsLexeme kind text value)
    (hkind : kind ∈ [.number, .string, .trueWord, .falseWord]) : Alone text kind value := by
  cases h with
  | fixed hfixed =>
    have hall : ∀ p ∈ fixedTexts, p.1 ∉ [TokenKind.number, .string, .trueWord, .falseWord] := by
      decide +kernel
    exact absurd hkind (hall _ hfixed)
  | number hnumeral => exact alone_numeral hnumeral
  | keyword hkeyword => exact alone_keyword hkeyword
  | identifier => simp at hkind
  | string hquote hquoted => exact alone_quoted hquote hquoted

end IsLexeme

/-- The text of a token that is always written alike is the word for its kind. -/
theorem Token.Stands.text_of_fixed {source : String} {limits : Limits} {token : Token}
    {kind : TokenKind} (h : token.Stands source limits) (hkind : token.kind = kind) (word : String)
    (hword : (kind, word) ∈ fixedWords) : token.text source = word.toList :=
  h.lexeme.text_of_fixed (hkind ▸ hword)

/-- The text of a name is its value. -/
theorem Token.Stands.text_of_name {source : String} {limits : Limits} {token : Token}
    (h : token.Stands source limits) (hkind : token.kind = .identifier) :
    token.text source = token.value.toList :=
  (hkind ▸ h.lexeme).text_of_identifier

/-- Only the tokens of literals denote values. -/
theorem Token.kind_of_literal {token : Token} {value : Value} (h : token.literal? = some value) :
    token.kind ∈ [.number, .string, .trueWord, .falseWord] := by
  unfold literal? at h
  split at h <;> simp_all

/-- How the token that starts an extension is written. -/
def Extension.word : Extension → String
  | .index => "["
  | .assign => "="
  | .ternary => "?"
  | .range inclusive => if inclusive then "..=" else ".."
  | .binary operator => operator.symbol

/-- The token that starts an extension is always written alike. -/
theorem TokenKind.word_of_extension {kind : TokenKind} {extension : Extension}
    (h : kind.extension? = some extension) : (kind, extension.word) ∈ fixedWords := by
  cases kind <;> cases h <;> decide

namespace Cursor

/-- What the cursor yields within limits is no string over its limit. -/
theorem next_string_le {limits : Limits} {c after : Cursor} {token : Token}
    (h : c.next limits = (.ok token, after)) (hkind : token.kind = .string) :
    (token.value.length : Int) ≤ limits.bound .stringLength := by
  unfold next at h
  cases hrest : c.skip.rest with
  | nil =>
    simp only [hrest, Prod.mk.injEq, Except.ok.injEq] at h
    obtain ⟨rfl, -⟩ := h
    cases hkind
  | cons first rest =>
    simp only [hrest, Prod.mk.injEq] at h
    obtain ⟨haccept, -⟩ := h
    cases hread : Lexeme.read first rest with
    | fault fault start stop used =>
      rw [hread] at haccept
      cases haccept
    | token kind value used =>
      rw [hread] at haccept
      unfold accept Limits.check at haccept
      by_cases hstring : kind = .string
      · by_cases hover : limits.bound .stringLength < value.length
        · simp [hstring, hover] at haccept
        · simp only [hstring, hover, ↓reduceIte, Except.ok.injEq] at haccept
          subst haccept
          rw [String.length_ofList]
          exact Int.not_lt.mp hover
      · simp only [hstring, ↓reduceIte, Except.ok.injEq] at haccept
        subst haccept
        exact absurd hkind hstring

/-- The strings among the tokens of a source are within their limit. -/
theorem tokens_string_le {limits : Limits} {count : Nat} {c : Cursor} {tokens : List Token}
    (h : c.tokens limits count = .ok tokens) :
    ∀ token ∈ tokens, token.kind = .string →
      (token.value.length : Int) ≤ limits.bound .stringLength := by
  induction count generalizing c tokens with
  | zero =>
    obtain rfl := Except.ok.inj h
    intro token htoken hkind
    obtain rfl := List.mem_singleton.mp htoken
    cases hkind
  | succ count ih =>
    obtain ⟨token, after, hnext, ⟨-, rfl⟩ | ⟨-, more, hmore, rfl⟩⟩ := tokens_succ_eq_ok h
    · exact List.forall_mem_singleton.mpr (next_string_le hnext)
    · exact List.forall_mem_cons.mpr ⟨next_string_le hnext, ih hmore⟩

end Cursor

/-- A source that is scanned is within its limit, and so is every string in it. -/
theorem tokenize_within {source : String} {limits : Limits} {tokens : List Token}
    (h : tokenize source limits = .ok tokens) :
    (source.length : Int) ≤ limits.bound .expressionLength ∧
    ∀ token ∈ tokens, token.kind = .string →
      (token.value.length : Int) ≤ limits.bound .stringLength := by
  obtain ⟨hlength, htokens⟩ := tokenize_eq_ok.mp h
  exact ⟨hlength, Cursor.tokens_string_le htokens⟩

/-- The tokens of a source stand in it, one behind the other. -/
theorem tokenize_stands {source : String} {limits : Limits} {tokens : List Token}
    (h : tokenize source limits = .ok tokens) :
    ∃ body, tokens = body ++ [Cursor.eofAt source.length] ∧ Partition source.toList 0 body ∧
      ∀ token ∈ body, token.Stands source limits := by
  obtain ⟨body, rfl, hcovers⟩ := tokenize_covers h
  obtain ⟨hlength, hstrings⟩ := tokenize_within h
  refine ⟨body, rfl, hcovers, fun token htoken => ?_⟩
  obtain ⟨hnonneg, hlt, hle⟩ := hcovers.bounds token htoken
  have hlexeme := hcovers.lexeme token htoken
  refine ⟨hnonneg, hlt, by rwa [String.length_toList] at hle, hlexeme, fun value hvalue => ?_⟩
  have htext : ((token.text source).length : Int) ≤ limits.bound .expressionLength := by
    have hslice : (token.text source).length ≤ source.toList.length :=
      (List.length_take_le' _ _).trans (by rw [List.length_drop]; omega)
    rw [String.length_toList] at hslice
    omega
  have hstring := hstrings token (List.mem_append_left _ htoken)
  rw [← String.length_toList] at hstring
  refine ⟨_, tokenize_alone (hlexeme.alone (Token.kind_of_literal hvalue)) htext hstring, ?_⟩
  rw [String.ofList_toList]
  exact hvalue

/-! ## The parser -/

namespace Parser

/-- What is ahead lies in the source behind what has been read, and every token of it stands
there. -/
structure Stream.Placed (s : Stream) (input : Input) : Prop where
  within : s.Within input
  stands : ∀ token ∈ s.rest, token.Stands input.source input.limits

/-- A stream from which something has been read. -/
structure Stream.Further (s : Stream) (input : Input) (s' : Stream) : Prop where
  placed : s'.Placed input
  le : s.lastStop ≤ s'.lastStop

/-- A stream from which a token has been read. -/
structure Stream.Past (s : Stream) (input : Input) (token : Token) (s' : Stream) : Prop where
  placed : s'.Placed input
  stands : token.Stands input.source input.limits
  start : s.lastStop ≤ token.span.start
  stop : s'.lastStop = token.span.stop

namespace Stream

variable {input : Input} {s s' s'' : Stream}

/-- A stream from which nothing has been read is further than itself. -/
theorem Further.refl (h : s.Placed input) : s.Further input s :=
  ⟨h, Int.le_refl _⟩

/-- What is read from a stream further on is read from the stream before. -/
theorem Further.trans (h : s.Further input s') (h' : s'.Further input s'') : s.Further input s'' :=
  ⟨h'.placed, Int.le_trans h.le h'.le⟩

/-- A stream from which a token has been read is further on. -/
theorem Past.further {token : Token} (h : s.Past input token s') : s.Further input s' := by
  refine ⟨h.placed, ?_⟩
  have hstart := h.start
  have hlt := h.stands.lt
  rw [h.stop]
  omega

end Stream

/-- A tree that has been read: the right text is found at every node, and the node at its root ends
in what has been read. -/
structure Marked (input : Input) (t : Expr) (s : Stream) : Prop where
  exact : t.Everywhere (Expr.Exact input.source input.limits)
  stop : t.span.stop ≤ s.lastStop

/-- A marked tree stays marked as reading goes on. -/
theorem Marked.further {input : Input} {t : Expr} {s s' : Stream} (h : Marked input t s)
    (hs : s.Further input s') : Marked input t s' :=
  ⟨h.exact, Int.le_trans h.stop hs.le⟩

/-- A node with marked parts is marked if it spans a part of the source that stands for it. -/
theorem Marked.node {input : Input} {t : Expr} {s : Stream} {start stop : Int} (hs : s.Placed input)
    (hspan : t.span = ⟨start, stop⟩) (hnonneg : 0 ≤ start) (hlt : start < stop)
    (hle : stop ≤ s.lastStop)
    (htext : t.StandsFor input.source.toList input.limits (slice input.source.toList start stop))
    (hparts : ∀ part ∈ t.children, part.Everywhere (Expr.Exact input.source input.limits)) :
    Marked input t s := by
  have hend := hs.within.inOrder.position_le
  refine ⟨(Expr.everywhere_iff t).mpr ⟨⟨?_, ?_, ?_, ?_⟩, hparts⟩, ?_⟩ <;> rw [hspan] <;> dsimp only
  · exact hnonneg
  · exact hlt
  · exact Int.le_trans hle hend
  · exact htext
  · exact hle

section Steps

variable {input : Input} {s s' : Stream} {token : Token}

/-- A node that spans one token. -/
theorem Marked.of_token (hstands : token.Stands input.source input.limits) (hs : s.Placed input)
    (hle : token.span.stop ≤ s.lastStop) {t : Expr} (hspan : t.span = token.span)
    (htext : t.StandsFor input.source.toList input.limits (token.text input.source))
    (hparts : ∀ part ∈ t.children, part.Everywhere (Expr.Exact input.source input.limits)) :
    Marked input t s :=
  .node hs hspan hstands.nonneg hstands.lt hle htext hparts

/-- A node that spans what has been read from a token on. -/
theorem Marked.from_token (hstands : token.Stands input.source input.limits) (hs : s.Placed input)
    (hle : token.span.stop ≤ s.lastStop) {t : Expr}
    (hspan : t.span = ⟨token.span.start, s.lastStop⟩)
    (htext : ∀ text, token.text input.source <+: text →
      t.StandsFor input.source.toList input.limits text)
    (hparts : ∀ part ∈ t.children, part.Everywhere (Expr.Exact input.source input.limits)) :
    Marked input t s := by
  have hlt := hstands.lt
  exact .node hs hspan hstands.nonneg (by omega) (Int.le_refl _)
    (htext _ (slice_isPrefix_slice hle)) hparts

/-- A node that spans what has been read from a token on, another token being the last one read. -/
theorem Marked.between {closing : Token} (hstands : token.Stands input.source input.limits)
    (hle : token.span.stop ≤ s.lastStop) (hpast : s.Past input closing s') {t : Expr}
    (hspan : t.span = ⟨token.span.start, closing.span.stop⟩)
    (htext : ∀ text, token.text input.source <+: text → closing.text input.source <:+ text →
      t.StandsFor input.source.toList input.limits text)
    (hparts : ∀ part ∈ t.children, part.Everywhere (Expr.Exact input.source input.limits)) :
    Marked input t s' := by
  have hlt := hstands.lt
  have hstart := hpast.start
  have hclosing := hpast.stands.lt
  have hfront : token.text input.source <+: slice input.source.toList token.span.start
      closing.span.stop :=
    slice_isPrefix_slice (by omega)
  have hback : closing.text input.source <:+ slice input.source.toList token.span.start
      closing.span.stop :=
    slice_isSuffix_slice hstands.nonneg (by omega)
  exact .node hpast.placed hspan hstands.nonneg (by omega) (Int.le_of_eq hpast.stop.symm)
    (htext _ hfront hback) hparts

/-- Looking ahead leaves the stream as it is; a token that is not the end token can be read. -/
theorem peek_placed (hinput : input.EndsSource) (hs : s.Placed input) :
    Holds (peek input s)
      (fun token s' => s' = s ∧ (token.kind ≠ .eof → ∃ rest, s.rest = token :: rest))
        fun _ => True := by
  refine (peek_within hinput hs.within).mono ?_ fun _ h => h
  rintro token s' ⟨hsame, -, -, -, hmore⟩
  exact ⟨hsame, hmore⟩

/-- Advancing reads the token that comes next. -/
theorem advance_past (hs : s.Placed input) {rest : List Token} (hrest : s.rest = token :: rest) :
    Holds (advance s) (fun _ s' => s.Past input token s') fun _ => True := by
  obtain ⟨tokens, lastStop⟩ := s
  obtain rfl : tokens = token :: rest := hrest
  obtain ⟨⟨hnonneg, hstart, hstop, hbehind⟩, hstands⟩ := hs
  obtain ⟨htoken, hstands⟩ := List.forall_mem_cons.mp hstands
  have hpast : 0 ≤ token.span.stop := Int.le_trans htoken.nonneg hstop
  exact ⟨⟨⟨hpast, hbehind⟩, hstands⟩, htoken, hstart, rfl⟩

/-- Going past a token that has been seen ahead. -/
theorem advance_then {α : Type} {k : Unit → Reader α} {good : α → Stream → Prop}
    (hs : s.Placed input) (hmore : token.kind ≠ .eof → ∃ rest, s.rest = token :: rest)
    (hkind : token.kind ≠ .eof) (h : ∀ s', s.Past input token s' →
      Holds (k () s') good fun _ => True) :
    Holds ((advance >>= k) s) good fun _ => True := by
  obtain ⟨rest, hrest⟩ := hmore hkind
  exact (advance_past hs hrest).bind fun _ s' hs' => h s' hs'

/-- Skipping a token of a kind goes further. -/
theorem skipIf_further (hs : s.Placed input) (kind : TokenKind) :
    Holds (skipIf kind s) (fun _ s' => s.Further input s') fun _ => True := by
  unfold skipIf
  refine Holds.get ?_
  cases hrest : s.rest with
  | nil => exact .refl hs
  | cons token rest =>
    by_cases hkind : token.kind = kind
    · simp only [hkind, ↓reduceIte]
      refine (advance_past hs hrest).bind ?_
      intro _ s' hs'
      exact hs'.further
    · simp only [hkind, ↓reduceIte]
      exact .refl hs

/-- Consuming a token reads one of the kind that is asked for. -/
theorem consume_past (hinput : input.EndsSource) (hs : s.Placed input) {kind : TokenKind}
    (hkind : kind ≠ .eof) (expectation : Expectation) :
    Holds (consume input kind expectation s) (fun token s' => token.kind = kind ∧
      s.Past input token s')
      fun _ => True := by
  unfold consume
  refine (peek_placed hinput hs).bind ?_
  rintro token _ ⟨rfl, hmore⟩
  by_cases htoken : token.kind = kind
  · simp only [htoken, ↓reduceIte]
    exact advance_then hs hmore (by rwa [htoken]) fun s' hs' => ⟨htoken, hs'⟩
  · simp only [htoken, ↓reduceIte]
    exact trivial

/-- A demand of a limit reads nothing. -/
theorem demand_same (limits : Limits) (kind : LimitKind) (amount : Nat) :
    Holds (demand limits kind amount s) (fun _ s' => s' = s) fun _ => True :=
  demand_complete.mono (fun _ _ h => h) fun _ _ => trivial

end Steps

/-- If reading from a stream gives a tree, the tree is marked, and the stream further on. -/
def Brings (input : Input) (s : Stream) (result : Except Failure (Expr × Stream)) : Prop :=
  Holds result (fun t s' => s.Further input s' ∧ Marked input t s') fun _ => True

/-- What is brought by reading from further on is brought by reading from here. -/
theorem Brings.after {input : Input} {s s' : Stream} {result : Except Failure (Expr × Stream)}
    (h : Brings input s' result) (hs : s.Further input s') : Brings input s result :=
  h.mono (fun _ _ ht => ⟨hs.trans ht.1, ht.2⟩) fun _ _ => trivial

/-- A reader of trees that gives marked ones. -/
def Marks (input : Input) (read : Nat → Reader Expr) : Prop :=
  ∀ minimum s, s.Placed input → Brings input s (read minimum s)

section Constructs

variable {input : Input} (hinput : input.EndsSource) {read : Nat → Reader Expr}
  (hread : Marks input read) {s : Stream}

include hread in
/-- The elements in the rest of a list have the right text at every node. -/
theorem moreElements_marked (count : Nat) (hs : s.Placed input) :
    Holds (moreElements read count s)
      (fun ts s' => s.Further input s' ∧
        ∀ t ∈ ts, t.Everywhere (Expr.Exact input.source input.limits)) fun _ => True := by
  induction count generalizing s with
  | zero => exact ⟨.refl hs, by simp⟩
  | succ count ih =>
    unfold moreElements
    refine (skipIf_further hs .comma).bind ?_
    intro found s₁ h₁
    cases found with
    | false => exact ⟨h₁, by simp⟩
    | true =>
      refine (hread _ s₁ h₁.placed).bind ?_
      rintro t s₂ ⟨h₂, ht⟩
      refine (ih h₂.placed).bind ?_
      rintro ts s₃ ⟨h₃, hts⟩
      exact ⟨(h₁.trans h₂).trans h₃, List.forall_mem_cons.mpr ⟨ht.exact, hts⟩⟩

include hinput hread in
/-- The last token read is the closing one. -/
theorem elements_marked {closing : TokenKind} (hclosing : closing ≠ .eof)
    (expectation : Expectation) (hs : s.Placed input) :
    Holds (elements input read closing expectation s)
      (fun ts s' => (∀ t ∈ ts, t.Everywhere (Expr.Exact input.source input.limits)) ∧
        ∃ s₁ token, s.Further input s₁ ∧ token.kind = closing ∧ s₁.Past input token s')
      fun _ => True := by
  unfold elements
  refine (peek_placed hinput hs).bind ?_
  rintro token _ ⟨rfl, hmore⟩
  by_cases htoken : token.kind = closing
  · simp only [htoken, ↓reduceIte]
    refine advance_then hs hmore (by rwa [htoken]) fun s₁ h₁ => ?_
    exact ⟨by simp, _, token, .refl hs, htoken, h₁⟩
  · simp only [htoken, ↓reduceIte]
    refine (hread _ _ hs).bind ?_
    rintro t s₁ ⟨h₁, ht⟩
    refine Holds.get ?_
    refine (moreElements_marked hread _ h₁.placed).bind ?_
    rintro ts s₂ ⟨h₂, hts⟩
    refine (consume_past hinput h₂.placed hclosing expectation).bind ?_
    rintro last s₃ ⟨hlast, h₃⟩
    exact ⟨List.forall_mem_cons.mpr ⟨ht.exact, hts⟩, s₂, last, h₁.trans h₂, hlast, h₃⟩

include hinput hread in
/-- Reading a conditional brings a marked tree. -/
theorem conditional_marked {keyword : Token} (hs : s.Placed input)
    (hkeyword : keyword.Stands input.source input.limits) (hkind : keyword.kind = .if)
    (hstop : keyword.span.stop ≤ s.lastStop) :
    Brings input s (conditional input read keyword s) := by
  unfold conditional
  refine (hread _ _ hs).bind ?_
  rintro condition s₁ ⟨h₁, hcondition⟩
  refine (consume_past hinput h₁.placed (by decide) _).bind ?_
  rintro _ s₂ ⟨-, h₂⟩
  refine (hread _ _ h₂.placed).bind ?_
  rintro consequent s₃ ⟨h₃, hconsequent⟩
  refine (consume_past hinput h₃.placed (by decide) _).bind ?_
  rintro _ s₄ ⟨-, h₄⟩
  refine (hread _ _ h₄.placed).bind ?_
  rintro alternate s₅ ⟨h₅, halternate⟩
  have hs₅ := (((h₁.trans h₂.further).trans h₃).trans h₄.further).trans h₅
  refine Holds.get ⟨hs₅, .from_token hkeyword hs₅.placed (Int.le_trans hstop hs₅.le) rfl ?_ ?_⟩
  · rw [hkeyword.text_of_fixed hkind "if" (by decide)]
    exact fun text htext => .inl htext
  · simp [Expr.children, hcondition.exact, hconsequent.exact, halternate.exact]

include hread in
/-- A guard has the right text at every node. -/
theorem guard_marked (hs : s.Placed input) :
    Holds (guard? read s)
      (fun guard s' => s.Further input s' ∧
        ∀ t ∈ guard, t.Everywhere (Expr.Exact input.source input.limits)) fun _ => True := by
  unfold guard?
  refine (skipIf_further hs .when).bind ?_
  intro found s₁ h₁
  cases found with
  | false => exact ⟨h₁, by simp⟩
  | true =>
    refine (hread _ _ h₁.placed).bind ?_
    rintro t s₂ ⟨h₂, ht⟩
    refine ⟨h₁.trans h₂, ?_⟩
    rintro t' ⟨⟩
    exact ht.exact

include hinput hread in
/-- Reading a comprehension brings a marked tree. -/
theorem comprehension_marked {keyword : Token} (hs : s.Placed input)
    (hkeyword : keyword.Stands input.source input.limits) (hkind : keyword.kind = .for)
    (hstop : keyword.span.stop ≤ s.lastStop) :
    Brings input s (comprehension input read keyword s) := by
  unfold comprehension
  refine (consume_past hinput hs (by decide) _).bind ?_
  rintro binder s₁ ⟨-, h₁⟩
  refine (consume_past hinput h₁.placed (by decide) _).bind ?_
  rintro _ s₂ ⟨-, h₂⟩
  refine (hread _ _ h₂.placed).bind ?_
  rintro iterable s₃ ⟨h₃, hiterable⟩
  refine (guard_marked hread h₃.placed).bind ?_
  rintro guard s₄ ⟨h₄, hguard⟩
  refine (consume_past hinput h₄.placed (by decide) _).bind ?_
  rintro _ s₅ ⟨-, h₅⟩
  refine (hread _ _ h₅.placed).bind ?_
  rintro body s₆ ⟨h₆, hbody⟩
  have hs₆ := ((((h₁.further.trans h₂.further).trans h₃).trans h₄).trans h₅.further).trans h₆
  refine Holds.get ⟨hs₆, .from_token hkeyword hs₆.placed (Int.le_trans hstop hs₆.le) rfl ?_ ?_⟩
  · rw [hkeyword.text_of_fixed hkind "for" (by decide)]
    exact fun text htext => htext
  · simp only [Expr.children, List.cons_append, List.mem_cons, List.mem_append, Option.mem_toList,
      List.not_mem_nil, or_false]
    rintro part (rfl | hpart | rfl)
    · exact hiterable.exact
    · exact hguard part hpart
    · exact hbody.exact

include hinput hread in
/-- Reading a name or a call brings a marked tree. -/
theorem nameOrCall_marked {name : Token} (hs : s.Placed input)
    (hname : name.Stands input.source input.limits) (hkind : name.kind = .identifier)
    (hstop : name.span.stop ≤ s.lastStop) :
    Brings input s (nameOrCall input read name s) := by
  have htext := hname.text_of_name hkind
  unfold nameOrCall
  refine (skipIf_further hs .leftParen).bind ?_
  intro found s₁ h₁
  have hstop₁ := Int.le_trans hstop h₁.le
  cases found with
  | false => exact ⟨h₁, .of_token hname h₁.placed hstop₁ rfl htext (by simp [Expr.children])⟩
  | true =>
    refine (elements_marked hinput hread (by decide) _ h₁.placed).bind ?_
    rintro arguments s₂ ⟨harguments, s', closing, h', hclosing, h₂⟩
    refine (demand_same _ _ _).bind ?_
    rintro _ _ rfl
    have hs₂ := (h₁.trans h').trans h₂.further
    refine Holds.get ⟨hs₂, .between hname (Int.le_trans hstop₁ h'.le) h₂
      (by rw [← h₂.stop]; rfl) ?_ harguments⟩
    rw [htext, h₂.stands.text_of_fixed hclosing ")" (by decide)]
    exact fun text hfront hback => ⟨hfront, hback⟩

include hinput hread in
/-- An operand spans the token ahead, or what is read from it on; in parentheses it keeps the span
that it has without them. -/
theorem operand_marked (hs : s.Placed input) :
    Brings input s (operand input read s) := by
  unfold operand
  refine (peek_placed hinput hs).bind ?_
  rintro token _ ⟨rfl, hmore⟩
  cases hkind : token.kind with
  | trueWord | falseWord | string =>
    refine advance_then hs hmore (by simp [hkind]) fun s₁ h₁ => ?_
    refine ⟨h₁.further, .of_token h₁.stands h₁.placed (Int.le_of_eq h₁.stop.symm) rfl ?_ ?_⟩
    · exact h₁.stands.literal _ (by simp [Token.literal?, hkind])
    · simp [Expr.children]
  | number =>
    refine advance_then hs hmore (by simp [hkind]) fun s₁ h₁ => ?_
    cases hvalue : Number.read? token.value with
    | none => exact trivial
    | some value =>
      refine ⟨h₁.further, .of_token h₁.stands h₁.placed (Int.le_of_eq h₁.stop.symm) rfl ?_ ?_⟩
      · exact h₁.stands.literal _ (by simp [Token.literal?, hkind, hvalue])
      · simp [Expr.children]
  | identifier =>
    refine advance_then hs hmore (by simp [hkind]) fun s₁ h₁ => ?_
    exact (nameOrCall_marked hinput hread h₁.placed h₁.stands hkind
      (Int.le_of_eq h₁.stop.symm)).after h₁.further
  | leftParen =>
    refine advance_then hs hmore (by simp [hkind]) fun s₁ h₁ => ?_
    refine (hread _ _ h₁.placed).bind ?_
    rintro inner s₂ ⟨h₂, hinner⟩
    refine (consume_past hinput h₂.placed (by decide) _).bind ?_
    rintro _ s₃ ⟨-, h₃⟩
    exact ⟨(h₁.further.trans h₂).trans h₃.further, hinner.further h₃.further⟩
  | leftBracket =>
    refine advance_then hs hmore (by simp [hkind]) fun s₁ h₁ => ?_
    refine (elements_marked hinput hread (by decide) _ h₁.placed).bind ?_
    rintro items s₂ ⟨hitems, s', closing, h', hclosing, h₂⟩
    refine (demand_same _ _ _).bind ?_
    rintro _ _ rfl
    have hs₂ := (h₁.further.trans h').trans h₂.further
    have hstop : token.span.stop ≤ s'.lastStop := h₁.stop ▸ h'.le
    refine Holds.get ⟨hs₂, .between h₁.stands hstop h₂ (by rw [← h₂.stop]; rfl) ?_ hitems⟩
    rw [h₁.stands.text_of_fixed hkind "[" (by decide), h₂.stands.text_of_fixed hclosing "]"
      (by decide)]
    exact fun text hfront hback => ⟨hfront, hback⟩
  | minus | not =>
    refine advance_then hs hmore (by simp [hkind]) fun s₁ h₁ => ?_
    refine (hread _ _ h₁.placed).bind ?_
    rintro argument s₂ ⟨h₂, hargument⟩
    refine ⟨h₁.further.trans h₂, .of_token h₁.stands h₂.placed (h₁.stop ▸ h₂.le) rfl ?_ ?_⟩
    · exact h₁.stands.text_of_fixed hkind _ (by decide)
    · simp [Expr.children, hargument.exact]
  | «if» =>
    refine advance_then hs hmore (by simp [hkind]) fun s₁ h₁ => ?_
    exact (conditional_marked hinput hread h₁.placed h₁.stands hkind
      (Int.le_of_eq h₁.stop.symm)).after h₁.further
  | «for» =>
    refine advance_then hs hmore (by simp [hkind]) fun s₁ h₁ => ?_
    exact (comprehension_marked hinput hread h₁.placed h₁.stands hkind
      (Int.le_of_eq h₁.stop.symm)).after h₁.further
  | _ => exact trivial

include hinput hread in
/-- An extension spans the token that starts it, or what is read from that token on; an assignment
what is read from its target on. -/
theorem extend_marked {left : Expr} {token : Token} {extension : Extension} (hs : s.Placed input)
    (hleft : Marked input left s) (htoken : token.Stands input.source input.limits)
    (hstop : token.span.stop = s.lastStop)
    (htext : token.text input.source = extension.word.toList) :
    Brings input s (extend input read left token extension s) := by
  cases extension with
  | index =>
    refine (hread _ _ hs).bind ?_
    rintro offset s₁ ⟨h₁, hoffset⟩
    refine (consume_past hinput h₁.placed (by decide) _).bind ?_
    rintro closing s₂ ⟨hclosing, h₂⟩
    refine ⟨h₁.trans h₂.further, .between htoken (hstop ▸ h₁.le) h₂ rfl ?_ ?_⟩
    · rw [htext, h₂.stands.text_of_fixed hclosing "]" (by decide)]
      exact fun text hfront hback => ⟨hfront, hback⟩
    · simp [Expr.children, hleft.exact, hoffset.exact]
  | assign =>
    cases left with
    | identifier span name =>
      refine (hread _ _ hs).bind ?_
      rintro value s₁ ⟨h₁, hvalue⟩
      -- Of all extensions only this one begins in front of its token, where its target stands.
      obtain ⟨hnonneg, hlt, -, hname⟩ := hleft.exact.root
      have hend : span.stop ≤ s₁.lastStop := Int.le_trans hleft.stop h₁.le
      dsimp only [Expr.span] at hnonneg hlt hname
      refine Holds.get ⟨h₁, .node h₁.placed rfl hnonneg (by omega) (Int.le_refl _) ?_ ?_⟩
      · show name.toList <+: _
        rw [← show _ = name.toList from hname]
        exact slice_isPrefix_slice hend
      · simp [Expr.children, hvalue.exact]
    | _ => exact trivial
  | ternary =>
    refine (hread _ _ hs).bind ?_
    rintro consequent s₁ ⟨h₁, hconsequent⟩
    refine (consume_past hinput h₁.placed (by decide) _).bind ?_
    rintro _ s₂ ⟨-, h₂⟩
    refine (hread _ _ h₂.placed).bind ?_
    rintro alternate s₃ ⟨h₃, halternate⟩
    have hs₃ := (h₁.trans h₂.further).trans h₃
    refine Holds.get ⟨hs₃, .from_token htoken hs₃.placed (hstop ▸ hs₃.le) rfl ?_ ?_⟩
    · rw [htext]
      exact fun text hfront => .inr hfront
    · simp [Expr.children, hleft.exact, hconsequent.exact, halternate.exact]
  | range inclusive =>
    refine (hread _ _ hs).bind ?_
    rintro right s₁ ⟨h₁, hright⟩
    refine ⟨h₁, .of_token htoken h₁.placed (hstop ▸ h₁.le) rfl ?_ ?_⟩
    · cases inclusive <;> exact htext
    · simp [Expr.children, hleft.exact, hright.exact]
  | binary operator =>
    refine (hread _ _ hs).bind ?_
    rintro right s₁ ⟨h₁, hright⟩
    refine ⟨h₁, .of_token htoken h₁.placed (hstop ▸ h₁.le) rfl htext ?_⟩
    simp [Expr.children, hleft.exact, hright.exact]

include hinput hread in
/-- Reading extensions of a marked tree brings a marked tree. -/
theorem climb_marked {minimum : Nat} (count : Nat) {left : Expr} (hs : s.Placed input)
    (hleft : Marked input left s) :
    Brings input s (climb input read minimum count left s) := by
  induction count generalizing left s with
  | zero => exact ⟨.refl hs, hleft⟩
  | succ count ih =>
    unfold climb
    refine (peek_placed hinput hs).bind ?_
    rintro token _ ⟨rfl, hmore⟩
    cases hextension : token.kind.extension? with
    | none => exact ⟨.refl hs, hleft⟩
    | some extension =>
      by_cases hmin : extension.precedence < minimum
      · simp only [hmin, ↓reduceIte]
        exact ⟨.refl hs, hleft⟩
      · simp only [hmin, ↓reduceIte]
        have hkind : token.kind ≠ .eof := by
          intro heof
          rw [heof] at hextension
          cases hextension
        refine advance_then hs hmore hkind fun s₁ h₁ => ?_
        have htext := h₁.stands.text_of_fixed rfl _ (TokenKind.word_of_extension hextension)
        refine (extend_marked hinput hread h₁.placed (hleft.further h₁.further) h₁.stands
          h₁.stop.symm htext).bind ?_
        rintro extended s₂ ⟨h₂, hextended⟩
        exact (ih h₂.placed hextended).after (h₁.further.trans h₂)

end Constructs

section Programs

variable {input : Input} (hinput : input.EndsSource) {s : Stream}

include hinput in
/-- By induction on the levels that may still be opened. -/
theorem expression_marks (levels : Nat) : Marks input (expression input levels) := by
  induction levels with
  | zero => exact fun _ _ _ => trivial
  | succ levels ih =>
    intro minimum s hs
    unfold expression
    refine (operand_marked hinput ih hs).bind ?_
    rintro left s₁ ⟨h₁, hleft⟩
    refine Holds.get ?_
    exact (climb_marked hinput ih _ h₁.placed hleft).after h₁

include hinput in
/-- Statements have the right text at every node. -/
theorem statements_marked (count : Nat) (hs : s.Placed input) :
    Holds (statements input count s)
      (fun ts _ => ∀ t ∈ ts, t.Everywhere (Expr.Exact input.source input.limits))
        fun _ => True := by
  induction count generalizing s with
  | zero => exact fun t ht => absurd ht List.not_mem_nil
  | succ count ih =>
    unfold statements
    refine Holds.get ?_
    cases s.rest with
    | nil => exact fun t ht => absurd ht List.not_mem_nil
    | cons token rest =>
      refine (expression_marks hinput _ _ s hs).bind ?_
      rintro first s₁ ⟨h₁, hfirst⟩
      refine (ih h₁.placed).bind ?_
      intro more s₂ hmore
      exact List.forall_mem_cons.mpr ⟨hfirst.exact, hmore⟩

end Programs

/-- Statements that are read from a source that is not empty make an exact tree. -/
theorem assemble_exact {source : String} {limits : Limits} {ts : List Expr}
    (hsource : 0 < source.length) (h : ∀ t ∈ ts, t.Everywhere (Expr.Exact source limits)) :
    (assemble source ts).Everywhere (Expr.Exact source limits) := by
  have hprogram : (Expr.program ⟨0, source.length⟩ ts).Everywhere (Expr.Exact source limits) := by
    refine (Expr.everywhere_iff _).mpr ⟨⟨Int.le_refl _, ?_, Int.le_refl _, slice_whole source⟩, h⟩
    exact Int.natCast_pos.mpr hsource
  match ts with
  | [single] => exact h single List.mem_cons_self
  | [] | _ :: _ :: _ => exact hprogram

/-- A tree that is within limits is returned as it is. -/
theorem eq_of_withinLimits {limits : Limits} {tree t : Expr}
    (h : withinLimits limits tree = .ok t) :
    tree = t := by
  rcases withinLimits_cases limits tree with ⟨hok, -⟩ | ⟨failure, herror, -⟩
  · exact Except.ok.inj (hok.symm.trans h)
  · cases herror.symm.trans h

/-- A parsed tree is made of the statements that the tokens of the source are read as, and it is
within limits. -/
theorem statements_of_parse {source : String} {limits : Limits} {t : Expr}
    (h : parse source limits = .ok t) :
    ∃ body ts s, tokenize source limits = .ok (body ++ [Cursor.eofAt source.length]) ∧ body ≠ [] ∧
      statements ⟨source, limits, Cursor.eofAt source.length⟩ body.length ⟨body, 0⟩ = .ok (ts, s) ∧
      t = assemble source ts ∧ withinLimits limits t = .ok t := by
  unfold parse at h
  cases htokens : tokenize source limits with
  | error e =>
    rw [htokens] at h
    cases h
  | ok tokens =>
    rw [htokens] at h
    dsimp only at h
    obtain ⟨body, rfl, hcovers⟩ := tokenize_covers htokens
    rw [parseTokens_eq rfl hcovers.ne_eof] at h
    by_cases hempty : body.isEmpty
    · rw [if_pos hempty] at h
      cases h
    · rw [if_neg hempty] at h
      cases hrun : statements ⟨source, limits, Cursor.eofAt source.length⟩ body.length
        ⟨body, 0⟩ with
      | error failure =>
        rw [hrun] at h
        cases h
      | ok result =>
        rw [hrun] at h
        obtain rfl := eq_of_withinLimits h
        exact ⟨body, result.1, result.2, rfl, by simpa using hempty, hrun, rfl, h⟩

/-- The right text is found at every node of a parsed tree. -/
theorem parse_exact {source : String} {limits : Limits} {t : Expr}
    (h : parse source limits = .ok t) :
    t.Everywhere (Expr.Exact source limits) := by
  obtain ⟨body, ts, s, htokens, hne, hrun, rfl, -⟩ := statements_of_parse h
  obtain ⟨body', hbody, hcovers, hstands⟩ := tokenize_stands htokens
  obtain rfl := List.append_cancel_right hbody
  have hbounds := hcovers.bounds
  rw [String.length_toList] at hbounds
  have hplaced : Stream.Placed ⟨body, 0⟩ ⟨source, limits, Cursor.eofAt source.length⟩ :=
    ⟨⟨Int.le_refl _, inOrder_of_partition (Int.natCast_nonneg _) hbounds hcovers.ordered⟩, hstands⟩
  have hstatements := statements_marked ⟨rfl, rfl⟩ body.length hplaced
  rw [hrun] at hstatements
  refine assemble_exact ?_ hstatements
  obtain ⟨token, htoken⟩ := List.exists_mem_of_ne_nil body hne
  obtain ⟨hnonneg, hlt, hle⟩ := hbounds token htoken
  show 0 < source.length
  omega

end Parser

/-- The span of every node of a parsed tree is a part of the source that is not empty, and what is
found there stands for the node. -/
theorem parse_spans_exact {source : String} {limits : Limits} {t : Expr}
    (h : parse source limits = .ok t) :
    ∀ node ∈ t.nodes,
      0 ≤ node.span.start ∧ node.span.start < node.span.stop ∧ node.span.stop ≤ source.length ∧
      node.StandsFor source.toList limits (slice source.toList node.span.start node.span.stop) := by
  intro node hnode
  obtain ⟨hnonneg, hlt, hle, htext⟩ := Parser.parse_exact h node hnode
  exact ⟨hnonneg, hlt, hle, htext⟩

/-- Parentheses and blanks lie outside of the spans, and the operator of a range marks it. -/
theorem parse_spans_exact_nested :
    ∃ t, parse "x = f( (a ..= 2) )[0] ? 'q\\n' : !y" .standard = .ok t ∧
      t.nodes.map Expr.span = [⟨0, 34⟩, ⟨22, 34⟩, ⟨18, 21⟩, ⟨4, 18⟩, ⟨10, 13⟩, ⟨8, 9⟩, ⟨14, 15⟩,
        ⟨19, 20⟩, ⟨24, 29⟩, ⟨32, 33⟩, ⟨33, 34⟩] ∧
      ∀ node ∈ t.nodes,
        0 ≤ node.span.start ∧ node.span.start < node.span.stop ∧
        node.span.stop ≤ "x = f( (a ..= 2) )[0] ? 'q\\n' : !y".length ∧
        node.StandsFor "x = f( (a ..= 2) )[0] ? 'q\\n' : !y".toList .standard
          (slice "x = f( (a ..= 2) )[0] ? 'q\\n' : !y".toList node.span.start node.span.stop) := by
  have hspans : (parse "x = f( (a ..= 2) )[0] ? 'q\\n' : !y" .standard).toOption.map
      (fun t => t.nodes.map Expr.span) = some [⟨0, 34⟩, ⟨22, 34⟩, ⟨18, 21⟩, ⟨4, 18⟩,
        ⟨10, 13⟩, ⟨8, 9⟩, ⟨14, 15⟩, ⟨19, 20⟩, ⟨24, 29⟩, ⟨32, 33⟩, ⟨33, 34⟩] := by decide +kernel
  cases h : parse "x = f( (a ..= 2) )[0] ? 'q\\n' : !y" .standard with
  | error failure =>
    rw [h] at hspans
    cases hspans
  | ok t =>
    rw [h] at hspans
    exact ⟨t, rfl, Option.some.inj hspans, parse_spans_exact h⟩

end Formulary
