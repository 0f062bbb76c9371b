import Formulary.Proofs.Displacement
import Formulary.Proofs.Spans

/-!
# Other text between the tokens

What stands between the tokens of a source makes no difference, as long as it keeps them apart.
`respaced` puts the texts of tokens together again with other fillers around them: separators, and
comments that are ended.  The result has the same tokens as the source, at other places, and is read
as the same tree (`tokenize_respaced`).  A slash is special: a comment right behind it would begin
with it.

A lexeme ends where a filler begins, whichever class it belongs to (`IsLexeme.standing`).  From
there the scanner takes one step for each token (`Cursor.next_standing`), and the run is an
induction over the tokens.
-/

set_option autoImplicit false

namespace Formulary

open Formulary.Text

/-! ## Fillers -/

/-- A text that can stand between two tokens: separators, and comments up to the end of their
lines. -/
inductive Filler : List Char → Prop
  | nil : Filler []
  | separator {c gap} : isSeparator c = true → Filler gap → Filler (c :: gap)
  | comment {body newline gap} :
      (∀ c ∈ body, isNewline c = false) → isNewline newline = true → Filler gap →
      Filler ('/' :: '/' :: (body ++ newline :: gap))

/-- A comment is skipped with the line break that ends it. -/
theorem skipComment_line {body : List Char} (h : ∀ c ∈ body, isNewline c = false) {newline : Char}
    (hnewline : isNewline newline = true) (rest : List Char) :
    skipComment (body ++ newline :: rest) = skipTrivia rest := by
  induction body with
  | nil => rw [List.nil_append, skipComment, if_pos hnewline]
  | cons c body ih =>
    rw [List.cons_append, skipComment, if_neg (by simp [h c List.mem_cons_self])]
    exact ih fun d hd => h d (List.mem_cons_of_mem _ hd)

/-- A filler is skipped, whatever follows it. -/
theorem Filler.skipTrivia_append {gap : List Char} (h : Filler gap) (rest : List Char) :
    skipTrivia (gap ++ rest) = skipTrivia rest := by
  induction h with
  | nil => rfl
  | separator hc _ ih => rw [List.cons_append, skipTrivia, if_pos hc, ih]
  | @comment body newline gap hbody hnewline _ ih =>
    have hslash : skipTrivia ('/' :: '/' :: (body ++ newline :: gap) ++ rest) =
        skipComment (body ++ newline :: (gap ++ rest)) := by
      simp [skipTrivia, skipComment, isSeparator, isNewline]
    rw [hslash, skipComment_line hbody hnewline, ih]

/-- What follows a lexeme: nothing, or a text that starts like a filler. -/
def Parted (rest : List Char) : Prop :=
  rest = [] ∨ ∃ c tail, rest = c :: tail ∧ c ∈ [' ', '\t', '\n', '\r', ';', '/']

/-- Behind a filler that is not empty, a lexeme is parted from the rest. -/
theorem Filler.parted {gap : List Char} (h : Filler gap) (hne : gap ≠ []) (rest : List Char) :
    Parted (gap ++ rest) := by
  cases h with
  | nil => exact absurd rfl hne
  | @separator c gap hc _ =>
    refine .inr ⟨c, gap ++ rest, rfl, ?_⟩
    have hcases : c = ' ' ∨ c = '\t' ∨ c = '\n' ∨ c = '\r' ∨ c = ';' := by
      simpa [isSeparator, or_assoc] using hc
    rcases hcases with rfl | rfl | rfl | rfl | rfl <;> decide
  | comment => exact .inr ⟨'/', _, rfl, by decide⟩

/-! ## Lexemes in front of a filler -/

/-- A text is read as one token in front of another text. -/
def Standing (rest text : List Char) (kind : TokenKind) (value : List Char) : Prop :=
  ∃ c cs, text = c :: cs ∧ skipTrivia (text ++ rest) = text ++ rest ∧
    Lexeme.read c (cs ++ rest) = .token kind value text.length

/-- No name goes on behind a filler. -/
theorem Parted.takeWhile_isNamePart {rest : List Char} (h : Parted rest) :
    rest.takeWhile isNamePart = [] := by
  have hall : ∀ c ∈ [' ', '\t', '\n', '\r', ';', '/'], isNamePart c = false :=
    forall_mem_of_all (by decide)
  rcases h with rfl | ⟨c, tail, rfl, hc⟩
  · rfl
  · simp [hall c hc]

/-- No numeral goes on behind a filler. -/
theorem Parted.stops_numeral {rest : List Char} (h : Parted rest) :
    Lexeme.startsWithDigit rest = false ∧ Lexeme.exponentMark rest = [] ∧
      ∀ after, rest = '.' :: after → Lexeme.startsWithDigit after = false := by
  have hall : ∀ c ∈ [' ', '\t', '\n', '\r', ';', '/'],
      isAsciiDigit c = false ∧ c ≠ 'e' ∧ c ≠ 'E' ∧ c ≠ '.' :=
    forall_mem_of_all (by decide)
  rcases h with rfl | ⟨c, tail, rfl, hc⟩
  · simp [Lexeme.startsWithDigit, Lexeme.exponentMark]
  · obtain ⟨hdigit, he, hE, hpoint⟩ := hall c hc
    simp [Lexeme.startsWithDigit, Lexeme.exponentMark, hdigit, he, hE, hpoint]

/-- A lexeme that is neither skipped nor a comment stands if it is read in front of the rest. -/
theorem standing_of_read {rest : List Char} {c : Char} {cs : List Char} {kind : TokenKind}
    {value : List Char} (hseparator : isSeparator c = false) (hslash : c ≠ '/')
    (hread : Lexeme.read c (cs ++ rest) = .token kind value (cs.length + 1)) :
    Standing rest (c :: cs) kind value :=
  ⟨c, cs, rfl, skipTrivia_cons hseparator _ (.inl hslash), hread⟩

/-- A word stands in front of a filler. -/
theorem standing_word {kind : TokenKind} {word : String} (h : IsWord kind word) {rest : List Char}
    (hrest : Parted rest) : Standing rest word.toList kind word.toList := by
  obtain ⟨c, cs, htext, hc, hcs, rfl⟩ := h
  obtain ⟨hseparator, hslash⟩ := not_separator_of_isNameStart hc
  have hread := read_word hc hcs hrest.takeWhile_isNamePart
  rw [← htext, String.ofList_toList] at hread
  rw [htext] at hread ⊢
  exact standing_of_read hseparator hslash hread

/-- A numeral stands in front of a filler. -/
theorem standing_numeral {text : List Char} (h : Numeral text) {rest : List Char}
    (hrest : Parted rest) :
    Standing rest text .number text := by
  obtain ⟨c, cs, rfl, -⟩ := h.first
  obtain ⟨hseparator, hslash⟩ := h.not_separator
  obtain ⟨hdigit, hmark, hpoint⟩ := hrest.stops_numeral
  exact standing_of_read hseparator hslash (read_numeral h hdigit hmark hpoint)

/-- A text between two quotes stands in front of anything. -/
theorem standing_quoted {quote : Char} (hquote : quote = '"' ∨ quote = '\'')
    {body value : List Char} (h : Quoted quote body value) (rest : List Char) :
    Standing rest (quote :: body ++ [quote]) .string value := by
  have hread : Lexeme.read quote (body ++ [quote] ++ rest) = .token .string value
      ((body ++ [quote]).length + 1) := by
    rw [List.append_assoc, List.length_append, List.length_singleton]
    exact Lexeme.read_quoted hquote h rest
  have hfirst : isSeparator quote = false ∧
      quote ≠ '/' := by rcases hquote with rfl | rfl <;> decide
  exact standing_of_read hfirst.1 hfirst.2 hread

/-- A filler does not start with an equals sign. -/
theorem Parted.noEquals {rest : List Char} (h : Parted rest) : NoEquals rest := by
  rcases h with rfl | ⟨c, tail, rfl, hc⟩
  · simp [NoEquals]
  · simp only [NoEquals, List.head?_cons, ne_eq, Option.some.injEq]
    rintro rfl
    exact absurd hc (by decide)

/-- An operator is not continued by a filler, except that a slash is by a comment. -/
theorem standing_fixed {kind : TokenKind} {text : String} (h : (kind, text) ∈ fixedTexts)
    {rest : List Char} (hrest : Parted rest) (hslash : kind = .slash → rest.head? ≠ some '/') :
    Standing rest text.toList kind text.toList := by
  by_cases hkind : kind = .slash
  · have htext : ∀ p ∈ fixedTexts, p.1 = .slash → p.2 = "/" := by decide
    obtain rfl := htext _ h hkind
    subst hkind
    exact ⟨'/', [], rfl, skipTrivia_cons rfl rest (.inr (hslash rfl)), rfl⟩
  · have hequals := hrest.noEquals
    simp only [fixedTexts, List.mem_cons, Prod.mk.injEq, List.not_mem_nil, or_false] at h
    rcases h with ⟨rfl, rfl⟩ | ⟨rfl, rfl⟩ | ⟨rfl, rfl⟩ | ⟨rfl, rfl⟩ | ⟨rfl, rfl⟩ | ⟨rfl, rfl⟩ |
      ⟨rfl, rfl⟩ | ⟨rfl, rfl⟩ | ⟨rfl, rfl⟩ | ⟨rfl, rfl⟩ | ⟨rfl, rfl⟩ | ⟨rfl, rfl⟩ | ⟨rfl, rfl⟩ |
      ⟨rfl, rfl⟩ | ⟨rfl, rfl⟩ | ⟨rfl, rfl⟩ | ⟨rfl, rfl⟩ | ⟨rfl, rfl⟩ | ⟨rfl, rfl⟩ | ⟨rfl, rfl⟩ |
      ⟨rfl, rfl⟩ | ⟨rfl, rfl⟩ | ⟨rfl, rfl⟩ | ⟨rfl, rfl⟩ | ⟨rfl, rfl⟩
    -- Operators of one character that could go on, then two dots, then those that look at nothing
    -- behind them.
    all_goals
      first
      | exact absurd rfl hkind
      | exact @standing_of_read _ _ [] _ _ rfl (by decide) (oneOrTwo_single hequals _ _ _)
      | exact @standing_of_read _ _ ['.'] _ _ rfl (by decide) (point_dotDot hequals)
      | exact standing_of_read rfl (by decide) rfl

/-- A lexeme ends where a filler begins. -/
theorem IsLexeme.standing {kind : TokenKind} {text value : List Char} (h : IsLexeme kind text value)
    {rest : List Char} (hrest : Parted rest) (hslash : kind = .slash → rest.head? ≠ some '/') :
    Standing rest text kind value := by
  cases h with
  | fixed hfixed => exact standing_fixed hfixed hrest hslash
  | number hnumeral => exact standing_numeral hnumeral hrest
  | keyword hkeyword => exact standing_word (isWord_of_keyword hkeyword) hrest
  | identifier hname => exact standing_word (isWord_of_isName hname) hrest
  | string hquote hbody => exact standing_quoted hquote hbody rest

/-! ## The scanner -/

/-- Behind a filler the scanner takes a lexeme that stands in front of the rest. -/
theorem Cursor.next_standing {limits : Limits} {text gap lexeme rest value : List Char}
    {kind : TokenKind} {c : Cursor} (hc : c.In text) (hrest : c.rest = gap ++ (lexeme ++ rest))
    (hgap : Filler gap) (h : Standing rest lexeme kind value)
    (hstring : kind = .string → (value.length : Int) ≤ limits.bound .stringLength) :
    ∃ token after, c.next limits = (.ok token, after) ∧ token.kind ≠ .eof ∧
      token.symbol = ⟨kind, String.ofList value⟩ ∧
      slice text token.span.start token.span.stop = lexeme ∧
      after.In text ∧ after.rest = rest ∧ after.rest.length < c.rest.length := by
  obtain ⟨first, cs, rfl, hstands, hread⟩ := h
  have hfront : c.skip.rest = (first :: cs) ++ rest := by
    show skipTrivia c.rest = _
    rw [hrest, hgap.skipTrivia_append, hstands]
  have hnext := next_of_token hfront hread hstring
  have hskipped := hc.skip.1
  have hbehind : (c.skip.advance (first :: cs).length).rest = rest := by
    rw [advance, hfront, List.drop_left]
  refine ⟨_, _, hnext, (Lexeme.read_proper hread).ne_eof, rfl,
    slice_append (hskipped.rest_eq ▸ hfront), hskipped.advance ?_, hbehind, ?_⟩
  · rw [hfront, List.length_append]
    omega
  · rw [hbehind, hrest, List.length_append, List.length_append, List.length_cons]
    omega

/-- The texts of tokens, each with the text behind it. -/
def spaced (source : String) (pieces : List (Token × List Char)) : List Char :=
  pieces.flatMap fun piece => piece.1.text source ++ piece.2

/-- Tokens with fillers behind them that keep them apart: only the last filler may be empty, and
none starts with a comment right behind a slash. -/
structure KeepsApart (pieces : List (Token × List Char)) : Prop where
  filler : ∀ piece ∈ pieces, Filler piece.2
  apart : ∀ piece ∈ pieces.dropLast, piece.2 ≠ []
  slash : ∀ piece ∈ pieces, piece.1.kind = .slash → piece.2.head? ≠ some '/'

/-- Tokens that are kept apart are so without the first of them. -/
theorem KeepsApart.tail {piece : Token × List Char} {pieces : List (Token × List Char)}
    (h : KeepsApart (piece :: pieces)) : KeepsApart pieces where
  filler p hp := h.filler p (List.mem_cons_of_mem _ hp)
  apart p hp := by
    refine h.apart p ?_
    cases pieces with
    | nil => cases hp
    | cons => exact List.mem_cons_of_mem _ hp
  slash p hp := h.slash p (List.mem_cons_of_mem _ hp)

/-- What follows the first token starts like a filler, and with no comment behind a slash. -/
theorem KeepsApart.head {source : String} {piece : Token × List Char}
    {pieces : List (Token × List Char)} (h : KeepsApart (piece :: pieces)) :
    Parted (piece.2 ++ spaced source pieces) ∧
      (piece.1.kind = .slash → (piece.2 ++ spaced source pieces).head? ≠ some '/') := by
  by_cases hempty : piece.2 = []
  · cases pieces with
    | nil =>
      rw [hempty]
      exact ⟨.inl rfl, fun _ => by simp [spaced]⟩
    | cons => exact absurd hempty (h.apart piece List.mem_cons_self)
  · refine ⟨(h.filler piece List.mem_cons_self).parted hempty _, fun hkind => ?_⟩
    rw [List.head?_append_of_ne_nil _ hempty]
    exact h.slash piece List.mem_cons_self hkind

/-- Tokens of two sources with the same kind, value and text. -/
def SameLexeme (source source' : String) (token token' : Token) : Prop :=
  token.symbol = token'.symbol ∧ token.text source = token'.text source'

/-- The scanner yields the tokens again whose texts have been put together. -/
theorem Cursor.tokens_spaced {source source' : String} {limits : Limits}
    {pieces : List (Token × List Char)}
    (hlexeme : ∀ piece ∈ pieces, IsLexeme piece.1.kind (piece.1.text source) piece.1.value.toList)
    (hstring : ∀ piece ∈ pieces, piece.1.kind = .string →
      (piece.1.value.length : Int) ≤ limits.bound .stringLength)
    (hpieces : KeepsApart pieces) {gap : List Char} (hgap : Filler gap) {c : Cursor}
    (hc : c.In source'.toList) (hrest : c.rest = gap ++ spaced source pieces) {count : Nat}
    (hcount : c.rest.length ≤ count) :
    ∃ body eof, c.tokens limits count = .ok (body ++ [eof]) ∧
      List.Forall₂ (SameLexeme source source') (pieces.map Prod.fst) body := by
  induction pieces generalizing gap c count with
  | nil =>
    have hskip : skipTrivia c.rest = [] := by
      rw [hrest, hgap.skipTrivia_append]
      rfl
    cases count with
    | zero => exact ⟨[], _, rfl, .nil⟩
    | succ count =>
      obtain ⟨eof, after, hnext, heof⟩ := next_of_done limits hskip
      exact ⟨[], eof, by simp [tokens, hnext, heof], .nil⟩
  | cons piece pieces ih =>
    obtain ⟨hlexeme₁, hlexemes⟩ := List.forall_mem_cons.mp hlexeme
    obtain ⟨hstring₁, hstrings⟩ := List.forall_mem_cons.mp hstring
    obtain ⟨hparted, hslash⟩ := @hpieces.head source
    have hstanding := hlexeme₁.standing hparted hslash
    have hfront : c.rest = gap ++ (piece.1.text source ++ (piece.2 ++ spaced source pieces)) := by
      rw [hrest, spaced, List.flatMap_cons, List.append_assoc, spaced]
    rw [← String.length_toList] at hstring₁
    obtain ⟨token, after, hnext, hkind, hsymbol, htext, hafter, hbehind, hshorter⟩ :=
      next_standing hc hfront hgap hstanding hstring₁
    rw [String.ofList_toList] at hsymbol
    obtain ⟨count, rfl⟩ : ∃ n, count = n + 1 := ⟨count - 1, by omega⟩
    have hroom : after.rest.length ≤ count := by omega
    have hfiller := hpieces.filler piece List.mem_cons_self
    obtain ⟨body, eof, hbody, hsame⟩ := ih hlexemes hstrings hpieces.tail hfiller hafter
      hbehind hroom
    refine ⟨token :: body, eof, ?_, .cons ⟨hsymbol.symm, htext.symm⟩ hsame⟩
    simp only [tokens, hnext, hkind, ↓reduceIte, hbody, Except.map, List.cons_append]

/-! ## Sources -/

/-- A source with other fillers around its tokens. -/
def respaced (source : String) (front : List Char) (pieces : List (Token × List Char)) : String :=
  String.ofList (front ++ spaced source pieces)

/-- A cut with both ends inside a text is the slice between them. -/
theorem cut_eq_slice {text : List Char} {start stop : Int} (hnonneg : 0 ≤ start)
    (hle : start ≤ stop) (hstop : stop ≤ text.length) :
    cut text start (some stop) = slice text start stop := by
  have hfirst : clampOffset text.length start = start.toNat := by
    rw [clampOffset, if_neg (by omega)]
    omega
  have hlast : clampOffset text.length stop = stop.toNat := by
    rw [clampOffset, if_neg (by omega)]
    omega
  have hlength : stop.toNat - start.toNat = (stop - start).toNat := by omega
  rw [cut, hfirst, hlast, List.drop_take, hlength, slice]

/-- The text of a token in a message is its text in the source. -/
theorem Token.Stands.tokenText {source : String} {limits : Limits} {token : Token}
    (h : token.Stands source limits) :
    Parser.tokenText source token = String.ofList (token.text source) := by
  have hle : token.span.stop ≤ source.toList.length := by
    rw [String.length_toList]
    exact h.le
  have hcut : cut source.toList token.span.start (some token.span.stop) = token.text source :=
    cut_eq_slice h.nonneg (Int.le_of_lt h.lt) hle
  obtain ⟨c, cs, hcons, -⟩ := h.lexeme.standing (.inl rfl) fun _ => by simp
  rw [Parser.tokenText, hcut, hcons]

/-- The end token has no text of its own, so that its kind is named instead. -/
theorem tokenText_eofAt (source : String) :
    Parser.tokenText source (Cursor.eofAt source.length) = TokenKind.eof.name := by
  have hcut : cut source.toList source.length (some source.length) = [] := by
    rw [cut_eq_slice (Int.natCast_nonneg _) (Int.le_refl _) (by rw [String.length_toList]), slice,
      Int.sub_self]
    rfl
  rw [Parser.tokenText, Cursor.eofAt, hcut]

/-- The end tokens of two sources match. -/
theorem matches_eofAt (source source' : String) :
    Parser.Matches source source' (Cursor.eofAt source.length) (Cursor.eofAt source'.length) :=
  ⟨rfl, by rw [tokenText_eofAt, tokenText_eofAt]⟩

/-- The tokens of a source that has been spaced anew are those of the source, at other places. -/
theorem tokenize_spaced {source : String} {limits : Limits} {front : List Char}
    {pieces : List (Token × List Char)}
    (htokens : tokenize source limits = .ok (pieces.map Prod.fst ++ [Cursor.eofAt source.length]))
    (hfront : Filler front) (hpieces : KeepsApart pieces)
    (hlength : ((respaced source front pieces).length : Int) ≤ limits.bound .expressionLength) :
    ∃ body, tokenize (respaced source front pieces) limits =
        .ok (body ++ [Cursor.eofAt (respaced source front pieces).length]) ∧
      List.Forall₂ (SameLexeme source (respaced source front pieces))
        (pieces.map Prod.fst) body := by
  obtain ⟨body₀, hbody₀, hcovers, -⟩ := tokenize_stands htokens
  obtain ⟨rfl, -⟩ := List.append_inj' hbody₀ rfl
  have hlexeme : ∀ piece ∈ pieces, IsLexeme piece.1.kind (piece.1.text source)
      piece.1.value.toList :=
    fun piece hpiece => hcovers.lexeme piece.1 (List.mem_map_of_mem hpiece)
  have hstring : ∀ piece ∈ pieces, piece.1.kind = .string →
      (piece.1.value.length : Int) ≤ limits.bound .stringLength :=
    fun piece hpiece => (tokenize_within htokens).2 piece.1
      (List.mem_append_left _ (List.mem_map_of_mem hpiece))
  have htext : (respaced source front pieces).toList = front ++ spaced source pieces :=
    String.toList_ofList
  obtain ⟨body, eof, hbody, hsame⟩ :=
    @Cursor.tokens_spaced source (respaced source front pieces) limits pieces
    hlexeme hstring hpieces front hfront (.start (respaced source front pieces))
      ⟨Nat.zero_le _, rfl⟩ htext
    (respaced source front pieces).length (Nat.le_of_eq String.length_toList)
  have hspaced : tokenize (respaced source front pieces) limits = .ok (body ++ [eof]) :=
    tokenize_eq_ok.mpr ⟨hlength, hbody⟩
  obtain ⟨body', hbody', -⟩ := tokenize_covers hspaced
  obtain ⟨rfl, heof⟩ := List.append_inj' hbody' rfl
  exact ⟨body, by rw [hspaced, heof], hsame⟩

/-- Tokens with the same lexeme match, as what a parser says of them depends on the lexeme alone. -/
theorem SameLexeme.matches {source source' : String} {limits limits' : Limits}
    {token token' : Token} (h : SameLexeme source source' token token')
    (hstands : token.Stands source limits) (hstands' : token'.Stands source' limits') :
    Parser.Matches source source' token token' :=
  ⟨h.1, by rw [hstands.tokenText, hstands'.tokenText, h.2]⟩

/-- Lists of tokens with the same lexemes match. -/
theorem forall₂_matches {source source' : String} {limits limits' : Limits}
    {body body' : List Token} (h : List.Forall₂ (SameLexeme source source') body body')
    (hbody : ∀ token ∈ body, token.Stands source limits)
    (hbody' : ∀ token ∈ body', token.Stands source' limits') :
    List.Forall₂ (Parser.Matches source source') body body' := by
  induction h with
  | nil => exact .nil
  | cons htoken _ ih =>
    obtain ⟨hfirst, hrest⟩ := List.forall_mem_cons.mp hbody
    obtain ⟨hfirst', hrest'⟩ := List.forall_mem_cons.mp hbody'
    exact .cons (htoken.matches hfirst hfirst') (ih hrest hrest')

/-- Sources that have the same tokens are read alike. -/
theorem parse_of_sameLexemes {source source' : String} {limits : Limits} {body body' : List Token}
    (htokens : tokenize source limits = .ok (body ++ [Cursor.eofAt source.length]))
    (htokens' : tokenize source' limits = .ok (body' ++ [Cursor.eofAt source'.length]))
    (h : List.Forall₂ (SameLexeme source source') body body') :
    Parser.SameReading (parse source limits) (parse source' limits) := by
  obtain ⟨_, hbody, hcovers, hstands⟩ := tokenize_stands htokens
  obtain ⟨rfl, -⟩ := List.append_inj' hbody rfl
  obtain ⟨_, hbody', hcovers', hstands'⟩ := tokenize_stands htokens'
  obtain ⟨rfl, -⟩ := List.append_inj' hbody' rfl
  rw [parse, parse, htokens, htokens']
  exact Parser.parseTokens_displaced limits rfl hcovers.ne_eof hcovers'.ne_eof
    (forall₂_matches h hstands hstands')
    (matches_eofAt source source')

/-- Tokens with the same lexemes have the same symbols. -/
theorem map_symbol_of_sameLexemes {source source' : String} {body body' : List Token}
    (h : List.Forall₂ (SameLexeme source source') body body') :
    body'.map Token.symbol = body.map Token.symbol := by
  induction h with
  | nil => rfl
  | cons htoken _ ih => rw [List.map_cons, List.map_cons, htoken.1, ih]

/-- A source that has tokens is rejected by the grammar or by a limit, if at all. -/
theorem syntax_or_limit_of_parse {source : String} {limits : Limits} {tokens : List Token}
    {failure : Failure} (htokens : tokenize source limits = .ok tokens)
    (h : parse source limits = .error failure) :
    failure.IsSyntax ∨ failure.IsLimit := by
  obtain ⟨body, eof, rfl, hscans, heof⟩ := tokenize_scans htokens
  have hsound := Parser.parse_sound htokens heof hscans
  rw [h] at hsound
  exact hsound.imp_right And.left

/-- What stands between tokens makes no difference.  Fillers are put in front of the tokens of a
source and behind each of them, instead of what is there; only the last one may be empty, and no
comment comes right behind a slash.  If the text is not too long, it has tokens of the same kinds
and values.  It is read as the same tree, spans aside, or both fail for the same cause: that the
grammar does not accept them, or that a limit of the parser is exceeded. -/
theorem tokenize_respaced {source : String} {limits : Limits} {front : List Char}
    {pieces : List (Token × List Char)} {eof : Token}
    (htokens : tokenize source limits = .ok (pieces.map Prod.fst ++ [eof])) (hfront : Filler front)
    (hfillers : ∀ piece ∈ pieces, Filler piece.2) (hapart : ∀ piece ∈ pieces.dropLast, piece.2 ≠ [])
    (hslash : ∀ piece ∈ pieces, piece.1.kind = .slash → piece.2.head? ≠ some '/')
    (hlength : ((respaced source front pieces).length : Int) ≤ limits.bound .expressionLength) :
    (∃ tokens, tokenize (respaced source front pieces) limits = .ok tokens ∧
      tokens.map Token.symbol = (pieces.map Prod.fst ++ [eof]).map Token.symbol) ∧
    ((∃ t t', parse source limits = .ok t ∧ parse (respaced source front pieces) limits = .ok t' ∧
      t.bare = t'.bare) ∨ ∃ e e', parse source limits = .error (.error e) ∧
        parse (respaced source front pieces) limits = .error (.error e') ∧ e.cause = e'.cause ∧
        ((∃ fault, e.cause = .grammatical fault) ∨
          ∃ name bound amount, e.cause = .limitExceeded name bound amount)) := by
  obtain ⟨_, hbody, -⟩ := tokenize_stands htokens
  obtain ⟨-, heof⟩ := List.append_inj' hbody rfl
  obtain rfl : eof = Cursor.eofAt source.length := List.singleton_inj.mp heof
  obtain ⟨body, hspaced, hsame⟩ := tokenize_spaced htokens hfront ⟨hfillers, hapart, hslash⟩ hlength
  have hreading := parse_of_sameLexemes htokens hspaced hsame
  refine ⟨⟨_, hspaced, ?_⟩, ?_⟩
  · rw [List.map_append, List.map_append, map_symbol_of_sameLexemes hsame]
    rfl
  · cases ht : parse source limits <;> cases ht' : parse (respaced source front pieces) limits <;>
      rw [ht, ht'] at hreading
    case ok.ok t t' => exact .inl ⟨t, t', rfl, rfl, hreading⟩
    case error.error failure failure' =>
      have hcause := syntax_or_limit_of_parse htokens ht
      cases failure with
      | fault => rcases hcause with hcause | hcause <;> exact hcause.elim
      | error e =>
        cases failure' with
        | fault => exact hreading.elim
        | error e' => exact .inr ⟨e, e', rfl, rfl, hreading, hcause⟩
    all_goals exact hreading.elim

/-- A comment may stand right behind everything but a slash, from which a blank parts it here. -/
theorem tokenize_respaced_quotient :
    let source := "8 / 'a\\n'"
    let pieces : List (Token × List Char) := [(⟨.number, "8", ⟨0, 1⟩⟩, "//half\r".toList),
      (⟨.slash, "/", ⟨2, 3⟩⟩, " //c\n".toList), (⟨.string, "a\n", ⟨4, 9⟩⟩, [])]
    tokenize source .standard = .ok (pieces.map Prod.fst ++ [Cursor.eofAt 9]) ∧
    respaced source ";".toList pieces = ";8//half\r/ //c\n'a\\n'" ∧
    (∃ tokens, tokenize (respaced source ";".toList pieces) .standard = .ok tokens ∧
      tokens.map Token.symbol = (pieces.map Prod.fst ++ [Cursor.eofAt 9]).map Token.symbol) ∧
    ((∃ t t', parse source .standard = .ok t ∧
      parse (respaced source ";".toList pieces) .standard = .ok t' ∧
        t.bare = t'.bare) ∨
      ∃ e e', parse source .standard = .error (.error e) ∧
        parse (respaced source ";".toList pieces) .standard = .error (.error e') ∧
          e.cause = e'.cause ∧
        ((∃ fault, e.cause = .grammatical fault) ∨
          ∃ name bound amount, e.cause = .limitExceeded name bound amount)) := by
  intro source pieces
  have htokens : (tokenize source .standard).toOption =
      some (pieces.map Prod.fst ++ [Cursor.eofAt 9]) := by
    decide +kernel
  have hfront : Filler ";".toList := .separator rfl .nil
  have hhalf : Filler "//half\r".toList :=
    @Filler.comment "half".toList '\r' [] (forall_mem_of_all (by decide)) rfl .nil
  have hcomment : Filler "//c\n".toList :=
    @Filler.comment ['c'] '\n' [] (forall_mem_of_all (by decide)) rfl .nil
  have hfillers : ∀ piece ∈ pieces, Filler piece.2 := by
    simp only [pieces, List.forall_mem_cons, List.not_mem_nil, false_implies,
      implies_true, and_true]
    exact ⟨hhalf, .separator rfl hcomment, .nil⟩
  cases h : tokenize source .standard with
  | error e =>
    rw [h] at htokens
    cases htokens
  | ok tokens =>
    rw [h] at htokens
    obtain rfl := Option.some.inj htokens
    exact ⟨rfl, by decide +kernel, tokenize_respaced h hfront hfillers (by decide) (by decide)
      (by decide)⟩

/-- A comment right behind a slash begins with it, and the token is lost. -/
theorem tokenize_respaced_slash_lost :
    let source := "1 / 2"
    let pieces : List (Token × List Char) := [(⟨.number, "1", ⟨0, 1⟩⟩, [' ']),
      (⟨.slash, "/", ⟨2, 3⟩⟩, "//c\n".toList), (⟨.number, "2", ⟨4, 5⟩⟩, [])]
    (tokenize source .standard).toOption = some (pieces.map Prod.fst ++ [Cursor.eofAt 5]) ∧
    (∀ piece ∈ pieces, Filler piece.2) ∧ (∀ piece ∈ pieces.dropLast, piece.2 ≠ []) ∧
    respaced source [] pieces = "1 ///c\n2" ∧
    ((respaced source [] pieces).length : Int) ≤ Limits.standard.bound .expressionLength ∧
    (tokenize (respaced source [] pieces) .standard).toOption.map (·.map Token.symbol) =
      some [⟨.number, "1"⟩, ⟨.number, "2"⟩, ⟨.eof, ""⟩] := by
  intro source pieces
  have hfillers : ∀ piece ∈ pieces, Filler piece.2 := by
    simp only [pieces, List.forall_mem_cons, List.not_mem_nil, false_implies,
      implies_true, and_true]
    exact ⟨.separator rfl .nil, @Filler.comment ['c'] '\n' []
      (forall_mem_of_all (by decide)) rfl .nil, .nil⟩
  exact ⟨by decide +kernel, hfillers, by decide, by decide +kernel, by decide, by decide +kernel⟩

end Formulary
