import Formulary.Proofs.LongestMatch
import Formulary.Proofs.NumberText

/-!
# Texts that spell symbols

`Spells stop cs xs` says that the text `cs` is scanned as the symbols `xs`, whatever text follows it
that meets `stop`.  Texts are put together with `Spells.append`; this module gives the parts that
formula text is put together from: operators, keywords, punctuation, names, numerals and quoted
strings.  Names and numerals need a text behind them that does not go on with them, a `Clear` one.
-/

set_option autoImplicit false

namespace Formulary

open Formulary.Text

/-- A text is scanned as given symbols in front of every text that meets `stop`. -/
def Spells (stop : List Char → Prop) (cs : List Char) (xs : List Symbol) : Prop :=
  ∀ rest ys, stop rest → Scans rest ys → Scans (cs ++ rest) (xs ++ ys)

/-- Any text may follow. -/
def Anything (_ : List Char) : Prop := True

/-- No equals sign follows. -/
def NoEquals (rest : List Char) : Prop :=
  rest.head? ≠ some '='

/-- What follows goes on with no name and with no numeral: nothing, a blank or a bracket, a comma,
or the operator of a range. -/
def Clear (rest : List Char) : Prop :=
  rest = [] ∨ (∃ c tail, rest = c :: tail ∧ c ∈ [' ', '\n', '(', ')', '[', ']', ',']) ∨
    ∃ tail, rest = '.' :: '.' :: tail

/-- A blank, a bracket or a comma goes on with no name and with no numeral. -/
theorem Clear.cons {c : Char} (hc : c ∈ [' ', '\n', '(', ')', '[', ']', ',']) (tail : List Char) :
    Clear (c :: tail) :=
  .inr (.inl ⟨c, tail, rfl, hc⟩)

/-- Two texts in a row spell the symbols of both, if the second stops the first. -/
theorem Spells.append {stop stop' : List Char → Prop} {cs ds : List Char} {xs ys : List Symbol}
    (hcs : Spells stop cs xs) (hds : Spells stop' ds ys)
    (hstop : ∀ rest, stop' rest → stop (ds ++ rest)) : Spells stop' (cs ++ ds) (xs ++ ys) := by
  intro rest zs hrest hscans
  rw [List.append_assoc, List.append_assoc]
  exact hcs _ _ (hstop rest hrest) (hds rest zs hrest hscans)

/-- A text is scanned the same if less may follow it. -/
theorem Spells.weaken {stop stop' : List Char → Prop} {cs : List Char} {xs : List Symbol}
    (h : Spells stop cs xs) (hstop : ∀ rest, stop' rest → stop rest) : Spells stop' cs xs :=
  fun rest ys hrest hscans => h rest ys (hstop rest hrest) hscans

/-! ## Trivia -/

/-- What a text is scanned as depends only on what remains when trivia is skipped. -/
theorem Scans.of_skipTrivia {cs ds : List Char} {xs : List Symbol}
    (hskip : skipTrivia cs = skipTrivia ds) (h : Scans ds xs) : Scans cs xs := by
  cases h with
  | done hdone => exact .done (hskip.trans hdone)
  | token hcons hread hmore => exact .token (hskip.trans hcons) hread hmore

/-- A separator in front of a text makes no difference to its symbols. -/
theorem scans_separator {c : Char} (hc : isSeparator c = true) {rest : List Char} {xs : List Symbol}
    (h : Scans rest xs) : Scans (c :: rest) xs :=
  .of_skipTrivia (by rw [skipTrivia, if_pos hc]) h

/-- A separator spells nothing. -/
theorem spells_separator {c : Char} (hc : isSeparator c = true) : Spells Anything [c] [] :=
  fun _ _ _ h => scans_separator hc h

/-- Nothing is skipped in front of a character that is no separator and starts no comment. -/
theorem skipTrivia_cons {c : Char} (hc : isSeparator c = false) (rest : List Char)
    (hcomment : c ≠ '/' ∨ rest.head? ≠ some '/') : skipTrivia (c :: rest) = c :: rest := by
  rw [skipTrivia, if_neg (by simp [hc]), if_neg]
  rintro ⟨rfl, hslash⟩
  exact hcomment.elim (fun h => h rfl) fun h => h hslash

/-- A lexeme spells its symbol. -/
theorem spells_lexeme {stop : List Char → Prop} {c : Char} {cs : List Char} {kind : TokenKind}
    (value : List Char) (hc : isSeparator c = false)
    (hcomment : ∀ rest, stop rest → c ≠ '/' ∨ (cs ++ rest).head? ≠ some '/')
    (hread : ∀ rest, stop rest → Lexeme.read c (cs ++ rest) = .token kind value (cs.length + 1)) :
    Spells stop (c :: cs) [⟨kind, String.ofList value⟩] := by
  intro rest ys hrest hscans
  refine .token (skipTrivia_cons hc _ (hcomment rest hrest)) (hread rest hrest) ?_
  simpa using hscans

/-! ## Operators and punctuation -/

/-- A token of one character spells itself. -/
theorem spells_symbol {c : Char} {kind : TokenKind} (h : Lexeme.symbolKind? c = some kind)
    (hc : isSeparator c = false) (hslash : c ≠ '/') :
    Spells Anything [c] [⟨kind, String.ofList [c]⟩] := by
  refine spells_lexeme [c] hc (fun _ _ => .inl hslash) fun rest _ => ?_
  unfold Lexeme.read
  rw [h]
  rfl

/-- With no equals sign behind it, a character that could be the first of two is a token by
itself. -/
theorem oneOrTwo_single {rest : List Char} (h : NoEquals rest) (first : Char)
    (single double : TokenKind) :
    Lexeme.oneOrTwo first '=' single double rest = .token single [first] 1 :=
  if_neg h

/-- Two points with no equals sign behind them are the operator of a range. -/
theorem point_dotDot {rest : List Char} (h : NoEquals rest) :
    Lexeme.point ('.' :: rest) = .token .dotDot ['.', '.'] 2 := by
  unfold Lexeme.point
  have hdigit : ¬ Lexeme.startsWithDigit ('.' :: rest) = true := by
    simp [Lexeme.startsWithDigit, isAsciiDigit]
  rw [if_neg hdigit]
  split
  · rename_i hdots
    simp only [List.cons.injEq, true_and] at hdots
    simp [NoEquals, hdots] at h
  · rfl
  · rename_i hno
    exact absurd rfl (hno rest)

/-- An exclamation mark with no equals sign behind it is a negation. -/
theorem spells_not : Spells NoEquals ['!'] [⟨.not, "!"⟩] :=
  spells_lexeme ['!'] rfl (fun _ _ => .inl (by decide)) fun _ hrest =>
    oneOrTwo_single hrest '!' .not .notEqual

/-- Two points with no equals sign behind them spell the operator of a range. -/
theorem spells_dotDot : Spells NoEquals ['.', '.'] [⟨.dotDot, ".."⟩] :=
  spells_lexeme ['.', '.'] rfl (fun _ _ => .inl (by decide)) fun _ hrest => point_dotDot hrest

/-- Two points and an equals sign spell the operator of an inclusive range. -/
theorem spells_dotDotEqual : Spells Anything ['.', '.', '='] [⟨.dotDotEqual, "..="⟩] :=
  spells_lexeme ['.', '.', '='] rfl (fun _ _ => .inl (by decide)) fun _ _ => rfl

/-- An operator between blanks spells itself. -/
theorem spells_operator {operator : BinaryOp} {kind : TokenKind}
    (h : operator.tokenKind? = some kind) :
    Spells Anything (' ' :: operator.symbol.toList ++ [' ']) [⟨kind, operator.symbol⟩] := by
  have hblanks : ∀ {c : Char} {cs : List Char},
      Spells (fun rest => ∃ tail, rest = ' ' :: tail) (c :: cs) [⟨kind, operator.symbol⟩] →
      Spells Anything (' ' :: (c :: cs) ++ [' ']) [⟨kind, operator.symbol⟩] := by
    intro c cs hlexeme rest ys _ hscans
    have htext : ' ' :: (c :: cs) ++ [' '] ++ rest = ' ' :: (c :: cs ++ ' ' :: rest) := by simp
    rw [htext]
    exact scans_separator rfl (hlexeme _ ys ⟨rest, rfl⟩ (scans_separator rfl hscans))
  cases operator <;> simp only [BinaryOp.tokenKind?, Option.some.injEq, reduceCtorEq] at h <;>
    subst h <;> refine hblanks (spells_lexeme _ rfl ?_ ?_) <;> rintro rest ⟨tail, rfl⟩ <;>
    first | rfl | exact .inl (by decide) | exact .inr (by simp)

/-! ## Words -/

/-- Where the text is clear, no name goes on. -/
theorem Clear.takeWhile_isNamePart {rest : List Char} (h : Clear rest) :
    rest.takeWhile isNamePart = [] := by
  have hall : ∀ c ∈ [' ', '\n', '(', ')', '[', ']', ','], isNamePart c = false :=
    forall_mem_of_all (by decide)
  rcases h with rfl | ⟨c, tail, rfl, hc⟩ | ⟨tail, rfl⟩
  · rfl
  · simp [hall c hc]
  · simp [show isNamePart '.' = false by decide]

/-- What starts like a name is read as a word. -/
theorem read_of_isNameStart {c : Char} (hc : isNameStart c = true) (rest : List Char) :
    Lexeme.read c rest = Lexeme.word (c :: rest) := by
  have hne : ∀ d, isNameStart d = false → c ≠ d := by
    rintro d hd rfl
    rw [hc] at hd
    cases hd
  have hsymbol : Lexeme.symbolKind? c = none := by
    unfold Lexeme.symbolKind?
    split <;> first | rfl | exact absurd hc (by decide)
  have hdigit : isAsciiDigit c = false := by
    cases hd : isAsciiDigit c with
    | false => rfl
    | true =>
      have hall : ∀ d ∈ "0123456789".toList, isNameStart d = false :=
        forall_mem_of_all (by decide)
      exact absurd rfl (hne c (hall c (mem_of_isAsciiDigit hd)))
  unfold Lexeme.read
  rw [hsymbol]
  simp only
  rw [if_neg (hne '<' (by decide)), if_neg (hne '>' (by decide)), if_neg (hne '=' (by decide)),
    if_neg (hne '!' (by decide)), if_neg (hne '&' (by decide)), if_neg (hne '|' (by decide)),
    if_neg (hne '.' (by decide)), if_neg (not_or.mpr ⟨hne '"' (by decide), hne '\'' (by decide)⟩),
    if_neg (by simp [hdigit]), if_pos hc]

/-- The start of a name is neither skipped nor the start of a comment. -/
theorem not_separator_of_isNameStart {c : Char} (hc : isNameStart c = true) :
    isSeparator c = false ∧ c ≠ '/' := by
  constructor
  · cases hsep : isSeparator c with
    | false => rfl
    | true =>
      have hcases : c = ' ' ∨ c = '\t' ∨ c = '\n' ∨ c = '\r' ∨ c = ';' := by
        simpa [isSeparator, or_assoc] using hsep
      rcases hcases with rfl | rfl | rfl | rfl | rfl <;> exact absurd hc (by decide)
  · rintro rfl
    exact absurd hc (by decide)

/-- A word is read up to where it does not go on. -/
theorem read_word {c : Char} {cs rest : List Char} (hc : isNameStart c = true)
    (hcs : ∀ d ∈ cs, isNamePart d = true) (hrest : rest.takeWhile isNamePart = []) :
    Lexeme.read c (cs ++ rest) = .token (.ofWord (String.ofList (c :: cs))) (c :: cs)
      (cs.length + 1) := by
  have htake : (c :: (cs ++ rest)).takeWhile isNamePart = c :: cs := by
    have hpart : isNamePart c = true := by simp [isNamePart, hc]
    rw [List.takeWhile_cons_of_pos hpart, List.takeWhile_append_of_pos hcs, hrest, List.append_nil]
  rw [read_of_isNameStart hc, Lexeme.word, htake]
  rfl

/-- A text that is a word of a kind: a letter or an underscore, and characters that can go on a
name. -/
def IsWord (kind : TokenKind) (word : String) : Prop :=
  ∃ c cs, word.toList = c :: cs ∧ isNameStart c = true ∧ (∀ d ∈ cs, isNamePart d = true) ∧
    TokenKind.ofWord word = kind

/-- A name is a word for an identifier. -/
theorem isWord_of_isName {name : String} (h : isName name = true) : IsWord .identifier name := by
  unfold isName at h
  cases hname : name.toList with
  | nil => simp [hname] at h
  | cons c cs =>
    simp only [hname, Bool.and_eq_true, List.all_eq_true] at h
    obtain ⟨⟨hc, hcs⟩, hlookup⟩ := h
    refine ⟨c, cs, hname, hc, hcs, ?_⟩
    unfold TokenKind.ofWord
    rw [Option.isNone_iff_eq_none.mp hlookup]
    rfl

/-- A keyword is a word of its kind. -/
theorem isWord_of_keyword {word : String} {kind : TokenKind}
    (h : (word, kind) ∈ TokenKind.keywords) :
    IsWord kind word := by
  have hall : ∀ p ∈ TokenKind.keywords, (p.1.toList.head?.all isNameStart ∧
      p.1.toList.head?.isSome ∧ p.1.toList.tail.all isNamePart) ∧
      TokenKind.ofWord p.1 = p.2 := by decide
  obtain ⟨⟨hc, hsome, hcs⟩, hkind⟩ := hall _ h
  cases htext : word.toList with
  | nil => simp [htext] at hsome
  | cons c cs =>
    simp only [htext, List.head?_cons, Option.all_some, List.tail_cons, List.all_eq_true] at hc hcs
    exact ⟨c, cs, htext, hc, hcs, hkind⟩

/-- A word spells its symbol in front of a clear text. -/
theorem spells_word {kind : TokenKind} {word : String} (h : IsWord kind word) :
    Spells Clear word.toList [⟨kind, word⟩] := by
  obtain ⟨c, cs, htext, hc, hcs, rfl⟩ := h
  obtain ⟨hsep, hslash⟩ := not_separator_of_isNameStart hc
  have hspells : Spells Clear (c :: cs)
      [⟨.ofWord (String.ofList (c :: cs)), String.ofList (c :: cs)⟩] :=
    spells_lexeme (c :: cs) hsep (fun _ _ => .inl hslash) fun rest hrest =>
      read_word hc hcs hrest.takeWhile_isNamePart
  rwa [← htext, String.ofList_toList] at hspells

/-- A name spells an identifier. -/
theorem spells_name {name : String} (h : isName name = true) :
    Spells Clear name.toList [⟨.identifier, name⟩] :=
  spells_word (isWord_of_isName h)

/-- A keyword between blanks, of which the first may be missing, spells itself. -/
theorem spells_keyword {word : String} {kind : TokenKind} (h : (word, kind) ∈ TokenKind.keywords) :
    Spells Anything (word.toList ++ [' ']) [⟨kind, word⟩] ∧
    Spells Anything (' ' :: word.toList ++ [' ']) [⟨kind, word⟩] := by
  have hblank : Spells Anything (word.toList ++ [' ']) [⟨kind, word⟩] := by
    have happend := (spells_word (isWord_of_keyword h)).append (spells_separator (c := ' ') rfl)
      fun rest _ => Clear.cons (by simp) rest
    simpa using happend
  exact ⟨hblank, fun rest ys _ hscans => scans_separator rfl (hblank rest ys trivial hscans)⟩

/-! ## Literals -/

/-- The two words for truth values spell their tokens. -/
theorem spells_boolean (value : Bool) :
    Spells Clear (if value then "true".toList else "false".toList)
      [⟨if value then .trueWord else .falseWord, if value then "true" else "false"⟩] := by
  cases value with
  | true => exact spells_word (@isWord_of_keyword "true" _ (by decide))
  | false => exact spells_word (@isWord_of_keyword "false" _ (by decide))

/-- Where the text is clear, no numeral goes on. -/
theorem Clear.stops_numeral {rest : List Char} (h : Clear rest) :
    Lexeme.startsWithDigit rest = false ∧ Lexeme.exponentMark rest = [] ∧
      ∀ after, rest = '.' :: after → Lexeme.startsWithDigit after = false := by
  have hall : ∀ c ∈ [' ', '\n', '(', ')', '[', ']', ','],
      isAsciiDigit c = false ∧ c ≠ 'e' ∧ c ≠ 'E' ∧ c ≠ '.' :=
    forall_mem_of_all (by decide)
  rcases h with rfl | ⟨c, tail, rfl, hc⟩ | ⟨tail, rfl⟩
  · simp [Lexeme.startsWithDigit, Lexeme.exponentMark]
  · obtain ⟨hdigit, he, hE, hpoint⟩ := hall c hc
    simp [Lexeme.startsWithDigit, Lexeme.exponentMark, hdigit, he, hE, hpoint]
  · simp [Lexeme.startsWithDigit, Lexeme.exponentMark, isAsciiDigit]

/-- A digit is the start of a number. -/
theorem read_of_isAsciiDigit {c : Char} (hc : isAsciiDigit c = true) (rest : List Char) :
    Lexeme.read c rest = Lexeme.number (c :: rest) := by
  have hall : ∀ d ∈ "0123456789".toList, Lexeme.symbolKind? d = none ∧
      d ∉ ['<', '>', '=', '!', '&', '|', '.', '"', '\''] :=
    forall_mem_of_all (by decide)
  obtain ⟨hsymbol, hne⟩ := hall c (mem_of_isAsciiDigit hc)
  simp only [List.mem_cons, List.not_mem_nil, or_false, not_or] at hne
  unfold Lexeme.read
  rw [hsymbol]
  simp [hne, hc]

/-- Neither a separator nor a comment starts like a numeral. -/
theorem Numeral.not_separator {c : Char} {cs : List Char} (h : Numeral (c :: cs)) :
    isSeparator c = false ∧ c ≠ '/' := by
  have hall : ∀ d ∈ ".0123456789".toList, isSeparator d = false ∧ d ≠ '/' :=
    forall_mem_of_all (by decide)
  obtain ⟨d, ds, htext, hd⟩ := h.first
  obtain ⟨rfl, -⟩ := List.cons.inj htext
  rcases hd with hd | rfl
  · exact hall c (List.mem_cons_of_mem _ (mem_of_isAsciiDigit hd))
  · exact hall '.' List.mem_cons_self

/-- A numeral is read whole where what follows does not go on with it. -/
theorem read_numeral {c : Char} {cs rest : List Char} (h : Numeral (c :: cs))
    (hdigit : Lexeme.startsWithDigit rest = false) (hmark : Lexeme.exponentMark rest = [])
    (hpoint : ∀ after, rest = '.' :: after → Lexeme.startsWithDigit after = false) :
    Lexeme.read c (cs ++ rest) = .token .number (c :: cs) (cs.length + 1) := by
  have hnumber := Lexeme.number_append h hdigit hmark hpoint
  obtain ⟨d, ds, htext, hd⟩ := h.first
  obtain ⟨rfl, rfl⟩ := List.cons.inj htext
  rcases hd with hd | rfl
  · exact (read_of_isAsciiDigit hd _).trans hnumber
  · have hbehind : Lexeme.startsWithDigit (cs ++ rest) = true := by
      have hcs := h.startsWithDigit_of_point
      cases cs with
      | nil => cases hcs
      | cons d ds => exact hcs
    show Lexeme.point (cs ++ rest) = _
    unfold Lexeme.point
    rw [if_pos hbehind]
    exact hnumber

/-- A numeral that starts with a digit spells a number. -/
theorem spells_numeral {cs : List Char} (h : Number.Unsigned cs) :
    Spells Clear cs [⟨.number, String.ofList cs⟩] := by
  obtain ⟨hnumeral, hfirst⟩ := h
  cases cs with
  | nil => simp [Lexeme.startsWithDigit] at hfirst
  | cons c cs =>
    obtain ⟨hsep, hslash⟩ := hnumeral.not_separator
    refine spells_lexeme (c :: cs) hsep (fun _ _ => .inl hslash) fun rest hrest => ?_
    obtain ⟨hdigit, hmark, hpoint⟩ := hrest.stops_numeral
    exact read_numeral hnumeral hdigit hmark hpoint

/-- A character of a literal is an escape that denotes it, or it stands for itself. -/
theorem escapeChar_cases (c : Char) :
    (∃ e, Expr.escapeChar c = ['\\', e] ∧ (e, c) ∈ escapes) ∨
      (Expr.escapeChar c = [c] ∧ c ≠ '"' ∧ c ≠ '\\' ∧ isNewline c = false) := by
  by_cases hspecial : c ∈ ['\\', '"', '\n', '\r', '\t']
  · have hall : ∀ d ∈ ['\\', '"', '\n', '\r', '\t'],
        (escapes.any fun p => p.2 == d && Expr.escapeChar d == ['\\', p.1]) = true :=
          forall_mem_of_all (by decide)
    obtain ⟨⟨e, d⟩, hmem, hboth⟩ := List.any_eq_true.mp (hall c hspecial)
    obtain ⟨hd, hescape⟩ := Bool.and_eq_true_iff.mp hboth
    obtain rfl : d = c := eq_of_beq hd
    exact .inl ⟨e, eq_of_beq hescape, hmem⟩
  · simp only [List.mem_cons, List.not_mem_nil, or_false, not_or] at hspecial
    obtain ⟨hslash, hquote, hnewline, hreturn, htab⟩ := hspecial
    exact .inr ⟨by simp [Expr.escapeChar, hslash, hquote, hnewline, hreturn, htab], hquote, hslash,
      by simp [isNewline, hnewline, hreturn]⟩

/-- The escaped characters of a string are a text between quotes that denotes the string. -/
theorem quoted_escape (s : List Char) : Quoted '"' (Expr.escape s) s := by
  induction s with
  | nil => exact .nil
  | cons c s ih =>
    have hcons : Expr.escape (c :: s) = Expr.escapeChar c ++ Expr.escape s := rfl
    rw [hcons]
    rcases escapeChar_cases c with ⟨e, hescape, he⟩ | ⟨hescape, hquote, hslash, hline⟩
    · rw [hescape]
      exact .escape he ih
    · rw [hescape]
      exact .plain hquote hslash hline ih

/-- A string between quotes spells itself. -/
theorem spells_string (s : String) :
    Spells Anything ('"' :: Expr.escape s.toList ++ ['"']) [⟨.string, s⟩] := by
  intro rest ys _ hscans
  have hread := Lexeme.read_quoted (.inl rfl) (quoted_escape s.toList) rest
  have hskip : skipTrivia ('"' :: Expr.escape s.toList ++ ['"'] ++ rest) =
      '"' :: (Expr.escape s.toList ++ '"' :: rest) := by
    rw [List.append_assoc]
    exact skipTrivia_cons rfl _ (.inl (by decide))
  have hdrop : ('"' :: (Expr.escape s.toList ++ '"' :: rest)).drop
      ((Expr.escape s.toList).length + 2) = rest := by
    have htext : '"' :: (Expr.escape s.toList ++ '"' :: rest) =
        ('"' :: Expr.escape s.toList ++ ['"']) ++ rest := by simp
    rw [htext]
    exact List.drop_left' (by simp)
  have htoken := Scans.token hskip hread (hdrop.symm ▸ hscans)
  rwa [String.ofList_toList] at htoken

end Formulary
