import Formulary.Proofs.Pointing
import Formulary.Proofs.Spelling

/-!
# Lexemes that stand alone

The text of a literal is read as its one token also where nothing else stands around it.  `Alone
text kind value` says so of the first step of the scanner: no trivia comes before the text, and the
token takes all of it.  Numerals, quoted strings and keywords are texts of this sort, and
`tokenize_alone` takes the step to the tokens of the whole text.
-/

set_option autoImplicit false

namespace Formulary

open Formulary.Text

/-- A text that is read as one token from its first character to its last. -/
def Alone (text : List Char) (kind : TokenKind) (value : List Char) : Prop :=
  ∃ c cs, text = c :: cs ∧ isSeparator c = false ∧ c ≠ '/' ∧
    Lexeme.read c cs = .token kind value (cs.length + 1)

/-! ## The classes of literals -/

/-- A numeral is read as one number. -/
theorem alone_numeral {text : List Char} (h : Numeral text) : Alone text .number text := by
  obtain ⟨c, cs, rfl, -⟩ := h.first
  obtain ⟨hseparator, hslash⟩ := h.not_separator
  have hread := @read_numeral _ _ [] h rfl rfl fun _ hpoint => nomatch hpoint
  rw [List.append_nil] at hread
  exact ⟨c, cs, rfl, hseparator, hslash, hread⟩

/-- A text between two quotes is read as one string. -/
theorem alone_quoted {quote : Char} (hquote : quote = '"' ∨ quote = '\'') {body value : List Char}
    (h : Quoted quote body value) : Alone (quote :: body ++ [quote]) .string value := by
  have hread := Lexeme.read_quoted hquote h []
  have hfirst : isSeparator quote = false ∧
      quote ≠ '/' := by rcases hquote with rfl | rfl <;> decide
  refine ⟨quote, body ++ [quote], rfl, hfirst.1, hfirst.2, ?_⟩
  rw [hread, List.length_append, List.length_singleton]

/-- A keyword is read as one token of its kind. -/
theorem alone_keyword {kind : TokenKind} {word : String} (h : (word, kind) ∈ TokenKind.keywords) :
    Alone word.toList kind word.toList := by
  obtain ⟨c, cs, htext, hc, hcs, hkind⟩ := isWord_of_keyword h
  obtain ⟨hseparator, hslash⟩ := not_separator_of_isNameStart hc
  have hread := @read_word _ _ [] hc hcs rfl
  rw [← htext, String.ofList_toList, hkind, List.append_nil] at hread
  exact ⟨c, cs, htext, hseparator, hslash, hread⟩

/-! ## Their tokens -/

/-- At the end of a text there is only the end token left. -/
theorem Cursor.tokens_at_end (limits : Limits) (count position : Nat) :
    Cursor.tokens limits count ⟨position, []⟩ = .ok [eofAt position] := by
  cases count with
  | zero => rfl
  | succ count => simp [tokens, next, skip, skipTrivia, eofAt]

/-- Such a text has one token, which spans it, unless it or the string that it denotes is over a
limit. -/
theorem tokenize_alone {text value : List Char} {kind : TokenKind} {limits : Limits}
    (h : Alone text kind value) (htext : (text.length : Int) ≤ limits.bound .expressionLength)
    (hstring : kind = .string → (value.length : Int) ≤ limits.bound .stringLength) :
    tokenize (String.ofList text) limits =
      .ok [⟨kind, String.ofList value, ⟨0, text.length⟩⟩, Cursor.eofAt text.length] := by
  obtain ⟨c, cs, rfl, hseparator, hslash, hread⟩ := h
  have hskip : skipTrivia (c :: cs) = c :: cs := skipTrivia_cons hseparator cs (.inl hslash)
  have hstart : (Cursor.start (String.ofList (c :: cs))).skip = ⟨0, c :: cs⟩ := by
    simp [Cursor.skip, Cursor.start, hskip]
  have hadvance : Cursor.advance ⟨0, c :: cs⟩ (cs.length + 1) = ⟨(c :: cs).length, []⟩ := by
    simp [Cursor.advance]
  have hnext : (Cursor.start (String.ofList (c :: cs))).next limits =
      (.ok ⟨kind, String.ofList value, ⟨0, (c :: cs).length⟩⟩, ⟨(c :: cs).length, []⟩) := by
    rw [Cursor.next_of_token (congrArg Cursor.rest hstart) hread hstring, hstart, hadvance,
      Nat.zero_add]
    rfl
  have htokens : (Cursor.start (String.ofList (c :: cs))).tokens limits (cs.length + 1) =
      .ok [⟨kind, String.ofList value, ⟨0, (c :: cs).length⟩⟩, Cursor.eofAt (c :: cs).length] := by
    rw [Cursor.tokens, hnext]
    simp only [(Lexeme.read_proper hread).ne_eof, ↓reduceIte, Cursor.tokens_at_end, Except.map]
  rw [tokenize_eq_ok, String.length_ofList]
  exact ⟨htext, htokens⟩

end Formulary
