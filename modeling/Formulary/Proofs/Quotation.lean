import Formulary.Proofs.Respacing

/-!
# String literals

A printed string stands between quotation marks, with escapes for the quotation mark, the backslash
and what would end or bend a line.  The scanner knows one escape more and a second kind of quote,
but neither matters here: between its quotes a printed string is a quoted text that denotes the
string (`quoted_escape`), and such a text ends at its own closing quote, whatever follows it.  So
the scanner comes to stand exactly behind the literal, with the string as the token's value
(`next_quotation`), and no two strings are printed alike.
-/

set_option autoImplicit false

namespace Formulary

/-- In front of a lexeme the scanner yields its token, which spans it, and goes on to the text
behind it. -/
theorem Cursor.next_of_standing {limits : Limits} {rest text value : List Char} {kind : TokenKind}
    (h : Standing rest text kind value)
    (hstring : kind = .string → (value.length : Int) ≤ limits.bound .stringLength)
    (position : Nat) :
    next limits ⟨position, text ++ rest⟩ =
      (.ok ⟨kind, String.ofList value, ⟨position, (position + text.length : Nat)⟩⟩,
        ⟨position + text.length, rest⟩) := by
  obtain ⟨c, cs, rfl, hstands, hread⟩ := h
  rw [List.cons_append] at hstands
  have hskip : skip ⟨position, c :: (cs ++ rest)⟩ = ⟨position, c :: (cs ++ rest)⟩ := by
    simp only [skip, hstands, Nat.sub_self, Nat.add_zero]
  have hnext := next_of_token (congrArg Cursor.rest hskip) hread hstring
  rw [hskip] at hnext
  have hadvance : advance ⟨position, c :: (cs ++ rest)⟩ (c :: cs).length =
      ⟨position + (c :: cs).length, rest⟩ := by
    rw [advance, ← List.cons_append, List.drop_left]
  rw [List.cons_append, hnext, hadvance]

/-- A text between quotes denotes one string only. -/
theorem Quoted.value_unique {quote : Char} (hslash : quote ≠ '\\') {body value value' : List Char}
    (h : Quoted quote body value) (h' : Quoted quote body value') : value = value' := by
  have hread := Lexeme.stringFrom_quoted hslash h [] 0 []
  have hread' := Lexeme.stringFrom_quoted hslash h' [] 0 []
  exact (Lexeme.token.inj (hread.symm.trans hread')).2.1

/-- A printed string is read back, whatever follows it.  Scanning from the opening quote yields a
string token with that string as its value, the token ends where the rest of the text begins, and
there the cursor stands then.  Hence different strings are printed differently. -/
theorem next_quotation (s : String) (limits : Limits)
    (h : (s.length : Int) ≤ limits.bound .stringLength) (rest : String) :
    let literal := "\"" ++ String.ofList (Expr.escape s.toList) ++ "\""
    (Cursor.start (literal ++ rest)).next limits =
        (.ok ⟨.string, s, ⟨0, literal.length⟩⟩, ⟨literal.length, rest.toList⟩) ∧
      Function.Injective Expr.escape := by
  intro literal
  constructor
  · have hliteral : literal.toList = '"' :: Expr.escape s.toList ++ ['"'] := by
      simp [literal, String.toList_append]
    have hstring : TokenKind.string = .string →
        (s.toList.length : Int) ≤ limits.bound .stringLength := by
      intro _
      rwa [String.length_toList]
    have hstands := standing_quoted (.inl rfl) (quoted_escape s.toList) rest.toList
    have hnext := Cursor.next_of_standing hstands hstring 0
    rw [← hliteral, ← String.toList_append, String.ofList_toList, String.length_toList,
      Nat.zero_add] at hnext
    exact hnext
  · intro s t hsame
    -- The printed text denotes both strings, and a quoted text denotes one only.
    have hs := quoted_escape s
    rw [hsame] at hs
    exact hs.value_unique (by decide) (quoted_escape t)

/-- A backslash at the end of the string does not swallow the closing quote, nor is the text behind
it, which starts with a backslash and a quote, taken for more of the string. -/
theorem next_quotation_of_specials :
    ("it's \"\\\n\\".length : Int) ≤ Limits.standard.bound .stringLength ∧
    (Cursor.start "\"it's \\\"\\\\\\n\\\\\"\\\"x").next .standard =
      (.ok ⟨.string, "it's \"\\\n\\", ⟨0, 15⟩⟩, ⟨15, "\\\"x".toList⟩) := by
  have hlength : ("it's \"\\\n\\".length : Int) ≤ Limits.standard.bound .stringLength := by decide
  exact ⟨hlength, (next_quotation "it's \"\\\n\\" .standard hlength "\\\"x").1⟩

end Formulary
