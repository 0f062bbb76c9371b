import Formulary.Proofs.Scanning
import Mathlib.Data.List.Basic

/-!
# Lexemes and the longest match

`IsLexeme kind text value` says which texts stand for a token of a kind, and for which value,
without saying how a text is read: the fixed operators, the numerals, the keywords, the names, and
the quoted strings.  What is read at the front of a text is a lexeme, and no longer part of the text
is a lexeme of any kind (`Lexeme.read_longest`).

The classes are told apart by the first character of a lexeme (`IsLexeme.first`); only a point
starts lexemes of two classes.
-/

set_option autoImplicit false

namespace Formulary

open Formulary.Text

/-- The tokens that are always written alike. -/
def fixedTexts : List (TokenKind × String) :=
  [(.plus, "+"), (.minus, "-"), (.star, "*"), (.slash, "/"), (.percent, "%"), (.caret, "^"),
    (.less, "<"), (.lessEqual, "<="), (.greater, ">"), (.greaterEqual, ">="), (.equal, "=="),
    (.notEqual, "!="), (.and, "&&"), (.or, "||"), (.not, "!"), (.dotDot, ".."),
      (.dotDotEqual, "..="),
    (.leftParen, "("), (.rightParen, ")"), (.leftBracket, "["), (.rightBracket, "]"), (.comma, ","),
    (.question, "?"), (.colon, ":"), (.assign, "=")]

/-- The escapes of a string: the character behind the backslash, and the one that both stand for. -/
def escapes : List (Char × Char) :=
  [('n', '\n'), ('r', '\r'), ('t', '\t'), ('\\', '\\'), ('"', '"'), ('\'', '\'')]

/-- A text that can stand between two quotes, and the string that it denotes. -/
inductive Quoted (quote : Char) : List Char → List Char → Prop
  | nil : Quoted quote [] []
  | plain {c body value} : c ≠ quote → c ≠ '\\' → isNewline c = false → Quoted quote body value →
      Quoted quote (c :: body) (c :: value)
  | escape {e d body value} : (e, d) ∈ escapes → Quoted quote body value →
      Quoted quote ('\\' :: e :: body) (d :: value)

/-- A text that stands for a token of a kind, and the token's value. -/
inductive IsLexeme : TokenKind → List Char → List Char → Prop
  | fixed {kind text} : (kind, text) ∈ fixedTexts → IsLexeme kind text.toList text.toList
  | number {text} : Numeral text → IsLexeme .number text text
  | keyword {kind word} : (word, kind) ∈ TokenKind.keywords → IsLexeme kind word.toList word.toList
  | identifier {name} : isName name = true → IsLexeme .identifier name.toList name.toList
  | string {quote body value} : quote = '"' ∨ quote = '\'' → Quoted quote body value →
      IsLexeme .string (quote :: body ++ [quote]) value

/-! ## First characters -/

/-- What a character can be the first one of. -/
inductive Opening where
  | operator
  | point
  | digit
  | letter
  | quote
  | nothing
deriving DecidableEq

/-- The characters that start a fixed token and nothing else. -/
def operatorChars : List Char :=
  "()[],+-*/%^?:<>=!&|".toList

/-- What a character opens. -/
def Opening.of (c : Char) : Opening :=
  if c ∈ operatorChars then .operator
  else if c = '.' then .point
  else if isAsciiDigit c then .digit
  else if isNameStart c then .letter
  else if c = '"' ∨ c = '\'' then .quote
  else .nothing

/-- A digit opens a number. -/
theorem Opening.of_digit {c : Char} (hc : isAsciiDigit c = true) : Opening.of c = .digit := by
  have hall : ∀ d ∈ "0123456789".toList, Opening.of d = .digit := forall_mem_of_all (by decide)
  exact hall c (mem_of_isAsciiDigit hc)

/-- A letter or an underscore opens a word. -/
theorem Opening.of_letter {c : Char} (hc : isNameStart c = true) : Opening.of c = .letter := by
  have hoperators : ∀ d ∈ operatorChars, isNameStart d = false := forall_mem_of_all (by decide)
  have hdigits : ∀ d ∈ "0123456789".toList, isNameStart d = false := forall_mem_of_all (by decide)
  have hother : ∀ {d : Char}, isNameStart d = false → c ≠ d := by
    rintro d hd rfl
    rw [hc] at hd
    cases hd
  unfold Opening.of
  rw [if_neg fun h => hother (hoperators c h) rfl, if_neg (hother (by decide)),
    if_neg fun h => hother (hdigits c (mem_of_isAsciiDigit h)) rfl, if_pos hc]

/-- What a lexeme with a given first character is. -/
def Opened (c : Char) (cs value : List Char) : Opening → Prop
  | .operator => ∃ p ∈ fixedTexts, p.2.toList = c :: cs
  | .point => (∃ p ∈ fixedTexts, p.2.toList = c :: cs) ∨ Numeral (c :: cs)
  | .digit => Numeral (c :: cs)
  | .letter => ∀ d ∈ c :: cs, isNamePart d = true
  | .quote => ∃ body, cs = body ++ [c] ∧ Quoted c body value
  | .nothing => False

/-- The first character of a lexeme tells its class. -/
theorem IsLexeme.first {kind : TokenKind} {c : Char} {cs value : List Char}
    (h : IsLexeme kind (c :: cs) value) : Opened c cs value (.of c) := by
  obtain ⟨text, htext⟩ : ∃ text, c :: cs = text := ⟨_, rfl⟩
  rw [htext] at h
  have hword : isNameStart c = true → (∀ d ∈ cs, isNamePart d = true) →
      Opened c cs value (.of c) := by
    intro hstart hparts
    rw [Opening.of_letter hstart]
    exact List.forall_mem_cons.mpr ⟨by simp [isNamePart, hstart], hparts⟩
  cases h with
  | @fixed _ text hfixed =>
    have hall : ∀ p ∈ fixedTexts, (p.2.toList.head?.all fun d =>
        decide (Opening.of d = .operator ∨ Opening.of d = .point)) = true :=
          forall_mem_of_all (by decide)
    have hopening : Opening.of c = .operator ∨ Opening.of c = .point := by
      simpa [← htext] using hall _ hfixed
    rcases hopening with hclass | hclass
    · rw [hclass]
      exact ⟨_, hfixed, htext.symm⟩
    · rw [hclass]
      exact .inl ⟨_, hfixed, htext.symm⟩
  | number hnumeral =>
    obtain ⟨d, rest, hcons, hd⟩ := hnumeral.first
    obtain ⟨rfl, rfl⟩ := List.cons.inj (htext.trans hcons)
    rcases hd with hd | rfl
    · rw [Opening.of_digit hd]
      exact htext ▸ hnumeral
    · exact .inr (htext ▸ hnumeral)
  | @keyword _ word hkeyword =>
    have hall : ∀ p ∈ TokenKind.keywords,
        (p.1.toList.head?.all isNameStart && p.1.toList.tail.all isNamePart) = true :=
      forall_mem_of_all (by decide)
    obtain ⟨hstart, hparts⟩ : isNameStart c = true ∧ ∀ d ∈ cs, isNamePart d = true := by
      simpa [← htext] using hall _ hkeyword
    exact hword hstart hparts
  | @identifier name hname =>
    simp only [isName, ← htext, Bool.and_eq_true, List.all_eq_true] at hname
    exact hword hname.1.1 hname.1.2
  | @string quote body _ hquote hbody =>
    obtain ⟨rfl, rfl⟩ := List.cons.inj htext
    have hclass : Opening.of c = .quote := by rcases hquote with rfl | rfl <;> decide
    rw [hclass]
    exact ⟨body, rfl, hbody⟩

/-- A quoted text ends at the first quote that is not escaped. -/
theorem Quoted.unique {quote : Char} (hquote : quote ≠ '\\') {body body' value value' : List Char}
    (h : Quoted quote body value) (h' : Quoted quote body' value') {after after' : List Char}
    (heq : body ++ quote :: after = body' ++ quote :: after') : body = body' := by
  induction h generalizing body' value' with
  | nil =>
    cases h' with
    | nil => rfl
    | plain hne _ _ _ => exact absurd (List.cons.inj heq).1.symm hne
    | escape _ _ => exact absurd (List.cons.inj heq).1 hquote
  | @plain c _ _ hne hslash _ _ ih =>
    cases h' with
    | nil => exact absurd (List.cons.inj heq).1 hne
    | plain _ _ _ hbody =>
      obtain ⟨rfl, hrest⟩ := List.cons.inj heq
      rw [ih hbody hrest]
    | escape _ _ => exact absurd (List.cons.inj heq).1 hslash
  | escape _ _ ih =>
    cases h' with
    | nil => exact absurd (List.cons.inj heq).1.symm hquote
    | plain _ hslash _ _ => exact absurd (List.cons.inj heq).1.symm hslash
    | escape _ hbody =>
      obtain ⟨rfl, hrest⟩ := List.cons.inj (List.cons.inj heq).2
      rw [ih hbody hrest]

/-! ## What is read is the longest lexeme -/

/-- A token that takes the longest lexeme at the front of a text. -/
structure Longest (source : List Char) (kind : TokenKind) (value : List Char) (length : Nat) :
    Prop where
  lexeme : ∃ text after, source = text ++ after ∧ text.length = length ∧ IsLexeme kind text value
  maximal : ∀ kind' longer value', IsLexeme kind' longer value' → longer <+: source →
    longer.length ≤ length

namespace Lexeme

/-- If a token is read from a text, it takes the longest lexeme. -/
def Greedy (source : List Char) (lexeme : Lexeme) : Prop :=
  ∀ kind value length, lexeme = .token kind value length → Longest source kind value length

/-- A fault is no token, so that there is nothing to compare it with. -/
theorem greedy_fault (source : List Char) (fault : LexicalFault) (start stop used : Nat) :
    Greedy source (.fault fault start stop used) := by
  intro kind value length h
  cases h

/-- A fixed token is the longest lexeme if no lexeme with its first character goes on for longer. -/
theorem greedy_fixed {c : Char} (cs : List Char) {after : List Char} {kind : TokenKind}
    (hfixed : (kind, String.ofList (c :: cs)) ∈ fixedTexts)
    (hlonger : ∀ kind' ds value', IsLexeme kind' (c :: ds) value' → ds <+: cs ++ after →
      ds.length ≤ cs.length) :
    Greedy (c :: (cs ++ after)) (plain kind (c :: cs)) := by
  intro kind' value length h
  obtain ⟨rfl, rfl, rfl⟩ := token.inj h
  refine ⟨⟨c :: cs, after, rfl, rfl, ?_⟩, fun kind' longer value' hlexeme hfront => ?_⟩
  · have hlexeme := IsLexeme.fixed hfixed
    rwa [String.toList_ofList] at hlexeme
  · cases longer with
    | nil => exact Nat.zero_le _
    | cons d ds =>
      obtain ⟨rfl, hds⟩ := List.cons_prefix_cons.mp hfront
      exact Nat.succ_le_succ (hlonger kind' ds value' hlexeme hds)

/-- An operator is the longest lexeme if no other operator at the front of the text is longer. -/
theorem greedy_operator {c : Char} (cs : List Char) {after : List Char} {kind : TokenKind}
    (hc : c ∈ operatorChars) (hfixed : (kind, String.ofList (c :: cs)) ∈ fixedTexts)
    (hlonger : ∀ p ∈ fixedTexts, ∀ ds, p.2.toList = c :: ds → ds <+: cs ++ after →
      ds.length ≤ cs.length) :
    Greedy (c :: (cs ++ after)) (plain kind (c :: cs)) := by
  refine greedy_fixed cs hfixed fun kind' ds value' hlexeme hds => ?_
  have hopened := hlexeme.first
  rw [Opening.of, if_pos hc] at hopened
  obtain ⟨p, hp, htext⟩ := hopened
  exact hlonger p hp ds htext hds

/-- A character that is a token of its own is the longest lexeme at its place. -/
theorem greedy_symbol {c : Char} {kind : TokenKind} (h : symbolKind? c = some kind)
    (rest : List Char) : Greedy (c :: rest) (plain kind [c]) := by
  have hentry : c ∈ operatorChars ∧ (kind, String.ofList [c]) ∈ fixedTexts ∧
      ∀ p ∈ fixedTexts, p.2.toList.head? = some c → p.2.toList.tail.length ≤ 0 := by
    unfold symbolKind? at h
    split at h <;> cases h <;> decide
  refine greedy_operator [] hentry.1 hentry.2.1 fun p hp ds htext _ => ?_
  have hlength := hentry.2.2 p hp (by rw [htext, List.head?_cons])
  rwa [htext] at hlength

/-- An operator of one character, and another one with a second character behind it. -/
theorem greedy_oneOrTwo {first second : Char} {single double : TokenKind}
    (hfirst : first ∈ operatorChars) (hsingle : (single, String.ofList [first]) ∈ fixedTexts)
    (hdouble : (double, String.ofList [first, second]) ∈ fixedTexts)
    (honly : ∀ p ∈ fixedTexts, p.2.toList.head? = some first →
      p.2.toList.tail = [] ∨ p.2.toList.tail = [second]) (rest : List Char) :
    Greedy (first :: rest) (oneOrTwo first second single double rest) := by
  have hbehind : ∀ p ∈ fixedTexts, ∀ ds, p.2.toList = first :: ds → ds = [] ∨ ds = [second] := by
    intro p hp ds htext
    have hboth := honly p hp (by rw [htext, List.head?_cons])
    rwa [htext] at hboth
  unfold oneOrTwo
  by_cases hhead : rest.head? = some second
  · rw [if_pos hhead]
    obtain ⟨tail, rfl⟩ := List.head?_eq_some_iff.mp hhead
    refine greedy_operator [second] hfirst hdouble fun p hp ds htext _ => ?_
    rcases hbehind p hp ds htext with rfl | rfl <;> simp
  · rw [if_neg hhead]
    refine greedy_operator [] hfirst hsingle fun p hp ds htext hds => ?_
    rcases hbehind p hp ds htext with rfl | rfl
    · exact Nat.le_refl _
    · -- The second character would stand behind the first.
      obtain ⟨tail, rfl⟩ := hds
      exact absurd rfl hhead

/-- An operator of twice the same character. -/
theorem greedy_twice {c : Char} {kind : TokenKind} (hc : c ∈ operatorChars)
    (hfixed : (kind, String.ofList [c, c]) ∈ fixedTexts)
    (honly : ∀ p ∈ fixedTexts, p.2.toList.head? = some c → p.2.toList.tail.length ≤ 1)
    {rest : List Char} (hhead : rest.head? = some c) : Greedy (c :: rest) (plain kind [c, c]) := by
  obtain ⟨tail, rfl⟩ := List.head?_eq_some_iff.mp hhead
  refine greedy_operator [c] hc hfixed fun p hp ds htext _ => ?_
  have hlength := honly p hp (by rw [htext, List.head?_cons])
  rwa [htext] at hlength

/-! ### Words and strings -/

/-- A part in front of a text that is all of a class is no longer than what is taken of that
class. -/
theorem length_le_takeWhile {p : Char → Bool} {front cs : List Char}
    (hfront : ∀ c ∈ front, p c = true) (h : front <+: cs) :
    front.length ≤ (cs.takeWhile p).length := by
  obtain ⟨after, rfl⟩ := h
  rw [List.takeWhile_append_of_pos hfront, List.length_append]
  exact Nat.le_add_right _ _

/-- A word is taken up to the last character that can go on a name. -/
theorem greedy_word {c : Char} (hc : isNameStart c = true) (rest : List Char) :
    Greedy (c :: rest) (word (c :: rest)) := by
  intro kind value length h
  obtain ⟨rfl, rfl, rfl⟩ := token.inj h
  have hpart : isNamePart c = true := by simp [isNamePart, hc]
  refine ⟨⟨_, _, (List.takeWhile_append_dropWhile (p := isNamePart)).symm, rfl, ?_⟩,
    fun kind' longer value' hlexeme hfront => ?_⟩
  · rw [List.takeWhile_cons_of_pos hpart]
    generalize hname : String.ofList (c :: rest.takeWhile isNamePart) = name
    have htext : c :: rest.takeWhile isNamePart = name.toList := by
      rw [← hname, String.toList_ofList]
    rw [htext]
    rcases TokenKind.ofWord_cases name with ⟨hlookup, hkind⟩ | hkeyword
    · rw [hkind]
      refine .identifier ?_
      rw [isName, ← htext, hlookup]
      simp [hc, List.all_takeWhile]
    · exact .keyword hkeyword
  · cases longer with
    | nil => exact Nat.zero_le _
    | cons d ds =>
      obtain rfl : d = c := (List.cons_prefix_cons.mp hfront).1
      have hopened := hlexeme.first
      rw [Opening.of_letter hc] at hopened
      exact length_le_takeWhile hopened hfront

/-- What an escape is read as stands in the table of escapes. -/
theorem mem_escapes_of_unescape? {e d : Char} (h : unescape? e = some d) : (e, d) ∈ escapes := by
  unfold unescape? at h
  split at h
  · rename_i he
    cases h
    subst he
    decide
  split at h
  · rename_i he
    cases h
    subst he
    decide
  split at h
  · rename_i he
    cases h
    subst he
    decide
  split at h
  · rename_i he
    cases h
    rcases he with rfl | rfl | rfl <;> decide
  · cases h

/-- What is read as a string is a quoted text up to its closing quote, and denotes what is read. -/
theorem quoted_of_stringFrom {quote : Char} {before : List Char} {used : Nat} {cs : List Char}
    {kind : TokenKind} {value : List Char} {length : Nat}
    (h : stringFrom quote before used cs = .token kind value length) :
    kind = .string ∧ ∃ body denoted after, cs = body ++ quote :: after ∧ Quoted quote body denoted ∧
      value = before.reverse ++ denoted ∧ length = used + body.length + 1 := by
  fun_induction stringFrom quote before used cs with
  | case2 before used after =>
    obtain ⟨rfl, rfl, rfl⟩ := token.inj h
    exact ⟨rfl, [], [], after, rfl, .nil, by simp, rfl⟩
  | case4 before used e after d hd _ ih =>
    obtain ⟨hkind, body, denoted, rest, hcs, hbody, hvalue, hlength⟩ := ih h
    refine ⟨hkind, '\\' :: e :: body, d :: denoted, rest, by simp [hcs],
      .escape (mem_escapes_of_unescape? hd) hbody, by simp [hvalue], ?_⟩
    simp only [List.length_cons]
    omega
  | case7 before used c after hquote hslash hline ih =>
    obtain ⟨hkind, body, denoted, rest, hcs, hbody, hvalue, hlength⟩ := ih h
    refine ⟨hkind, c :: body, c :: denoted, rest, by simp [hcs],
      .plain hquote hslash (by simpa using hline) hbody, by simp [hvalue], ?_⟩
    simp only [List.length_cons]
    omega
  | _ => simp at h

/-- The escapes of the table are read as the table says. -/
theorem unescape?_of_mem_escapes {e d : Char} (h : (e, d) ∈ escapes) : unescape? e = some d := by
  have hall : ∀ p ∈ escapes, unescape? p.1 = some p.2 := forall_mem_of_all (by decide)
  exact hall _ h

/-- The string that a quoted text denotes is what is read between the quotes. -/
theorem stringFrom_quoted {quote : Char} (hslash : quote ≠ '\\') {body value : List Char}
    (h : Quoted quote body value) (before : List Char) (used : Nat) (rest : List Char) :
    stringFrom quote before used (body ++ quote :: rest) =
      .token .string (before.reverse ++ value) (used + body.length + 1) := by
  induction h generalizing before used with
  | nil => simp [stringFrom.eq_def]
  | @plain c body value hquote hback hline _ ih =>
    rw [List.cons_append, stringFrom.eq_def]
    simp only [hquote, hback, hline, ↓reduceIte, Bool.false_eq_true, ih, List.reverse_cons,
      List.append_assoc, List.singleton_append, List.length_cons]
    congr 1
    omega
  | @escape e d body value hescape _ ih =>
    rw [List.cons_append, List.cons_append, stringFrom.eq_def]
    simp only [hslash.symm, ↓reduceIte, unescape?_of_mem_escapes hescape, ih, List.reverse_cons,
      List.append_assoc, List.singleton_append, List.length_cons]
    congr 1
    omega

/-- A quoted text is read as what it denotes, up to its closing quote and whatever follows it. -/
theorem read_quoted {quote : Char} (hquote : quote = '"' ∨ quote = '\'') {body value : List Char}
    (h : Quoted quote body value) (rest : List Char) :
    read quote (body ++ quote :: rest) = .token .string value (body.length + 2) := by
  have hslash : quote ≠ '\\' := by rcases hquote with rfl | rfl <;> decide
  have hread : read quote (body ++ quote :: rest) = stringFrom quote [] 1
      (body ++ quote :: rest) := by
    rcases hquote with rfl | rfl <;> rfl
  rw [hread, stringFrom_quoted hslash h, List.reverse_nil, List.nil_append]
  congr 1
  omega

/-- A string is taken up to the first quote that ends it. -/
theorem greedy_string {c : Char} (hc : c = '"' ∨ c = '\'') (rest : List Char) :
    Greedy (c :: rest) (stringFrom c [] 1 rest) := by
  intro kind value length h
  obtain ⟨rfl, body, denoted, after, rfl, hbody, rfl, rfl⟩ := quoted_of_stringFrom h
  refine ⟨⟨c :: body ++ [c], after, by simp, by simp; omega, .string hc hbody⟩,
    fun kind' longer value' hlexeme hfront => ?_⟩
  cases longer with
  | nil => exact Nat.zero_le _
  | cons d ds =>
    obtain ⟨rfl, after', hds⟩ := List.cons_prefix_cons.mp hfront
    have hclass : Opening.of d = .quote := by rcases hc with rfl | rfl <;> decide
    have hopened := hlexeme.first
    rw [hclass] at hopened
    obtain ⟨body', rfl, hbody'⟩ := hopened
    have hslash : d ≠ '\\' := by rcases hc with rfl | rfl <;> decide
    obtain rfl := hbody'.unique hslash hbody (by simpa using hds)
    simp only [List.length_cons, List.length_append, List.length_nil]
    omega

/-! ### Numbers -/

/-- The mantissa that is read from a text stands at its front. -/
theorem mantissa_isPrefix (cs : List Char) : mantissa cs <+: cs := by
  unfold mantissa
  have hwhole := List.takeWhile_append_dropWhile (p := isAsciiDigit) (l := cs)
  split
  · rename_i rest hrest
    rw [hrest] at hwhole
    by_cases hdigit : startsWithDigit rest = true
    · simp only [hdigit, ↓reduceIte]
      refine ⟨rest.dropWhile isAsciiDigit, ?_⟩
      rw [List.append_assoc, List.cons_append, List.takeWhile_append_dropWhile, hwhole]
    · simp only [hdigit]
      exact List.takeWhile_prefix _
  · exact List.takeWhile_prefix _

/-- The mark of an exponent that is read from a text stands at its front. -/
theorem exponentMark_isPrefix (cs : List Char) : exponentMark cs <+: cs := by
  unfold exponentMark
  split
  · split
    · split
      · split
        · exact ⟨_, rfl⟩
        · exact ⟨_, rfl⟩
      · exact ⟨_, rfl⟩
    · exact List.nil_prefix
  · exact List.nil_prefix

/-- No mantissa in front of a text is longer than the one that is taken. -/
theorem length_le_mantissa {base cs : List Char} (hbase : Mantissa base) (h : base <+: cs) :
    base.length ≤ (mantissa cs).length := by
  obtain ⟨after, rfl⟩ := h
  unfold mantissa
  cases hbase with
  | whole hds _ =>
    have hwhole : base.length ≤ ((base ++ after).takeWhile isAsciiDigit).length :=
      length_le_takeWhile hds ⟨after, rfl⟩
    split
    · split
      · rw [List.length_append]
        omega
      · exact hwhole
    · exact hwhole
  | @pointed ds es hds hes hne =>
    have hno : startsWithDigit ('.' :: (es ++ after)) = false := rfl
    have htaken : es.length ≤ ((es ++ after).takeWhile isAsciiDigit).length :=
      length_le_takeWhile hes ⟨after, rfl⟩
    rw [List.append_assoc, List.cons_append, hds.takeWhile_append hno, hds.dropWhile_append hno]
    simp only [startsWithDigit_append hes hne after, ↓reduceIte, List.length_append,
      List.length_cons]
    omega

/-- A mantissa consists of digits and points. -/
theorem digit_or_point_of_mem {base : List Char} (h : Mantissa base) :
    ∀ c ∈ base, isAsciiDigit c = true ∨ c = '.' := by
  intro c hc
  cases h with
  | whole hds _ => exact .inl (hds c hc)
  | pointed hds hes _ =>
    rcases List.mem_append.mp hc with hc | hc
    · exact .inl (hds c hc)
    · rcases List.mem_cons.mp hc with rfl | hc
      · exact .inr rfl
      · exact .inl (hes c hc)

/-- A mantissa with an exponent mark behind it is the mantissa that is taken: the mark is neither a
digit nor a point. -/
theorem mantissa_of_mark {base mark rest cs : List Char} (hbase : Mantissa base) (hmark : Mark mark)
    (hcs : Mantissa (mantissa cs)) (h : cs = base ++ (mark ++ rest)) : mantissa cs = base := by
  obtain ⟨more, hmore⟩ : base <+: mantissa cs :=
    List.prefix_of_prefix_length_le ⟨_, h.symm⟩ (mantissa_isPrefix cs)
      (length_le_mantissa hbase ⟨_, h.symm⟩)
  cases more with
  | nil => rw [← hmore, List.append_nil]
  | cons c more =>
    obtain ⟨after, hafter⟩ := mantissa_isPrefix cs
    rw [← hmore, List.append_assoc, h] at hafter
    have hrest := List.append_cancel_left hafter
    have hc : c = 'e' ∨ c = 'E' := by
      cases hmark with
      | plain hletter | signed hletter _ =>
        rw [(List.cons.inj hrest).1]
        exact hletter
    have hclass := digit_or_point_of_mem hcs c (by simp [← hmore])
    rcases hc with rfl | rfl <;> exact absurd hclass (by decide)

/-- The text of a number that is taken: a mantissa, the mark of an exponent and, behind a mark, all
the digits that follow. -/
theorem text_of_number {cs : List Char} {kind : TokenKind} {value : List Char} {length : Nat}
    (h : number cs = .token kind value length) :
    ∃ mark after, cs = mantissa cs ++ (mark ++ after) ∧ exponentMark (mark ++ after) = mark ∧
      value = mantissa cs ++ mark ++ if mark.isEmpty then [] else after.takeWhile isAsciiDigit := by
  obtain ⟨tail, htail⟩ := mantissa_isPrefix cs
  obtain ⟨after, hafter⟩ := exponentMark_isPrefix tail
  have hdrop : cs.drop (mantissa cs).length = tail := by
    have hleft : (mantissa cs ++ tail).drop (mantissa cs).length = tail := List.drop_left
    rwa [htail] at hleft
  have hdrop' : cs.drop ((mantissa cs).length + (exponentMark tail).length) = after := by
    have hleft : (exponentMark tail ++ after).drop (exponentMark tail).length = after :=
      List.drop_left
    rwa [hafter, ← hdrop, List.drop_drop, hdrop] at hleft
  refine ⟨exponentMark tail, after, by rw [hafter, htail], by rw [hafter], ?_⟩
  generalize hdigits : (if (exponentMark tail).isEmpty then [] else after.takeWhile
    isAsciiDigit) = digits
  rw [← hdrop'] at hdigits
  rw [number_eq rfl (congrArg exponentMark hdrop) hdigits] at h
  split at h
  · cases h
  · split at h
    · split at h
      · cases h
      · exact (token.inj h).2.1.symm
    · exact (token.inj h).2.1.symm

/-- The text that is taken as a number stands in front. -/
theorem number_isPrefix {cs : List Char} {kind : TokenKind} {value : List Char} {length : Nat}
    (h : number cs = .token kind value length) : value <+: cs := by
  obtain ⟨mark, after, hcs, -, hvalue⟩ := text_of_number h
  have hdigits : (if mark.isEmpty then [] else after.takeWhile isAsciiDigit) <+: after := by
    split
    · exact List.nil_prefix
    · exact List.takeWhile_prefix _
  obtain ⟨more, hmore⟩ := hdigits
  refine ⟨more, ?_⟩
  rw [hvalue, List.append_assoc, List.append_assoc, hmore, ← hcs]

/-- No numeral in front of a text is longer than the number that is taken. -/
theorem length_le_number {cs : List Char} (hbase : Mantissa (mantissa cs)) {kind : TokenKind}
    {value : List Char} {length : Nat} (h : number cs = .token kind value length)
    {longer : List Char} (hlonger : Numeral longer) (hfront : longer <+: cs) :
    longer.length ≤ value.length := by
  obtain ⟨mark, after, hcs, hmark, rfl⟩ := text_of_number h
  obtain ⟨base, exponent, hbase', hexponent, rfl⟩ := hlonger
  obtain ⟨rest, hrest⟩ := hfront
  cases hexponent with
  | none =>
    rw [List.append_nil] at hrest
    have hlength := length_le_mantissa hbase' ⟨rest, hrest⟩
    simp only [List.append_nil, List.length_append]
    omega
  | @some mark' ds hmark' hds hne =>
    have htext : cs = base ++ (mark' ++ (ds ++ rest)) := by rw [← hrest]; simp
    have hsame := mantissa_of_mark hbase' hmark' hbase htext
    -- Behind equal mantissas stand equal marks, and then the digits.
    rw [hsame] at hcs ⊢
    have hbehind : mark' ++ (ds ++ rest) = mark ++ after :=
      List.append_cancel_left (htext.symm.trans hcs)
    have hmarks : mark = mark' := by
      rw [← hmark, ← hbehind, ← List.append_assoc]
      exact exponentMark_append hmark' hds hne rest
    subst hmarks
    obtain rfl := List.append_cancel_left hbehind
    have hnonempty : mark.isEmpty = false := by cases hmark' <;> rfl
    have hlength := length_le_takeWhile hds (List.prefix_append ds rest)
    simp only [hnonempty, List.length_append]
    simp only [Bool.false_eq_true, ↓reduceIte]
    omega

/-- A number is taken with all its digits and its exponent, if nothing but numerals can be longer
than a character there. -/
theorem greedy_number {cs : List Char}
    (hcs : startsWithDigit cs = true ∨ ∃ rest, cs = '.' :: rest ∧ startsWithDigit rest = true)
    (hclass : ∀ kind longer value, IsLexeme kind longer value → longer <+: cs →
      longer.length ≤ 1 ∨ Numeral longer) : Greedy cs (number cs) := by
  intro kind value length h
  obtain ⟨hnumeral, hplain⟩ := numeral_of_number hcs h
  obtain ⟨rfl, -, rfl⟩ := token.inj hplain
  obtain ⟨after, hafter⟩ := number_isPrefix h
  refine ⟨⟨value, after, hafter.symm, rfl, .number hnumeral⟩,
    fun kind' longer value' hlexeme hfront => ?_⟩
  rcases hclass kind' longer value' hlexeme hfront with hshort | hlonger
  · obtain ⟨c, rest, rfl, -⟩ := hnumeral.first
    rw [List.length_cons]
    omega
  · exact length_le_number (mantissa_mantissa hcs) h hlonger hfront

/-- What starts with a digit is a number. -/
theorem greedy_digit {c : Char} (hc : isAsciiDigit c = true) (rest : List Char) :
    Greedy (c :: rest) (number (c :: rest)) := by
  refine greedy_number (.inl hc) fun kind longer value hlexeme hfront => ?_
  cases longer with
  | nil => exact .inl (Nat.zero_le _)
  | cons d ds =>
    obtain rfl : d = c := (List.cons_prefix_cons.mp hfront).1
    have hopened := hlexeme.first
    rw [Opening.of_digit hc] at hopened
    exact .inr hopened

/-- The fixed tokens that start with a point go on with a second one. -/
theorem fixed_of_point {text : List Char} {p : TokenKind × String} (hp : p ∈ fixedTexts)
    (htext : p.2.toList = '.' :: text) : text = ['.'] ∨ text = ['.', '='] := by
  have hall : ∀ p ∈ fixedTexts, p.2.toList.head? = some '.' →
      p.2.toList = ['.', '.'] ∨ p.2.toList = ['.', '.', '='] := by decide
  rcases hall p hp (by rw [htext, List.head?_cons]) with h | h
  · exact .inl (List.cons.inj (htext.symm.trans h)).2
  · exact .inr (List.cons.inj (htext.symm.trans h)).2

/-- What starts with a point is a number if a digit follows, and else an operator of two points,
with an equals sign if one follows. -/
theorem greedy_point (rest : List Char) : Greedy ('.' :: rest) (point rest) := by
  -- A lexeme that starts with a point is a fixed token, or a digit follows the point.
  have hclass : ∀ {kind longer value}, IsLexeme kind ('.' :: longer) value → longer <+: rest →
      (longer = ['.'] ∨ longer = ['.', '=']) ∨
        (Numeral ('.' :: longer) ∧ startsWithDigit rest = true) := by
    intro kind longer value hlexeme hfront
    rcases hlexeme.first with ⟨p, hp, htext⟩ | hnumeral
    · exact .inl (fixed_of_point hp htext)
    · obtain ⟨after, rfl⟩ := hfront
      have hdigit := hnumeral.startsWithDigit_of_point
      cases longer with
      | nil => cases hdigit
      | cons d ds => exact .inr ⟨hnumeral, hdigit⟩
  unfold point
  by_cases hdigit : startsWithDigit rest = true
  · rw [if_pos hdigit]
    refine greedy_number (.inr ⟨rest, rfl, hdigit⟩) fun kind longer value hlexeme hfront => ?_
    cases longer with
    | nil => exact .inl (Nat.zero_le _)
    | cons d ds =>
      obtain ⟨rfl, hds⟩ := List.cons_prefix_cons.mp hfront
      rcases hclass hlexeme hds with hdots | ⟨hnumeral, -⟩
      · -- Two points in a row leave no room for the digit.
        obtain ⟨after, rfl⟩ := hds
        rcases hdots with rfl | rfl <;>
          exact absurd hdigit (by simp [startsWithDigit, isAsciiDigit])
      · exact .inr hnumeral
  · rw [if_neg hdigit]
    have hdots : ∀ kind' ds value', IsLexeme kind' ('.' :: ds) value' → ds <+: rest →
        ds = ['.'] ∨ ds = ['.', '='] := by
      intro kind' ds value' hlexeme hds
      exact (hclass hlexeme hds).resolve_right fun h => hdigit h.2
    split
    · refine greedy_fixed ['.', '='] (by decide) fun kind' ds value' hlexeme hds => ?_
      rcases hdots kind' ds value' hlexeme hds with rfl | rfl <;> simp
    · rename_i hno
      refine greedy_fixed ['.'] (by decide) fun kind' ds value' hlexeme hds => ?_
      rcases hdots kind' ds value' hlexeme hds with rfl | rfl
      · exact Nat.le_refl _
      · obtain ⟨after, hafter⟩ := (List.cons_prefix_cons.mp hds).2
        exact absurd hafter.symm (hno after)
    · exact greedy_fault _ _ _ _ _

/-! ### All lexemes -/

/-- What is read at the front of a text takes the longest lexeme: one case for each kind of first
character. -/
theorem greedy_read (c : Char) (rest : List Char) : Greedy (c :: rest) (read c rest) := by
  unfold read
  cases hsymbol : symbolKind? c with
  | some kind => exact greedy_symbol hsymbol rest
  | none =>
    dsimp only
    refine iteInduction (fun hc => ?_) fun _ => ?_
    · subst hc
      exact greedy_oneOrTwo (by decide) (by decide) (by decide) (by decide) rest
    refine iteInduction (fun hc => ?_) fun _ => ?_
    · subst hc
      exact greedy_oneOrTwo (by decide) (by decide) (by decide) (by decide) rest
    refine iteInduction (fun hc => ?_) fun _ => ?_
    · subst hc
      exact greedy_oneOrTwo (by decide) (by decide) (by decide) (by decide) rest
    refine iteInduction (fun hc => ?_) fun _ => ?_
    · subst hc
      exact greedy_oneOrTwo (by decide) (by decide) (by decide) (by decide) rest
    refine iteInduction (fun hc => ?_) fun _ => ?_
    · subst hc
      exact iteInduction (fun hhead => greedy_twice (by decide) (by decide) (by decide) hhead)
        fun _ => greedy_fault _ _ _ _ _
    refine iteInduction (fun hc => ?_) fun _ => ?_
    · subst hc
      exact iteInduction (fun hhead => greedy_twice (by decide) (by decide) (by decide) hhead)
        fun _ => greedy_fault _ _ _ _ _
    refine iteInduction (fun hc => hc ▸ greedy_point rest) fun _ => ?_
    refine iteInduction (fun hc => greedy_string hc rest) fun _ => ?_
    refine iteInduction (fun hc => greedy_digit hc rest) fun _ => ?_
    exact iteInduction (fun hc => greedy_word hc rest) fun _ => greedy_fault _ _ _ _ _

/-- Every token that is read takes the longest lexeme at the front of the text. -/
theorem read_longest {c : Char} {rest : List Char} {kind : TokenKind} {value : List Char}
    {length : Nat} (h : read c rest = .token kind value length) :
    Longest (c :: rest) kind value length :=
  greedy_read c rest kind value length h

end Lexeme

end Formulary
