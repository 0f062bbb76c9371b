import Formulary.Proofs.Grammar
import Formulary.Proofs.Numeral
import Formulary.Token.Scanner

/-!
# The symbols of a text

`Scans` says which symbols a text is made of: trivia is skipped, and the lexeme behind it is a
token.  The scanner yields exactly these symbols and then the end token, unless a string is over its
limit (`Cursor.tokens_of_scans` and `Cursor.scans_of_tokens`).  What a lexeme can be is said once,
by `Lexeme.Proper`: a number is a numeral, an identifier is a name, and the end token is no lexeme.
-/

set_option autoImplicit false

namespace Formulary

open Formulary.Text

/-- A word is an identifier, or its kind is that of a keyword. -/
theorem TokenKind.ofWord_cases (word : String) :
    (keywords.lookup word = none ∧ ofWord word = .identifier) ∨ (word, ofWord word) ∈ keywords := by
  unfold ofWord
  cases hlookup : keywords.lookup word with
  | none => exact .inl ⟨rfl, rfl⟩
  | some kind =>
    obtain ⟨before, after, hsplit, -⟩ := List.lookup_eq_some_iff.mp hlookup
    rw [hsplit]
    exact .inr (by simp)

/-- Whether a text is a name: a letter or an underscore, then letters, digits and underscores, and
no keyword. -/
def isName (name : String) : Bool :=
  (match name.toList with
    | first :: rest => isNameStart first && rest.all isNamePart
    | [] => false)
  && (TokenKind.keywords.lookup name).isNone

namespace Lexeme

/-- What is true of every token that is read from a text: it uses up some of it, a number is a
numeral, an identifier is a name, a string is no longer than the text, and it is not the end
token. -/
structure Proper (text : List Char) (kind : TokenKind) (value : List Char)
    (length : Nat) : Prop where
  length_pos : 0 < length
  numeral : kind = .number → Numeral value
  name : kind = .identifier → isName (String.ofList value) = true
  string : kind = .string → value.length ≤ text.length
  ne_eof : kind ≠ .eof

/-- A string that is read to its end is a string token that uses up something, no longer than what
was read. -/
theorem stringFrom_proper {quote : Char} {before : List Char} {used : Nat} {cs : List Char}
    {kind : TokenKind} {value : List Char} {length : Nat}
    (h : stringFrom quote before used cs = .token kind value length) :
    kind = .string ∧ 0 < length ∧ value.length ≤ before.length + cs.length := by
  fun_induction stringFrom quote before used cs with
  | case2 =>
    obtain ⟨rfl, rfl, rfl⟩ := token.inj h
    exact ⟨rfl, by omega, by simp⟩
  | case4 _ _ _ _ _ _ _ ih =>
    obtain ⟨hkind, hlength, hvalue⟩ := ih h
    simp only [List.length_cons] at hvalue ⊢
    exact ⟨hkind, hlength, by omega⟩
  | case7 _ _ _ _ _ _ _ ih =>
    obtain ⟨hkind, hlength, hvalue⟩ := ih h
    simp only [List.length_cons] at hvalue ⊢
    exact ⟨hkind, hlength, by omega⟩
  | _ => simp at h

/-- What is read from a text is a proper token, if it is a token. -/
def Sound (text : List Char) (lexeme : Lexeme) : Prop :=
  ∀ kind value length, lexeme = .token kind value length → Proper text kind value length

/-- A fault is no token, so that nothing is required of it. -/
theorem sound_fault (text : List Char) (fault : LexicalFault) (start stop used : Nat) :
    Sound text (.fault fault start stop used) := by
  intro kind value length h
  cases h

/-- The kinds of which nothing more than their tokens having a text is required. -/
def Fixed (kind : TokenKind) : Prop :=
  kind ≠ .number ∧ kind ≠ .identifier ∧ kind ≠ .string ∧ kind ≠ .eof

/-- It is decidable whether nothing more than a text is required of the tokens of a kind. -/
instance (kind : TokenKind) : Decidable (Fixed kind) :=
  inferInstanceAs (Decidable (_ ∧ _))

/-- A token of a fixed kind is proper as soon as it has a text. -/
theorem sound_plain (text : List Char) {kind : TokenKind} (hkind : Fixed kind) (c : Char)
    (cs : List Char) : Sound text (plain kind (c :: cs)) := by
  intro kind' value length h
  obtain ⟨rfl, rfl, rfl⟩ := token.inj h
  exact ⟨Nat.zero_lt_succ _, fun h => absurd h hkind.1, fun h => absurd h hkind.2.1,
    fun h => absurd h hkind.2.2.1, hkind.2.2.2⟩

/-- The single characters that are tokens are of fixed kinds. -/
theorem fixed_of_symbolKind? {c : Char} {kind : TokenKind} (h : symbolKind? c = some kind) :
    Fixed kind := by
  unfold symbolKind? at h
  split at h <;> cases h <;> decide

/-- A token of one or two fixed characters is proper. -/
theorem sound_oneOrTwo (text : List Char) (first second : Char) {single double : TokenKind}
    (hsingle : Fixed single) (hdouble : Fixed double) (rest : List Char) :
    Sound text (oneOrTwo first second single double rest) :=
  iteInduction (fun _ => sound_plain text hdouble first [second]) fun _ =>
    sound_plain text hsingle first []

/-- What is read from a digit, or from a point with a digit behind it, is a numeral. -/
theorem sound_number {text cs : List Char}
    (hcs : startsWithDigit cs = true ∨ ∃ rest, cs = '.' :: rest ∧ startsWithDigit rest = true) :
    Sound text (number cs) := by
  intro kind value length h
  obtain ⟨hnumeral, hplain⟩ := numeral_of_number hcs h
  obtain ⟨rfl, -, rfl⟩ := token.inj hplain
  obtain ⟨c, rest, rfl, -⟩ := hnumeral.first
  exact ⟨by simp, fun _ => hnumeral, by simp, by simp, by simp⟩

/-- What is read from a point is a proper token, if it is a token. -/
theorem sound_point (text rest : List Char) : Sound text (point rest) := by
  refine iteInduction (fun hdigit => sound_number (.inr ⟨rest, rfl, hdigit⟩)) fun _ => ?_
  split
  · exact sound_plain text (by decide) '.' ['.', '=']
  · exact sound_plain text (by decide) '.' ['.']
  · exact sound_fault text _ _ _ _

/-- What is read from a quote is a string no longer than the text, if it is a token. -/
theorem sound_string (c quote : Char) (rest : List Char) :
    Sound (c :: rest) (stringFrom quote [] 1 rest) := by
  intro kind value length h
  obtain ⟨rfl, hlength, hvalue⟩ := stringFrom_proper h
  have hshorter : value.length ≤ (c :: rest).length := by
    rw [List.length_nil] at hvalue
    rw [List.length_cons]
    omega
  exact ⟨hlength, by simp, by simp, fun _ => hshorter, by simp⟩

/-- What is read from the start of a name is a keyword or a name. -/
theorem sound_word (text : List Char) {c : Char} (hc : isNameStart c = true) (rest : List Char) :
    Sound text (word (c :: rest)) := by
  intro kind value length h
  obtain ⟨rfl, rfl, rfl⟩ := token.inj h
  have hpart : isNamePart c = true := by simp [isNamePart, hc]
  rw [List.takeWhile_cons_of_pos hpart]
  have hkinds : ∀ p ∈ TokenKind.keywords, Fixed p.2 := by decide
  rcases TokenKind.ofWord_cases (String.ofList (c :: rest.takeWhile isNamePart)) with
    ⟨hlookup, hword⟩ | hword
  · rw [hword]
    refine ⟨by simp, by simp, fun _ => ?_, by simp, by simp⟩
    rw [isName, hlookup, String.toList_ofList]
    simp [hc, List.all_takeWhile]
  · exact sound_plain text (hkinds _ hword) c _ _ _ _ rfl

/-- Whatever is read is sound: one case for each kind of first character. -/
theorem sound_read (c : Char) (rest : List Char) : Sound (c :: rest) (read c rest) := by
  unfold read
  cases hsymbol : symbolKind? c with
  | some symbol => exact sound_plain _ (fixed_of_symbolKind? hsymbol) c []
  | none =>
    dsimp only
    -- The operators of one or two characters.
    refine iteInduction (fun _ => sound_oneOrTwo _ c '=' (by decide) (by decide) rest) fun _ => ?_
    refine iteInduction (fun _ => sound_oneOrTwo _ c '=' (by decide) (by decide) rest) fun _ => ?_
    refine iteInduction (fun _ => sound_oneOrTwo _ c '=' (by decide) (by decide) rest) fun _ => ?_
    refine iteInduction (fun _ => sound_oneOrTwo _ c '=' (by decide) (by decide) rest) fun _ => ?_
    refine iteInduction (fun _ => iteInduction (fun _ => sound_plain _ (by decide) '&' ['&'])
      fun _ => sound_fault _ _ _ _ _) fun _ => ?_
    refine iteInduction (fun _ => iteInduction (fun _ => sound_plain _ (by decide) '|' ['|'])
      fun _ => sound_fault _ _ _ _ _) fun _ => ?_
    refine iteInduction (fun _ => sound_point _ rest) fun _ => ?_
    refine iteInduction (fun _ => sound_string c c rest) fun _ => ?_
    refine iteInduction (fun hdigit => sound_number (.inl hdigit)) fun _ => ?_
    exact iteInduction (fun hname => sound_word _ hname rest) fun _ => sound_fault _ _ _ _ _

/-- Every token that is read from a text is proper. -/
theorem read_proper {c : Char} {rest : List Char} {kind : TokenKind} {value : List Char}
    {length : Nat} (h : read c rest = .token kind value length) :
    Proper (c :: rest) kind value length :=
  sound_read c rest kind value length h

end Lexeme

/-! ## The symbols of a text -/

/-- The symbols that a text is made of. -/
inductive Scans : List Char → List Symbol → Prop
  | done {cs} : skipTrivia cs = [] → Scans cs []
  | token {cs c rest kind value length xs} : skipTrivia cs = c :: rest →
      Lexeme.read c rest = .token kind value length → Scans ((c :: rest).drop length) xs →
      Scans cs (⟨kind, String.ofList value⟩ :: xs)

/-- Skipping blanks and comments never makes a text longer. -/
theorem skipTrivia_length_le (cs : List Char) :
    (skipTrivia cs).length ≤ cs.length ∧ (skipComment cs).length ≤ cs.length := by
  induction cs with
  | nil => simp [skipTrivia, skipComment]
  | cons c cs ih =>
    rw [skipTrivia, skipComment, List.length_cons]
    constructor
    · split
      · omega
      · split
        · omega
        · simp
    · split <;> omega

/-- What follows a lexeme is shorter than the text in front of which trivia may stand. -/
theorem length_after_lexeme {cs : List Char} {c : Char} {rest : List Char} {kind : TokenKind}
    {value : List Char} {length : Nat} (hskip : skipTrivia cs = c :: rest)
    (hread : Lexeme.read c rest = .token kind value length) :
    ((c :: rest).drop length).length < cs.length := by
  have hpositive := (Lexeme.read_proper hread).length_pos
  have hlength := (skipTrivia_length_le cs).1
  rw [hskip, List.length_cons] at hlength
  rw [List.length_drop, List.length_cons]
  omega

/-- The symbols of a text have numerals for numbers and names for identifiers, and the end token is
none of them. -/
theorem Scans.proper {cs : List Char} {xs : List Symbol} (h : Scans cs xs) :
    ∀ x ∈ xs, (x.kind = .number → Numeral x.value.toList) ∧
      (x.kind = .identifier → isName x.value = true) ∧ x.kind ≠ .eof := by
  induction h with
  | done => simp
  | token _ hread _ ih =>
    intro x hx
    rcases List.mem_cons.mp hx with rfl | hx
    · have hproper := Lexeme.read_proper hread
      exact ⟨fun h => by simpa using hproper.numeral h, hproper.name, hproper.ne_eof⟩
    · exact ih x hx

/-- A text has no more symbols than characters, and no string in it is longer than it is. -/
theorem Scans.length_le {cs : List Char} {xs : List Symbol} (h : Scans cs xs) :
    xs.length ≤ cs.length ∧ ∀ x ∈ xs, x.kind = .string → x.value.length ≤ cs.length := by
  induction h with
  | done => simp
  | @token cs c rest kind value length xs hskip hread _ ih =>
    have hafter := length_after_lexeme hskip hread
    refine ⟨by rw [List.length_cons]; omega, fun x hx hkind => ?_⟩
    rcases List.mem_cons.mp hx with rfl | hx
    · have hvalue := (Lexeme.read_proper hread).string hkind
      have hlength := (skipTrivia_length_le cs).1
      rw [hskip] at hlength
      rw [String.length_ofList]
      omega
    · have hx' := ih.2 x hx hkind
      omega

namespace Cursor

/-- If nothing but blanks and comments are left, the next token is the end token. -/
theorem next_of_end (limits : Limits) {c : Cursor} (h : c.skip.rest = []) :
    c.next limits = (.ok (eofAt c.skip.position), c.skip) := by
  simp only [next, h]

/-- If a character is left behind blanks and comments, the next token is the lexeme that starts
there. -/
theorem next_of_lexeme (limits : Limits) {c : Cursor} {first : Char} {rest : List Char}
    (h : c.skip.rest = first :: rest) :
    c.next limits = (accept limits c.skip.position (Lexeme.read first rest),
      c.skip.advance (Lexeme.read first rest).length) := by
  simp only [next, h]

/-- A token is accepted, unless it is a string over its limit. -/
theorem accept_cases (limits : Limits) (position : Nat) (kind : TokenKind) (value : List Char)
    (length : Nat) :
    accept limits position (.token kind value length) =
        .ok ⟨kind, String.ofList value, ⟨position, (position + length : Nat)⟩⟩ ∨
      accept limits position (.token kind value length) =
          .error (.limit (limits.exceeded .stringLength value.length)) ∧
        kind = .string ∧ limits.bound .stringLength < value.length := by
  rw [accept]
  by_cases hkind : kind = .string
  · rw [if_pos hkind, Limits.check]
    by_cases hover : limits.bound .stringLength < value.length
    · rw [if_pos hover]
      exact .inr ⟨rfl, hkind, hover⟩
    · rw [if_neg hover]
      exact .inl rfl
  · rw [if_neg hkind]
    exact .inl rfl

/-- At a lexeme that is within the limit for strings the cursor yields its token, which spans the
lexeme. -/
theorem next_of_token {limits : Limits} {c : Cursor} {first : Char} {rest : List Char}
    {kind : TokenKind} {value : List Char} {length : Nat} (hskip : c.skip.rest = first :: rest)
    (hread : Lexeme.read first rest = .token kind value length)
    (hstring : kind = .string → (value.length : Int) ≤ limits.bound .stringLength) :
    c.next limits =
      (.ok ⟨kind, String.ofList value, ⟨c.skip.position, (c.skip.position + length : Nat)⟩⟩,
        c.skip.advance length) := by
  rw [next_of_lexeme limits hskip, hread]
  rcases accept_cases limits c.skip.position kind value length with haccept | ⟨-, hkind, hover⟩
  · rw [haccept]
    rfl
  · exact absurd (hstring hkind) (Int.not_le.mpr hover)

/-- At a lexeme the cursor yields its token and moves past it, or fails by the limit for strings. -/
theorem next_of_read (limits : Limits) {c : Cursor} {first : Char} {rest : List Char}
    {kind : TokenKind} {value : List Char} {length : Nat}
    (hskip : skipTrivia c.rest = first :: rest)
    (hread : Lexeme.read first rest = .token kind value length) :
    (∃ token after, c.next limits = (.ok token, after) ∧
      token.symbol = ⟨kind, String.ofList value⟩ ∧ after.rest = (first :: rest).drop length) ∨
    (∃ after, c.next limits =
        (.error (.limit (limits.exceeded .stringLength value.length)), after) ∧
      kind = .string ∧ limits.bound .stringLength < value.length) := by
  have hfront : c.skip.rest = first :: rest := hskip
  have hnext := next_of_lexeme limits hfront
  rw [hread] at hnext
  rcases accept_cases limits c.skip.position kind value length with haccept | ⟨haccept, hover⟩
  · rw [haccept] at hnext
    exact .inl ⟨_, _, hnext, rfl, congrArg (List.drop length) hfront⟩
  · rw [haccept] at hnext
    exact .inr ⟨_, hnext, hover⟩

/-- If nothing but blanks and comments are left, the cursor yields an end token. -/
theorem next_of_done (limits : Limits) {c : Cursor} (hskip : skipTrivia c.rest = []) :
    ∃ eof after, c.next limits = (.ok eof, after) ∧ eof.kind = .eof :=
  ⟨_, _, next_of_end limits hskip, rfl⟩

/-- What the cursor yields is the end token behind trivia, or the token of a lexeme, where it
stands. -/
theorem next_located {limits : Limits} {c after : Cursor} {token : Token}
    (h : c.next limits = (.ok token, after)) :
    (skipTrivia c.rest = [] ∧ token = eofAt c.skip.position) ∨
      ∃ first rest kind value length, skipTrivia c.rest = first :: rest ∧
        Lexeme.read first rest = .token kind value length ∧
        token = ⟨kind, String.ofList value, ⟨c.skip.position, (c.skip.position + length : Nat)⟩⟩ ∧
        after = c.skip.advance length := by
  cases hfront : c.skip.rest with
  | nil =>
    rw [next_of_end limits hfront] at h
    obtain ⟨htoken, -⟩ := Prod.mk.inj h
    exact .inl ⟨hfront, (Except.ok.inj htoken).symm⟩
  | cons first rest =>
    rw [next_of_lexeme limits hfront] at h
    obtain ⟨htoken, rfl⟩ := Prod.mk.inj h
    cases hread : Lexeme.read first rest with
    | fault fault start stop length =>
      rw [hread] at htoken
      cases htoken
    | token kind value length =>
      rw [hread] at htoken
      refine .inr ⟨first, rest, kind, value, length, hfront, hread, ?_, rfl⟩
      rcases accept_cases limits c.skip.position kind value length with haccept | ⟨haccept, -⟩
      · exact (Except.ok.inj (haccept.symm.trans htoken)).symm
      · cases haccept.symm.trans htoken

/-- What a cursor can yield: an end token where nothing is left, or a token for the lexeme that
comes next. -/
theorem next_cases {limits : Limits} {c after : Cursor} {token : Token}
    (h : c.next limits = (.ok token, after)) :
    (skipTrivia c.rest = [] ∧ token.kind = .eof) ∨
      ∃ first rest kind value length, skipTrivia c.rest = first :: rest ∧
        Lexeme.read first rest = .token kind value length ∧
        token.symbol = ⟨kind, String.ofList value⟩ ∧ after.rest = (first :: rest).drop length := by
  rcases next_located h with ⟨hskip, rfl⟩ |
    ⟨first, rest, kind, value, length, hskip, hread, rfl, rfl⟩
  · exact .inl ⟨hskip, rfl⟩
  · exact .inr ⟨first, rest, kind, value, length, hskip, hread, rfl,
      congrArg (List.drop length) hskip⟩

/-- The scanner yields the symbols that a text is made of, and then the end token, unless a string
is over its limit. -/
theorem tokens_of_scans (limits : Limits) {cs : List Char} {xs : List Symbol}
    (h : Scans cs xs) (count : Nat) (c : Cursor) (hc : c.rest = cs) (hcount : cs.length ≤ count) :
    (∃ body eof, c.tokens limits count = .ok (body ++ [eof]) ∧ body.map Token.symbol = xs ∧
      eof.kind = .eof) ∨
    (∃ x ∈ xs, c.tokens limits count =
        .error (.limit (limits.exceeded .stringLength x.value.length)) ∧
      x.kind = .string ∧ limits.bound .stringLength < x.value.length) := by
  induction h generalizing count c with
  | done hskip =>
    subst hc
    refine .inl ?_
    cases count with
    | zero => exact ⟨[], _, rfl, rfl, rfl⟩
    | succ count =>
      obtain ⟨eof, after, hnext, heof⟩ := next_of_done limits hskip
      exact ⟨[], eof, by simp [tokens, hnext, heof], rfl, heof⟩
  | @token cs first rest kind value length xs hskip hread _ ih =>
    subst hc
    have hlength := length_after_lexeme hskip hread
    obtain ⟨count, rfl⟩ : ∃ n, count = n + 1 := ⟨count - 1, by omega⟩
    rcases next_of_read limits hskip hread with ⟨token, after, hnext, htoken, hafter⟩ |
      ⟨after, hnext, hkind, hlimit⟩
    · have hkind : token.kind ≠ .eof := by
        have hsame : token.kind = kind := congrArg Symbol.kind htoken
        rw [hsame]
        exact (Lexeme.read_proper hread).ne_eof
      rcases ih count after hafter (by omega) with ⟨body, eof, hbody, hsymbols, heof⟩ |
        ⟨x, hx, herror, hlong⟩
      · refine .inl ⟨token :: body, eof, ?_, by simp [htoken, hsymbols], heof⟩
        simp [tokens, hnext, hkind, hbody, Except.map]
      · refine .inr ⟨x, List.mem_cons_of_mem _ hx, ?_, hlong⟩
        simp [tokens, hnext, hkind, herror, Except.map]
    · refine .inr ⟨_, List.mem_cons_self, ?_, hkind, ?_⟩
      · simp [tokens, hnext, String.length_ofList]
      · simpa [String.length_ofList] using hlimit

/-- Where tokens are read, the first step yields the end token and there are no others, or it yields
another token and the rest is read behind it. -/
theorem tokens_succ_eq_ok {limits : Limits} {count : Nat} {c : Cursor} {tokens : List Token}
    (h : c.tokens limits (count + 1) = .ok tokens) :
    ∃ token after, c.next limits = (.ok token, after) ∧
      ((token.kind = .eof ∧ tokens = [token]) ∨
        (token.kind ≠ .eof ∧
          ∃ more, after.tokens limits count = .ok more ∧ tokens = token :: more)) := by
  rw [Cursor.tokens] at h
  rcases hnext : c.next limits with ⟨result, after⟩
  rw [hnext] at h
  cases result with
  | error failure => cases h
  | ok token =>
    refine ⟨token, after, rfl, ?_⟩
    dsimp only at h
    by_cases heof : token.kind = .eof
    · rw [if_pos heof] at h
      exact .inl ⟨heof, (Except.ok.inj h).symm⟩
    · rw [if_neg heof] at h
      cases hmore : after.tokens limits count with
      | error failure =>
        rw [hmore] at h
        cases h
      | ok more =>
        rw [hmore] at h
        exact .inr ⟨heof, more, rfl, (Except.ok.inj h).symm⟩

/-- What the scanner yields is the symbols that a text is made of, and then the end token. -/
theorem scans_of_tokens {limits : Limits} {count : Nat} {c : Cursor} {tokens : List Token}
    (h : c.tokens limits count = .ok tokens) (hcount : c.rest.length ≤ count) :
    ∃ body eof, tokens = body ++ [eof] ∧ Scans c.rest (body.map Token.symbol) ∧
      eof.kind = .eof := by
  -- As long as there are no more characters than `count`, the end of the text is reached before it
  -- runs out.
  induction count generalizing c tokens with
  | zero =>
    obtain rfl := Except.ok.inj h
    have hnil : c.rest = [] := List.eq_nil_of_length_eq_zero (Nat.le_zero.mp hcount)
    exact ⟨[], _, rfl, .done (by simp [hnil, skipTrivia]), rfl⟩
  | succ count ih =>
    obtain ⟨token, after, hnext, ⟨heof, rfl⟩ | ⟨hkind, more, hmore, rfl⟩⟩ := tokens_succ_eq_ok h
    · rcases next_cases hnext with ⟨hskip, -⟩ |
        ⟨first, rest, kind, value, length, -, hread, htoken, -⟩
      · exact ⟨[], token, rfl, .done hskip, heof⟩
      · have hsame : token.kind = kind := congrArg Symbol.kind htoken
        exact absurd (hsame ▸ heof) (Lexeme.read_proper hread).ne_eof
    · rcases next_cases hnext with ⟨-, heof⟩ |
        ⟨first, rest, kind, value, length, hskip, hread, htoken, hafter⟩
      · exact absurd heof hkind
      · have hlength := length_after_lexeme hskip hread
        obtain ⟨body, eof, rfl, hscans, heof⟩ := ih hmore (by rw [hafter]; omega)
        refine ⟨token :: body, eof, rfl, ?_, heof⟩
        rw [List.map_cons, htoken]
        exact .token hskip hread (hafter ▸ hscans)

end Cursor

/-- A source that is too long is not scanned. -/
theorem tokenize_of_tooLong {source : String} {limits : Limits}
    (h : limits.bound .expressionLength < (source.length : Int)) :
    tokenize source limits =
      .error ⟨limits.exceeded .expressionLength source.length, .unknown⟩ := by
  rw [tokenize, openSource, Limits.check, if_pos h]

/-- Any other source is scanned from its start. -/
theorem tokenize_of_within {source : String} {limits : Limits}
    (h : (source.length : Int) ≤ limits.bound .expressionLength) :
    tokenize source limits =
      ((Cursor.start source).tokens limits source.length).mapError
        (ScanFailure.toError source) := by
  rw [tokenize, openSource, Limits.check, if_neg (Int.not_lt.mpr h)]
  dsimp only
  cases (Cursor.start source).tokens limits source.length <;> rfl

/-- A source is cut into tokens if and only if it is within its limit and the cursor at its start
yields them. -/
theorem tokenize_eq_ok {source : String} {limits : Limits} {tokens : List Token} :
    tokenize source limits = .ok tokens ↔ (source.length : Int) ≤ limits.bound .expressionLength ∧
      (Cursor.start source).tokens limits source.length = .ok tokens := by
  rcases Int.lt_or_le (limits.bound .expressionLength) source.length with hlong | hwithin
  · simp [tokenize_of_tooLong hlong, Int.not_le.mpr hlong]
  · rw [tokenize_of_within hwithin]
    cases (Cursor.start source).tokens limits source.length with
    | ok found =>
      show (Except.ok found : Except Error (List Token)) = .ok tokens ↔ _
      rw [Except.ok.injEq, Except.ok.injEq]
      exact ⟨fun h => ⟨hwithin, h⟩, And.right⟩
    | error failure => exact ⟨fun h => (by cases h), fun h => (by cases h.2)⟩

/-- The tokens of a source are the symbols that its text is made of, and then the end token. -/
theorem tokenize_scans {source : String} {limits : Limits} {tokens : List Token}
    (h : tokenize source limits = .ok tokens) :
    ∃ body eof, tokens = body ++ [eof] ∧ Scans source.toList (body.map Token.symbol) ∧
      eof.kind = .eof :=
  Cursor.scans_of_tokens (tokenize_eq_ok.mp h).2 (Nat.le_of_eq String.length_toList)

end Formulary
