import Formulary.Proofs.Escape
import Formulary.Proofs.Partition

/-!
# Errors of reading point into the source

A source that cannot be read is rejected with an error that marks a part of it, or because a limit
is exceeded.  For the scanner this is a matter of the part that a lexeme blames, which lies within
the text in front of the cursor (`Lexeme.read_blames`).  The parser sees tokens that stand in the
source one behind the other; what it has read lies in front of what it looks at, so a part that
starts at the beginning of something read and ends with the token ahead is a part of the source as
well.
-/

set_option autoImplicit false

namespace Formulary

/-- The error marks a part of the source. -/
def Error.PointsInto (source : String) (e : Error) : Prop :=
  ∃ position stop : Int, e.site = ⟨some position, some source, some stop⟩ ∧
    0 ≤ position ∧ position ≤ stop ∧ stop ≤ source.length

/-- The errors with which a source is rejected: those of its text and of its grammar, which mark a
part of it, and those of limits. -/
def Error.RejectsSource (source : String) (e : Error) : Prop :=
  (((∃ fault, e.cause = .lexical fault) ∨ ∃ fault, e.cause = .grammatical fault) ∧
    e.PointsInto source) ∨
  ∃ name bound amount, e.cause = .limitExceeded name bound amount

/-! ## Lexemes -/

namespace Lexeme

/-- If the lexeme is a fault, the part of the text that it blames is not empty and ends within the
text. -/
def Blames (text : List Char) (lexeme : Lexeme) : Prop :=
  ∀ fault start stop length, lexeme = .fault fault start stop length →
    start < stop ∧ stop ≤ text.length

/-- A token blames nothing. -/
theorem blames_token (text : List Char) (kind : TokenKind) (value : List Char) (length : Nat) :
    Blames text (.token kind value length) := by
  intro fault start stop used h
  cases h

/-- A fault blames a part of the text if it starts before it stops and stops within the text. -/
theorem blames_fault {text : List Char} {start stop : Nat} (hstart : start < stop)
    (hstop : stop ≤ text.length) (fault : LexicalFault) (length : Nat) :
    Blames text (.fault fault start stop length) := by
  intro fault' start' stop' length' h
  obtain ⟨-, rfl, rfl, -⟩ := Lexeme.fault.inj h
  exact ⟨hstart, hstop⟩

/-- A fault in a string lies between its opening quote and the last character read. -/
theorem blames_stringFrom (quote : Char) (value : List Char) (used : Nat) (cs text : List Char)
    (hused : 0 < used) (htext : used + cs.length ≤ text.length) :
    Blames text (stringFrom quote value used cs) := by
  fun_induction stringFrom quote value used cs with
  | case1 value used =>
    exact blames_fault hused htext _ _
  | case2 => exact blames_token _ _ _ _
  | case3 value used _ =>
    exact blames_fault (Nat.succ_pos _) htext _ _
  | case4 value used _ e after _ _ ih =>
    simp only [List.length_cons] at htext
    exact ih (by omega) (by omega)
  | case5 value used _ e after _ =>
    simp only [List.length_cons] at htext
    exact blames_fault (by omega) (by omega) _ _
  | case6 value used c rest =>
    simp only [List.length_cons] at htext
    exact blames_fault (Nat.succ_pos _) (by omega) _ _
  | case7 value used c rest _ _ _ ih =>
    simp only [List.length_cons] at htext
    exact ih (by omega) (by omega)

/-- What is read of a number, whether or not it is one, is the front of the text. -/
theorem read_isPrefix {cs base mark digits : List Char} (hbase : mantissa cs = base)
    (hmark : exponentMark (cs.drop base.length) = mark)
    (hdigits : (if mark.isEmpty then [] else
      (cs.drop (base.length + mark.length)).takeWhile Text.isAsciiDigit) = digits) :
    base ++ mark ++ digits <+: cs := by
  obtain ⟨afterBase, hafter⟩ : base <+: cs := hbase ▸ mantissa_isPrefix cs
  obtain ⟨afterMark, hrest⟩ : mark <+: afterBase := by
    rw [← hmark, ← hafter, List.drop_left]
    exact exponentMark_isPrefix afterBase
  have hdrop : cs.drop (base.length + mark.length) = afterMark := by
    rw [← List.drop_drop, ← hafter, List.drop_left, ← hrest, List.drop_left]
  have hfront : digits <+: afterMark := by
    rw [← hdigits, hdrop]
    split
    · exact List.nil_prefix
    · exact List.takeWhile_prefix _
  rw [← hafter, ← hrest, List.append_assoc]
  apply (List.prefix_append_right_inj base).mpr
  exact (List.prefix_append_right_inj mark).mpr hfront

/-- If a number cannot be read, the part of the text that is blamed is not empty and ends within the
text. -/
theorem blames_number (cs : List Char) : Blames cs (number cs) := by
  obtain ⟨base, hbase⟩ : ∃ base, mantissa cs = base := ⟨_, rfl⟩
  obtain ⟨mark, hmark⟩ : ∃ mark, exponentMark (cs.drop base.length) = mark := ⟨_, rfl⟩
  obtain ⟨digits, hdigits⟩ : ∃ digits, (if mark.isEmpty then [] else
    (cs.drop (base.length + mark.length)).takeWhile Text.isAsciiDigit) = digits := ⟨_, rfl⟩
  have htext := read_isPrefix hbase hmark hdigits
  rw [number_eq hbase hmark hdigits]
  refine iteInduction (fun hbare => ?_) fun _ => ?_
  · refine blames_fault ?_ htext.length_le _ _
    have hne : mark ≠ [] := by simpa using hbare.1
    have hpos := List.length_pos_of_ne_nil hne
    simp only [List.length_append]
    omega
  · split
    · rename_i rest hrest
      refine iteInduction (fun _ => ?_) fun _ => blames_token _ _ _ _
      refine blames_fault (Nat.succ_pos _) ?_ _ _
      have hlength := congrArg List.length hrest
      rw [List.length_drop, List.length_cons] at hlength
      omega
    · exact blames_token _ _ _ _

/-- What holds of every token, of a fault of the first character, and of the string and the number
that the text starts with, holds of the lexeme that is read: one case for each kind of first
character. -/
theorem read_induction {motive : Lexeme → Prop} (c : Char) (rest : List Char)
    (token : ∀ kind value length, motive (.token kind value length))
    (first : ∀ fault, motive (.fault fault 0 1 1))
    (string : motive (stringFrom c [] 1 rest))
    (number : (startsWithDigit (c :: rest) = true ∨
      ∃ digits, c :: rest = '.' :: digits ∧ startsWithDigit digits = true) →
        motive (number (c :: rest))) :
    motive (read c rest) := by
  have htwo : ∀ second single double, motive (oneOrTwo c second single double rest) := fun _ _ _ =>
    iteInduction (fun _ => token _ _ _) fun _ => token _ _ _
  unfold read
  cases symbolKind? c with
  | some kind => exact token _ _ _
  | none =>
    dsimp only
    refine iteInduction (fun _ => htwo _ _ _) fun _ => ?_
    refine iteInduction (fun _ => htwo _ _ _) fun _ => ?_
    refine iteInduction (fun _ => htwo _ _ _) fun _ => ?_
    refine iteInduction (fun _ => htwo _ _ _) fun _ => ?_
    refine iteInduction (fun _ => iteInduction (fun _ => token _ _ _) fun _ => first _) fun _ => ?_
    refine iteInduction (fun _ => iteInduction (fun _ => token _ _ _) fun _ => first _) fun _ => ?_
    refine iteInduction (fun hpoint => ?_) fun _ => ?_
    · subst hpoint
      refine iteInduction (fun hdigit => number (.inr ⟨rest, rfl, hdigit⟩)) fun _ => ?_
      split
      · exact token _ _ _
      · exact token _ _ _
      · exact first _
    refine iteInduction (fun _ => string) fun _ => ?_
    refine iteInduction (fun hdigit => number (.inl hdigit)) fun _ => ?_
    exact iteInduction (fun _ => token _ _ _) fun _ => first _

/-- What a lexeme blames is a part of the text that it is read from. -/
theorem read_blames (c : Char) (rest : List Char) : Blames (c :: rest) (read c rest) := by
  have hpositive : 1 ≤ (c :: rest).length := Nat.le_add_left 1 rest.length
  refine read_induction c rest (blames_token _) ?_ ?_ fun _ => blames_number _
  · exact fun fault => blames_fault Nat.one_pos hpositive fault 1
  · refine blames_stringFrom c [] 1 rest _ Nat.one_pos ?_
    rw [List.length_cons, Nat.add_comm]

end Lexeme

/-! ## The scanner -/

/-- A check of a limit fails only if the limit is exceeded, and says by what. -/
theorem Limits.check_eq_error {limits : Limits} {kind : LimitKind} {amount : Nat} {cause : Cause}
    (h : limits.check kind amount = .error cause) :
    limits.bound kind < amount ∧ cause = limits.exceeded kind amount := by
  unfold Limits.check at h
  by_cases hover : limits.bound kind < amount
  · rw [if_pos hover] at h
    exact ⟨hover, (Except.error.inj h).symm⟩
  · rw [if_neg hover] at h
    cases h

namespace Cursor

/-- A step of the cursor fails with an error that rejects its source. -/
theorem next_rejects {limits : Limits} {source : String} {c after : Cursor} {failure : ScanFailure}
    (h : c.next limits = (.error failure, after)) (hc : c.In source.toList) :
    (failure.toError source).RejectsSource source := by
  have hlength := hc.skip.1.length_eq
  rw [String.length_toList] at hlength
  unfold next at h
  cases hrest : c.skip.rest with
  | nil =>
    simp only [hrest, Prod.mk.injEq, reduceCtorEq, false_and] at h
  | cons first rest =>
    simp only [hrest, Prod.mk.injEq] at h
    obtain ⟨haccept, -⟩ := h
    cases hread : Lexeme.read first rest with
    | fault fault start stop used =>
      rw [hread] at haccept
      obtain rfl := Except.error.inj haccept
      obtain ⟨hstart, hstop⟩ := Lexeme.read_blames first rest fault start stop used hread
      rw [hrest] at hlength
      refine .inl ⟨.inl ⟨fault, rfl⟩, _, _, rfl, ?_, ?_, ?_⟩ <;> omega
    | token kind value used =>
      rw [hread] at haccept
      unfold accept at haccept
      dsimp only at haccept
      split at haccept
      · split at haccept
        · cases haccept
        · rename_i cause hcheck
          obtain rfl := Except.error.inj haccept
          obtain ⟨-, rfl⟩ := Limits.check_eq_error hcheck
          exact .inr ⟨_, _, _, rfl⟩
      · cases haccept

/-- The cursor stays in its text. -/
theorem next_in {limits : Limits} {text : List Char} {c after : Cursor} {token : Token}
    (h : c.next limits = (.ok token, after)) (hkind : token.kind ≠ .eof) (hc : c.In text) :
    after.In text := by
  rcases next_located h with ⟨-, rfl⟩ | ⟨first, rest, kind, value, length, hrest, hread, -, rfl⟩
  · exact absurd rfl hkind
  · obtain ⟨lexeme, behind, hsource, hlength, -⟩ := (Lexeme.read_longest hread).lexeme
    refine hc.skip.1.advance ?_
    show length ≤ (skipTrivia c.rest).length
    rw [hrest, hsource, List.length_append]
    omega

/-- Where a cursor within a source fails to cut it into tokens, the error rejects the source. -/
theorem tokens_rejects {limits : Limits} {source : String} {count : Nat} {c : Cursor}
    {failure : ScanFailure} (h : c.tokens limits count = .error failure) (hc : c.In source.toList) :
    (failure.toError source).RejectsSource source := by
  induction count generalizing c with
  | zero => cases h
  | succ count ih =>
    unfold Cursor.tokens at h
    split at h
    · rename_i failure' after hnext
      obtain rfl := Except.error.inj h
      exact next_rejects hnext hc
    · rename_i token after hnext
      by_cases hkind : token.kind = .eof
      · rw [if_pos hkind] at h
        cases h
      · rw [if_neg hkind] at h
        cases hmore : after.tokens limits count with
        | ok more =>
          rw [hmore] at h
          cases h
        | error failure' =>
          rw [hmore] at h
          obtain rfl := Except.error.inj h
          exact ih hmore (next_in hnext hkind hc)

end Cursor

/-- The cursor at the start of a source is in its text. -/
theorem start_in (source : String) : (Cursor.start source).In source.toList :=
  ⟨Nat.zero_le source.toList.length, rfl⟩

/-- The scanner rejects a source with an error that marks a part of it, or by a limit. -/
theorem tokenize_rejects {source : String} {limits : Limits} {e : Error}
    (h : tokenize source limits = .error e) : e.RejectsSource source := by
  rcases Int.lt_or_le (limits.bound .expressionLength) source.length with hlong | hwithin
  · rw [tokenize_of_tooLong hlong] at h
    obtain rfl := Except.error.inj h
    exact .inr ⟨_, _, _, rfl⟩
  · rw [tokenize_of_within hwithin] at h
    cases htokens : (Cursor.start source).tokens limits source.length with
    | ok tokens =>
      rw [htokens] at h
      cases h
    | error failure =>
      rw [htokens] at h
      obtain rfl := Except.error.inj h
      exact Cursor.tokens_rejects htokens (start_in source)

/-- The tokens of a source lie in it in order, in front of an end token at its end. -/
theorem tokenize_covers {source : String} {limits : Limits} {tokens : List Token}
    (h : tokenize source limits = .ok tokens) :
    ∃ body, tokens = body ++ [Cursor.eofAt source.length] ∧ Partition source.toList 0 body := by
  have hlength : (Cursor.start source).rest.length ≤ source.length :=
    Nat.le_of_eq String.length_toList
  rw [← String.length_toList]
  exact Cursor.tokens_partition (tokenize_eq_ok.mp h).2 hlength (start_in source)

/-! ## The parser -/

namespace Parser

/-- The tokens ahead stand in the source one behind the other, from a position on. -/
def InOrder (source : String) : Int → List Token → Prop
  | position, [] => position ≤ source.length
  | position, token :: rest =>
    position ≤ token.span.start ∧ token.span.start ≤ token.span.stop ∧
      InOrder source token.span.stop rest

/-- Tokens that stand in a source start no later than it ends. -/
theorem InOrder.position_le {source : String} {tokens : List Token} {position : Int}
    (h : InOrder source position tokens) : position ≤ source.length := by
  induction tokens generalizing position with
  | nil => exact h
  | cons token rest ih =>
    obtain ⟨hstart, hstop, hrest⟩ := h
    have hend := ih hrest
    omega

/-- Tokens that cover parts of the source one behind the other are in order. -/
theorem inOrder_of_partition {source : String} {tokens : List Token} {position : Int}
    (hposition : position ≤ source.length)
    (hbounds : ∀ t ∈ tokens, position ≤ t.span.start ∧ t.span.start < t.span.stop ∧
      t.span.stop ≤ source.length)
    (hordered : tokens.Pairwise fun t u => t.span.stop ≤ u.span.start) :
    InOrder source position tokens := by
  induction tokens generalizing position with
  | nil => exact hposition
  | cons token rest ih =>
    obtain ⟨hbehind, hordered⟩ := List.pairwise_cons.mp hordered
    obtain ⟨hstart, hstop, hend⟩ := hbounds token List.mem_cons_self
    refine ⟨hstart, Int.le_of_lt hstop, ih hend ?_ hordered⟩
    intro t ht
    exact ⟨hbehind t ht, (hbounds t (List.mem_cons_of_mem _ ht)).2⟩

/-- The end token stands at the end of the source. -/
def Input.EndsSource (input : Input) : Prop :=
  input.eof.kind = .eof ∧ input.eof.span = ⟨input.source.length, input.source.length⟩

/-- What is ahead lies in the source, behind what has been read. -/
structure Stream.Within (s : Stream) (input : Input) : Prop where
  nonneg : 0 ≤ s.lastStop
  inOrder : InOrder input.source s.lastStop s.rest

/-- A stream from which something has been read. -/
structure Stream.Onward (s : Stream) (input : Input) (s' : Stream) : Prop where
  within : s'.Within input
  le : s.lastStop ≤ s'.lastStop

/-- A stream from which nothing has been read is onward of itself. -/
theorem Stream.Onward.refl {s : Stream} {input : Input} (h : s.Within input) : s.Onward input s :=
  ⟨h, Int.le_refl _⟩

/-- What is read from a stream that something has been read from is read from the stream before. -/
theorem Stream.Onward.trans {s s' s'' : Stream} {input : Input} (h : s.Onward input s')
    (h' : s'.Onward input s'') : s.Onward input s'' :=
  ⟨h'.within, Int.le_trans h.le h'.le⟩

/-- A position of something that has been read. -/
def Stream.Passed (s : Stream) (position : Int) : Prop :=
  0 ≤ position ∧ position ≤ s.lastStop

/-- A position that has been passed stays passed as reading goes on. -/
theorem Stream.Passed.onward {s s' : Stream} {input : Input} {position : Int}
    (h : s.Passed position) (hs : s.Onward input s') : s'.Passed position :=
  ⟨h.1, Int.le_trans h.2 hs.le⟩

/-- A failure of the parser: its errors reject the source. -/
def Rejects (source : String) (failure : Failure) : Prop :=
  ∀ e, failure = .error e → e.RejectsSource source

/-- A limit that is exceeded rejects the source, wherever it is noticed. -/
theorem rejects_limit (source : String) (limits : Limits) (kind : LimitKind) (amount : Nat)
    (site : Site) :
    Rejects source (.error ⟨limits.exceeded kind amount, site⟩) := by
  rintro e ⟨⟩
  exact .inr ⟨_, _, _, rfl⟩

/-- A syntax error that marks a part of the source rejects it. -/
theorem rejects_grammatical {source : String} {position stop : Int} (hposition : 0 ≤ position)
    (hle : position ≤ stop) (hstop : stop ≤ source.length) (fault : SyntaxFault) :
    Rejects source (.error ⟨.grammatical fault, ⟨some position, some source, some stop⟩⟩) := by
  rintro e ⟨⟩
  exact .inl ⟨.inr ⟨fault, rfl⟩, position, stop, rfl, hposition, hle, hstop⟩

section Steps

variable {input : Input} {s : Stream}

/-- A token that is ahead lies in the source, behind what has been read; if it is not the end token,
the parser can go past it. -/
theorem peek_within (hinput : input.EndsSource) (hs : s.Within input) {bad : Failure → Prop} :
    Holds (peek input s)
      (fun token s' => s' = s ∧ s.lastStop ≤ token.span.start ∧ token.span.start ≤ token.span.stop ∧
        token.span.stop ≤ input.source.length ∧
        (token.kind ≠ .eof → ∃ rest, s.rest = token :: rest)) bad := by
  obtain ⟨hnonneg, horder⟩ := hs
  unfold peek
  refine Holds.get ?_
  cases hrest : s.rest with
  | nil =>
    rw [hrest] at horder
    obtain ⟨heof, hspan⟩ := hinput
    have hstart : input.eof.span.start = input.source.length := congrArg Span.start hspan
    have hstop : input.eof.span.stop = input.source.length := congrArg Span.stop hspan
    have horder : s.lastStop ≤ input.source.length := horder
    exact ⟨rfl, by omega, by omega, by omega, fun hkind => absurd heof hkind⟩
  | cons token rest =>
    rw [hrest] at horder
    obtain ⟨hstart, hstop, hbehind⟩ := horder
    exact ⟨rfl, hstart, hstop, hbehind.position_le, fun _ => ⟨rest, rfl⟩⟩

/-- Going past a token leaves its start among what has been read. -/
theorem advance_within (hs : s.Within input) {token : Token} {rest : List Token}
    (hrest : s.rest = token :: rest) {bad : Failure → Prop} :
    Holds (advance s)
      (fun _ s' => s.Onward input s' ∧ s'.Passed token.span.start ∧ s'.lastStop = token.span.stop)
      bad := by
  obtain ⟨tokens, lastStop⟩ := s
  obtain rfl : tokens = token :: rest := hrest
  obtain ⟨hnonneg, hstart, hstop, hbehind⟩ := hs
  dsimp only at hnonneg hstart
  have hpast : 0 ≤ token.span.stop := by omega
  exact ⟨⟨⟨hpast, hbehind⟩, Int.le_trans hstart hstop⟩, ⟨Int.le_trans hnonneg hstart, hstop⟩, rfl⟩

/-- Skipping a token stays within the source. -/
theorem skipIf_within (hs : s.Within input) (kind : TokenKind) {bad : Failure → Prop} :
    Holds (skipIf kind s) (fun _ s' => s.Onward input s') bad := by
  unfold skipIf
  refine Holds.get ?_
  cases hrest : s.rest with
  | nil => exact .refl hs
  | cons token rest =>
    by_cases hkind : token.kind = kind
    · simp only [hkind, ↓reduceIte]
      refine (advance_within hs hrest).bind ?_
      intro _ s' hs'
      exact hs'.1
    · simp only [hkind, ↓reduceIte]
      exact .refl hs

/-- A syntax fault at the token ahead. -/
theorem reject_within (hs : s.Within input) {token : Token} (hstart : s.lastStop ≤ token.span.start)
    (hle : token.span.start ≤ token.span.stop) (hstop : token.span.stop ≤ input.source.length)
    (fault : SyntaxFault) {α : Type} {good : α → Stream → Prop} :
    Holds ((reject input fault token : Reader α) s) good (Rejects input.source) :=
  rejects_grammatical (Int.le_trans hs.nonneg hstart) hle hstop fault

/-- Consuming a token stays within the source, or fails in a way that rejects it. -/
theorem consume_within (hinput : input.EndsSource) (hs : s.Within input) {kind : TokenKind}
    (hkind : kind ≠ .eof) (expectation : Expectation) :
    Holds (consume input kind expectation s) (fun _ s' => s.Onward input s')
      (Rejects input.source) := by
  unfold consume
  refine (peek_within hinput hs).bind ?_
  rintro token _ ⟨rfl, hstart, hle, hstop, hmore⟩
  by_cases htoken : token.kind = kind
  · simp only [htoken, ↓reduceIte]
    obtain ⟨rest, hrest⟩ := hmore (by rwa [htoken])
    refine (advance_within hs hrest).bind ?_
    intro _ s' hs'
    exact hs'.1
  · simp only [htoken, ↓reduceIte]
    exact reject_within hs hstart hle hstop _

/-- A demand of a limit reads nothing, or fails in a way that rejects the source. -/
theorem demand_within (hs : s.Within input) (limits : Limits) (kind : LimitKind) (amount : Nat) :
    Holds (demand limits kind amount s) (fun _ s' => s.Onward input s') (Rejects input.source) := by
  unfold demand Limits.check
  by_cases hlimit : limits.bound kind < amount
  · simp only [hlimit, ↓reduceIte]
    exact rejects_limit _ _ _ _ _
  · simp only [hlimit, ↓reduceIte]
    exact .refl hs

end Steps

/-- A reader of trees that starts within the source stays there, and the trees start in what it has
read. -/
def Located (input : Input) (read : Nat → Reader Expr) : Prop :=
  ∀ minimum s, s.Within input → Holds (read minimum s)
    (fun t s' => s.Onward input s' ∧ s'.Passed t.span.start) (Rejects input.source)

section Constructs

variable {input : Input} (hinput : input.EndsSource) {read : Nat → Reader Expr}
  (hread : Located input read) {s : Stream}

include hread in
/-- Reading the rest of a list stays within the source. -/
theorem moreElements_within (count : Nat) (hs : s.Within input) :
    Holds (moreElements read count s) (fun _ s' => s.Onward input s') (Rejects input.source) := by
  induction count generalizing s with
  | zero => exact .refl hs
  | succ count ih =>
    unfold moreElements
    refine (skipIf_within hs .comma).bind ?_
    intro found s₁ h₁
    cases found with
    | false => exact h₁
    | true =>
      refine (hread _ s₁ h₁.within).bind ?_
      rintro t s₂ ⟨h₂, -⟩
      refine (ih h₂.within).bind ?_
      intro ts s₃ h₃
      exact (h₁.trans h₂).trans h₃

include hinput hread in
/-- Reading a list with the token that closes it stays within the source. -/
theorem elements_within {closing : TokenKind} (hclosing : closing ≠ .eof)
    (expectation : Expectation) (hs : s.Within input) :
    Holds (elements input read closing expectation s) (fun _ s' => s.Onward input s')
      (Rejects input.source) := by
  unfold elements
  refine (peek_within hinput hs).bind ?_
  rintro token _ ⟨rfl, -, -, -, hmore⟩
  by_cases htoken : token.kind = closing
  · simp only [htoken, ↓reduceIte]
    obtain ⟨rest, hrest⟩ := hmore (by rwa [htoken])
    refine (advance_within hs hrest).bind ?_
    intro _ s₁ h₁
    exact h₁.1
  · simp only [htoken, ↓reduceIte]
    refine (hread _ _ hs).bind ?_
    rintro t s₁ ⟨h₁, -⟩
    refine Holds.get ?_
    refine (moreElements_within hread _ h₁.within).bind ?_
    intro ts s₂ h₂
    refine (consume_within hinput h₂.within hclosing expectation).bind ?_
    intro _ s₃ h₃
    exact (h₁.trans h₂).trans h₃

include hinput hread in
/-- Reading a conditional stays within the source, and its tree starts in what has been read. -/
theorem conditional_within {keyword : Token} (hs : s.Within input)
    (hkeyword : s.Passed keyword.span.start) :
    Holds (conditional input read keyword s)
      (fun t s' => s.Onward input s' ∧ s'.Passed t.span.start) (Rejects input.source) := by
  unfold conditional
  refine (hread _ _ hs).bind ?_
  rintro condition s₁ ⟨h₁, -⟩
  refine (consume_within hinput h₁.within (by decide) _).bind ?_
  intro _ s₂ h₂
  refine (hread _ _ h₂.within).bind ?_
  rintro consequent s₃ ⟨h₃, -⟩
  refine (consume_within hinput h₃.within (by decide) _).bind ?_
  intro _ s₄ h₄
  refine (hread _ _ h₄.within).bind ?_
  rintro alternate s₅ ⟨h₅, -⟩
  have hs₅ := (((h₁.trans h₂).trans h₃).trans h₄).trans h₅
  exact Holds.get ⟨hs₅, hkeyword.onward hs₅⟩

include hread in
/-- Reading a guard stays within the source. -/
theorem guard_within (hs : s.Within input) :
    Holds (guard? read s) (fun _ s' => s.Onward input s') (Rejects input.source) := by
  unfold guard?
  refine (skipIf_within hs .when).bind ?_
  intro found s₁ h₁
  cases found with
  | false => exact h₁
  | true =>
    refine (hread _ _ h₁.within).bind ?_
    rintro t s₂ ⟨h₂, -⟩
    exact h₁.trans h₂

include hinput hread in
/-- Reading a comprehension stays within the source, and its tree starts in what has been read. -/
theorem comprehension_within {keyword : Token} (hs : s.Within input)
    (hkeyword : s.Passed keyword.span.start) :
    Holds (comprehension input read keyword s)
      (fun t s' => s.Onward input s' ∧ s'.Passed t.span.start) (Rejects input.source) := by
  unfold comprehension
  refine (consume_within hinput hs (by decide) _).bind ?_
  intro binder s₁ h₁
  refine (consume_within hinput h₁.within (by decide) _).bind ?_
  intro _ s₂ h₂
  refine (hread _ _ h₂.within).bind ?_
  rintro iterable s₃ ⟨h₃, -⟩
  refine (guard_within hread h₃.within).bind ?_
  intro guard s₄ h₄
  refine (consume_within hinput h₄.within (by decide) _).bind ?_
  intro _ s₅ h₅
  refine (hread _ _ h₅.within).bind ?_
  rintro body s₆ ⟨h₆, -⟩
  have hs₆ := ((((h₁.trans h₂).trans h₃).trans h₄).trans h₅).trans h₆
  exact Holds.get ⟨hs₆, hkeyword.onward hs₆⟩

include hinput hread in
/-- Reading a name or a call stays within the source, and its tree starts in what has been read. -/
theorem nameOrCall_within {name : Token} (hs : s.Within input) (hname : s.Passed name.span.start) :
    Holds (nameOrCall input read name s)
      (fun t s' => s.Onward input s' ∧ s'.Passed t.span.start) (Rejects input.source) := by
  unfold nameOrCall
  refine (skipIf_within hs .leftParen).bind ?_
  intro found s₁ h₁
  cases found with
  | false => exact ⟨h₁, hname.onward h₁⟩
  | true =>
    refine (elements_within hinput hread (by decide) _ h₁.within).bind ?_
    intro arguments s₂ h₂
    refine (demand_within h₂.within _ _ _).bind ?_
    intro _ s₃ h₃
    have hs₃ := (h₁.trans h₂).trans h₃
    exact Holds.get ⟨hs₃, hname.onward hs₃⟩

include hinput hread in
/-- An operand starts with the token ahead. -/
theorem operand_within (hs : s.Within input) :
    Holds (operand input read s)
      (fun t s' => s.Onward input s' ∧ s'.Passed t.span.start) (Rejects input.source) := by
  unfold operand
  refine (peek_within hinput hs).bind ?_
  rintro token _ ⟨rfl, hstart, hle, hstop, hmore⟩
  cases hkind : token.kind with
  | trueWord | falseWord | string =>
    obtain ⟨rest, hrest⟩ := hmore (by simp [hkind])
    refine (advance_within hs hrest).bind ?_
    rintro _ s₁ ⟨h₁, htoken, -⟩
    exact ⟨h₁, htoken⟩
  | number =>
    obtain ⟨rest, hrest⟩ := hmore (by simp [hkind])
    refine (advance_within hs hrest).bind ?_
    rintro _ s₁ ⟨h₁, htoken, -⟩
    cases Number.read? token.value with
    | some value => exact ⟨h₁, htoken⟩
    | none =>
      -- A fault is no error, so that it need not mark anything.
      rintro e ⟨⟩
  | identifier =>
    obtain ⟨rest, hrest⟩ := hmore (by simp [hkind])
    refine (advance_within hs hrest).bind ?_
    rintro _ s₁ ⟨h₁, htoken, -⟩
    refine (nameOrCall_within hinput hread h₁.within htoken).mono ?_ fun _ h => h
    rintro t s₂ ⟨h₂, ht⟩
    exact ⟨h₁.trans h₂, ht⟩
  | leftParen =>
    -- The tree of a group is the one inside, so that it starts there and not at the parenthesis.
    obtain ⟨rest, hrest⟩ := hmore (by simp [hkind])
    refine (advance_within hs hrest).bind ?_
    rintro _ s₁ ⟨h₁, -⟩
    refine (hread _ _ h₁.within).bind ?_
    rintro inner s₂ ⟨h₂, hinner⟩
    refine (consume_within hinput h₂.within (by decide) _).bind ?_
    intro _ s₃ h₃
    exact ⟨(h₁.trans h₂).trans h₃, hinner.onward h₃⟩
  | leftBracket =>
    obtain ⟨rest, hrest⟩ := hmore (by simp [hkind])
    refine (advance_within hs hrest).bind ?_
    rintro _ s₁ ⟨h₁, htoken, -⟩
    refine (elements_within hinput hread (by decide) _ h₁.within).bind ?_
    intro items s₂ h₂
    refine (demand_within h₂.within _ _ _).bind ?_
    intro _ s₃ h₃
    exact Holds.get ⟨(h₁.trans h₂).trans h₃, (htoken.onward h₂).onward h₃⟩
  | minus | not =>
    obtain ⟨rest, hrest⟩ := hmore (by simp [hkind])
    refine (advance_within hs hrest).bind ?_
    rintro _ s₁ ⟨h₁, htoken, -⟩
    refine (hread _ _ h₁.within).bind ?_
    rintro argument s₂ ⟨h₂, -⟩
    exact ⟨h₁.trans h₂, htoken.onward h₂⟩
  | «if» =>
    obtain ⟨rest, hrest⟩ := hmore (by simp [hkind])
    refine (advance_within hs hrest).bind ?_
    rintro _ s₁ ⟨h₁, htoken, -⟩
    refine (conditional_within hinput hread h₁.within htoken).mono ?_ fun _ h => h
    rintro t s₂ ⟨h₂, ht⟩
    exact ⟨h₁.trans h₂, ht⟩
  | «for» =>
    obtain ⟨rest, hrest⟩ := hmore (by simp [hkind])
    refine (advance_within hs hrest).bind ?_
    rintro _ s₁ ⟨h₁, htoken, -⟩
    refine (comprehension_within hinput hread h₁.within htoken).mono ?_ fun _ h => h
    rintro t s₂ ⟨h₂, ht⟩
    exact ⟨h₁.trans h₂, ht⟩
  | _ => exact reject_within hs hstart hle hstop _

include hinput hread in
/-- An extension starts with the token behind its left part, or with that part; both have been read.
An assignment to anything but a name is rejected from the start of that part to the end of the
token. -/
theorem extend_within {left : Expr} {token : Token} (extension : Extension) (hs : s.Within input)
    (hleft : s.Passed left.span.start) (htoken : s.Passed token.span.start)
    (hlast : s.lastStop = token.span.stop) :
    Holds (extend input read left token extension s)
      (fun t s' => s.Onward input s' ∧ s'.Passed t.span.start) (Rejects input.source) := by
  cases extension with
  | index =>
    refine (hread _ _ hs).bind ?_
    rintro offset s₁ ⟨h₁, -⟩
    refine (consume_within hinput h₁.within (by decide) _).bind ?_
    intro closing s₂ h₂
    exact ⟨h₁.trans h₂, (htoken.onward h₁).onward h₂⟩
  | assign =>
    have hinvalid : Rejects input.source (.error ⟨.grammatical .invalidTarget,
        ⟨some (if 0 ≤ left.span.start then left.span.start else token.span.start),
          some input.source, some token.span.stop⟩⟩) := by
      rw [if_pos hleft.1]
      exact rejects_grammatical hleft.1 (hlast ▸ hleft.2) (hlast ▸ hs.inOrder.position_le) _
    cases left with
    | identifier span name =>
      refine (hread _ _ hs).bind ?_
      rintro value s₁ ⟨h₁, -⟩
      exact Holds.get ⟨h₁, hleft.onward h₁⟩
    | _ => exact hinvalid
  | ternary =>
    refine (hread _ _ hs).bind ?_
    rintro consequent s₁ ⟨h₁, -⟩
    refine (consume_within hinput h₁.within (by decide) _).bind ?_
    intro _ s₂ h₂
    refine (hread _ _ h₂.within).bind ?_
    rintro alternate s₃ ⟨h₃, -⟩
    have hs₃ := (h₁.trans h₂).trans h₃
    exact Holds.get ⟨hs₃, htoken.onward hs₃⟩
  | range | binary =>
    refine (hread _ _ hs).bind ?_
    rintro right s₁ ⟨h₁, -⟩
    exact ⟨h₁, htoken.onward h₁⟩

include hinput hread in
/-- Reading extensions stays within the source, and the extended tree starts in what has been
read. -/
theorem climb_within {minimum : Nat} (count : Nat) {left : Expr} (hs : s.Within input)
    (hleft : s.Passed left.span.start) :
    Holds (climb input read minimum count left s)
      (fun t s' => s.Onward input s' ∧ s'.Passed t.span.start) (Rejects input.source) := by
  induction count generalizing left s with
  | zero => exact ⟨.refl hs, hleft⟩
  | succ count ih =>
    unfold climb
    refine (peek_within hinput hs).bind ?_
    rintro token _ ⟨rfl, -, -, -, hmore⟩
    cases hextension : token.kind.extension? with
    | none => exact ⟨.refl hs, hleft⟩
    | some extension =>
      by_cases hmin : extension.precedence < minimum
      · simp only [hmin, ↓reduceIte]
        exact ⟨.refl hs, hleft⟩
      · simp only [hmin, ↓reduceIte]
        have hkind : token.kind ≠ .eof := by
          intro heof
          rw [heof] at hextension
          cases hextension
        obtain ⟨rest, hrest⟩ := hmore hkind
        refine (advance_within hs hrest).bind ?_
        rintro _ s₁ ⟨h₁, htoken, hlast⟩
        have hextend :=
          extend_within hinput hread extension h₁.within (hleft.onward h₁) htoken hlast
        refine hextend.bind ?_
        rintro extended s₂ ⟨h₂, hextended⟩
        refine (ih h₂.within hextended).mono ?_ fun _ h => h
        rintro t s₃ ⟨h₃, ht⟩
        exact ⟨(h₁.trans h₂).trans h₃, ht⟩

end Constructs

section Programs

variable {input : Input} (hinput : input.EndsSource) {s : Stream}

include hinput in
/-- By induction on the levels that may still be opened. -/
theorem expression_located (levels : Nat) : Located input (expression input levels) := by
  induction levels with
  | zero => exact fun _ _ _ => rejects_limit _ _ _ _ _
  | succ levels ih =>
    intro minimum s hs
    unfold expression
    refine (operand_within hinput ih hs).bind ?_
    rintro left s₁ ⟨h₁, hleft⟩
    refine Holds.get ?_
    refine (climb_within hinput ih _ h₁.within hleft).mono ?_ fun _ h => h
    rintro t s₂ ⟨h₂, ht⟩
    exact ⟨h₁.trans h₂, ht⟩

include hinput in
/-- Reading statements stays within the source. -/
theorem statements_within (count : Nat) (hs : s.Within input) :
    Holds (statements input count s) (fun _ s' => s.Onward input s') (Rejects input.source) := by
  induction count generalizing s with
  | zero => exact .refl hs
  | succ count ih =>
    unfold statements
    refine Holds.get ?_
    cases s.rest with
    | nil => exact .refl hs
    | cons token rest =>
      refine (expression_located hinput _ _ s hs).bind ?_
      rintro first s₁ ⟨h₁, -⟩
      refine (ih h₁.within).bind ?_
      intro more s₂ h₂
      exact h₁.trans h₂

end Programs

/-- A tree that exceeds the limits for trees is rejected with its source. -/
theorem withinLimits_rejects {limits : Limits} {tree : Expr} {failure : Failure} (source : String)
    (h : withinLimits limits tree = .error failure) : Rejects source failure := by
  unfold withinLimits at h
  split at h
  · rename_i cause hcheck
    obtain rfl := Except.error.inj h
    obtain ⟨-, rfl⟩ := Limits.check_eq_error hcheck
    exact rejects_limit _ _ _ _ _
  · split at h
    · rename_i cause hcheck
      obtain rfl := Except.error.inj h
      obtain ⟨-, rfl⟩ := Limits.check_eq_error hcheck
      exact rejects_limit _ _ _ _ _
    · cases h

/-- A source is rejected with an error that marks a part of it, or by a limit. -/
theorem parse_rejects {source : String} {limits : Limits} {failure : Failure}
    (h : parse source limits = .error failure) : Rejects source failure := by
  unfold parse at h
  cases htokens : tokenize source limits with
  | error e =>
    rw [htokens] at h
    obtain rfl := Except.error.inj h
    rintro e' ⟨⟩
    exact tokenize_rejects htokens
  | ok tokens =>
    rw [htokens] at h
    dsimp only at h
    obtain ⟨body, rfl, hcovers⟩ := tokenize_covers htokens
    rw [parseTokens_eq rfl hcovers.ne_eof] at h
    by_cases hempty : body.isEmpty
    · rw [if_pos hempty] at h
      obtain rfl := Except.error.inj h
      exact rejects_grammatical (Int.le_refl _) (Int.le_refl _) (Int.natCast_nonneg _) _
    · rw [if_neg hempty] at h
      have hbounds := hcovers.bounds
      rw [String.length_toList] at hbounds
      have hwithin : Stream.Within ⟨body, 0⟩ ⟨source, limits, Cursor.eofAt source.length⟩ :=
        ⟨Int.le_refl _, inOrder_of_partition (Int.natCast_nonneg _) hbounds hcovers.ordered⟩
      have hstatements := statements_within ⟨rfl, rfl⟩ body.length hwithin
      cases hrun : statements ⟨source, limits, Cursor.eofAt source.length⟩ body.length
        ⟨body, 0⟩ with
      | error failure' =>
        rw [hrun] at h hstatements
        obtain rfl := Except.error.inj h
        exact hstatements
      | ok result =>
        rw [hrun] at h
        exact withinLimits_rejects source h

end Parser

/-- Whatever the source and the limits, parsing returns a tree, or fails with an error of the
language: one of the text or of the grammar, which marks a part of the source, or one of a limit. -/
theorem parse_tree_or_rejection (source : String) (limits : Limits) :
    (∃ tree, parse source limits = .ok tree) ∨
    ∃ e, parse source limits = .error (.error e) ∧
      ((((∃ fault, e.cause = .lexical fault) ∨ ∃ fault, e.cause = .grammatical fault) ∧
        ∃ position stop : Int, e.site = ⟨some position, some source, some stop⟩ ∧
          0 ≤ position ∧ position ≤ stop ∧ stop ≤ source.length) ∨
      ∃ name bound amount, e.cause = .limitExceeded name bound amount) := by
  cases h : parse source limits with
  | ok tree => exact .inl ⟨tree, rfl⟩
  | error failure =>
    cases failure with
    | fault fault => exact absurd h (parse_ne_fault source limits fault)
    | error e => exact .inr ⟨e, rfl, Parser.parse_rejects h e rfl⟩

end Formulary
