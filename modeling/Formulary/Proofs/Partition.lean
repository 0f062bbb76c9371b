import Formulary.Proofs.LongestMatch

/-!
# The tokens of a source cover it

The tokens of a source stand in it one behind the other, each with the longest lexeme at its place,
and between them, before the first and behind the last there is nothing but trivia.  One step of the
cursor takes trivia and one lexeme (`Cursor.next_located`), and from there on the rest of the source
is covered in the same way, so the whole is an induction over the steps (`Cursor.tokens_partition`).
-/

set_option autoImplicit false

namespace Formulary

/-- The part of a text between two positions. -/
def slice (text : List Char) (start stop : Int) : List Char :=
  (text.drop start.toNat).take (stop - start).toNat

/-- A text that separates tokens and stands in front of another text: separators, and comments that
go on up to the end of their line or of the whole text. -/
inductive Trivia (rest : List Char) : List Char → Prop
  | nil : Trivia rest []
  | separator {c gap} : isSeparator c = true → Trivia rest gap → Trivia rest (c :: gap)
  | comment {body gap} : (∀ c ∈ body, isNewline c = false) →
      (∀ c ∈ (gap ++ rest).head?, isNewline c = true) → Trivia rest gap →
      Trivia rest ('/' :: '/' :: (body ++ gap))

/-- The parts of a text, from a position on, that lie between tokens. -/
def gaps (text : List Char) (position : Int) (tokens : List Token) : List (Int × Int) :=
  (position :: tokens.map (·.span.stop)).zip (tokens.map (·.span.start) ++ [(text.length : Int)])

/-- Tokens that cover a text from a position on. -/
structure Partition (text : List Char) (position : Int) (tokens : List Token) : Prop where
  /-- Each token takes a part of the text that is not empty. -/
  bounds : ∀ t ∈ tokens, position ≤ t.span.start ∧ t.span.start < t.span.stop ∧
    t.span.stop ≤ text.length
  /-- The parts come one behind the other. -/
  ordered : tokens.Pairwise fun t u => t.span.stop ≤ u.span.start
  /-- Nothing but trivia lies between them. -/
  trivia : ∀ gap ∈ gaps text position tokens, gap.1 ≤ gap.2 ∧
    Trivia (text.drop gap.2.toNat) (slice text gap.1 gap.2)
  /-- Each part is a lexeme of the token's kind and stands for its value. -/
  lexeme : ∀ t ∈ tokens, IsLexeme t.kind (slice text t.span.start t.span.stop) t.value.toList
  /-- No longer part from the same position on is a lexeme. -/
  longest : ∀ t ∈ tokens, ∀ stop : Int, t.span.stop < stop → stop ≤ text.length →
    ∀ kind value, ¬ IsLexeme kind (slice text t.span.start stop) value
  /-- The end token is none of them. -/
  ne_eof : ∀ t ∈ tokens, t.kind ≠ .eof

/-! ## Trivia -/

/-- A line break separates tokens. -/
theorem isSeparator_of_isNewline {c : Char} (h : isNewline c = true) : isSeparator c = true := by
  simp only [isNewline, Bool.or_eq_true, beq_iff_eq] at h
  rcases h with rfl | rfl <;> decide

/-- What is skipped is trivia.  The two halves are about the text outside and inside of a
comment. -/
theorem trivia_of_skip (cs : List Char) :
    (∃ gap, cs = gap ++ skipTrivia cs ∧ Trivia (skipTrivia cs) gap) ∧
    (∃ body gap, cs = body ++ (gap ++ skipComment cs) ∧ (∀ c ∈ body, isNewline c = false) ∧
      (∀ c ∈ (gap ++ skipComment cs).head?, isNewline c = true) ∧ Trivia (skipComment cs) gap) := by
  induction cs with
  | nil => exact ⟨⟨[], rfl, .nil⟩, [], [], rfl, by simp, by simp [skipComment], .nil⟩
  | cons c cs ih =>
    obtain ⟨⟨gap, hcs, hgap⟩, body, gap', hcs', hbody, hline, hgap'⟩ := ih
    rw [skipTrivia, skipComment]
    constructor
    · by_cases hseparator : isSeparator c = true
      · rw [if_pos hseparator]
        exact ⟨c :: gap, by rw [List.cons_append, ← hcs], .separator hseparator hgap⟩
      rw [if_neg hseparator]
      by_cases hcomment : c = '/' ∧ cs.head? = some '/'
      · rw [if_pos hcomment]
        obtain ⟨rfl, hhead⟩ := hcomment
        -- The second slash is no newline, so it belongs to the comment.
        cases body with
        | nil =>
          rw [hcs', List.nil_append] at hhead
          exact absurd (hline '/' hhead) (by decide)
        | cons d body =>
          rw [hcs'] at hhead
          obtain rfl : d = '/' := Option.some.inj hhead
          refine ⟨'/' :: '/' :: (body ++ gap'), ?_, .comment ?_ hline hgap'⟩
          · rw [List.cons_append, List.cons_append, List.append_assoc, ← List.cons_append, ← hcs']
          · exact fun c hc => hbody c (List.mem_cons_of_mem _ hc)
      · rw [if_neg hcomment]
        exact ⟨[], rfl, .nil⟩
    · by_cases hnewline : isNewline c = true
      · rw [if_pos hnewline]
        refine ⟨[], c :: gap, by rw [List.nil_append, List.cons_append, ← hcs], by simp, ?_,
          .separator (isSeparator_of_isNewline hnewline) hgap⟩
        rintro d ⟨⟩
        exact hnewline
      · rw [if_neg hnewline]
        refine ⟨c :: body, gap', by rw [List.cons_append, ← hcs'], ?_, hline, hgap'⟩
        exact List.forall_mem_cons.mpr ⟨by simpa using hnewline, hbody⟩

/-! ## Slices -/

/-- The slice over a text at its place is that text. -/
theorem slice_append {text cs after : List Char} {position : Nat}
    (h : text.drop position = cs ++ after) :
    slice text position (position + cs.length : Nat) = cs := by
  have hlength : ((position + cs.length : Nat) - (position : Int)).toNat = cs.length := by omega
  rw [slice, hlength, Int.toNat_natCast, h, List.take_left]

/-- A slice stands at its place in the text. -/
theorem slice_isPrefix (text : List Char) (position : Nat) (stop : Int) :
    slice text position stop <+: text.drop position := by
  rw [slice, Int.toNat_natCast]
  exact List.take_prefix _ _

/-- A slice within a text is as long as its positions are apart. -/
theorem length_slice {text : List Char} (position : Nat) {stop : Int} (hstart : position ≤ stop)
    (hstop : stop ≤ text.length) : ((slice text position stop).length : Int) = stop - position := by
  rw [slice, List.length_take, List.length_drop, Int.toNat_natCast]
  omega

/-- Behind a text at its place comes what follows it. -/
theorem drop_append {text cs after : List Char} {position : Nat}
    (h : text.drop position = cs ++ after) : text.drop (position + cs.length) = after := by
  rw [← List.drop_drop, h, List.drop_left]

/-! ## One token more -/

namespace Partition

variable {text : List Char}

/-- Trivia alone is covered by no tokens. -/
theorem nil {position : Nat} (hposition : position ≤ text.length)
    (h : Trivia [] (text.drop position)) : Partition text position [] := by
  refine ⟨by simp, .nil, ?_, by simp, by simp, by simp⟩
  intro gap hgap
  obtain rfl := List.mem_singleton.mp hgap
  have hslice := slice_append (List.append_nil (text.drop position)).symm
  rw [List.length_drop, Nat.add_sub_cancel' hposition] at hslice
  refine ⟨by simpa using hposition, ?_⟩
  rw [hslice, Int.toNat_natCast, List.drop_length]
  exact h

/-- In front of a text that is covered there may be trivia and a lexeme. -/
theorem cons {position length : Nat} {gap source value : List Char} {kind : TokenKind}
    {tokens : List Token} (hgap : text.drop position = gap ++ source) (htrivia : Trivia source gap)
    (hlongest : Longest source kind value length) (hlength : 0 < length) (hkind : kind ≠ .eof)
    (h : Partition text (position + gap.length + length : Nat) tokens) :
    Partition text position
      (⟨kind, String.ofList value, ⟨(position + gap.length : Nat),
        (position + gap.length + length : Nat)⟩⟩ :: tokens) := by
  obtain ⟨lexeme, after, hsource, rfl, hlexeme⟩ := hlongest.lexeme
  have hrest : text.drop (position + gap.length) = lexeme ++ after := by
    rw [drop_append hgap, hsource]
  have hfits : position + gap.length + lexeme.length ≤ text.length := by
    have hdrop := congrArg List.length hrest
    rw [List.length_drop, List.length_append] at hdrop
    omega
  refine ⟨?bounds, ?ordered, ?trivia, ?lexeme, ?longest, ?kinds⟩
  case bounds =>
    refine List.forall_mem_cons.mpr ⟨⟨?_, ?_, ?_⟩, fun t ht => ?_⟩
    · exact Int.ofNat_le.mpr (Nat.le_add_right _ _)
    · exact Int.ofNat_lt.mpr (Nat.lt_add_of_pos_right hlength)
    · exact Int.ofNat_le.mpr hfits
    · obtain ⟨hstart, hrest⟩ := h.bounds t ht
      exact ⟨by omega, hrest⟩
  case ordered => exact .cons (fun t ht => (h.bounds t ht).1) h.ordered
  case trivia =>
    rintro g hg
    rcases List.mem_cons.mp hg with rfl | hg
    · refine ⟨Int.ofNat_le.mpr (Nat.le_add_right _ _), ?_⟩
      rw [slice_append hgap, Int.toNat_natCast, drop_append hgap]
      exact htrivia
    · exact h.trivia g hg
  case lexeme =>
    refine List.forall_mem_cons.mpr ⟨?_, h.lexeme⟩
    rw [slice_append hrest, String.toList_ofList]
    exact hlexeme
  case longest =>
    -- A longer lexeme from here on would stand at the front of the same text as the longest one.
    refine List.forall_mem_cons.mpr ⟨fun stop hstop hend kind' value' hlonger => ?_, h.longest⟩
    dsimp only at hstop hlonger
    have hfront := slice_isPrefix text (position + gap.length) stop
    rw [drop_append hgap] at hfront
    have hmaximal := hlongest.maximal kind' _ value' hlonger hfront
    have hlength := length_slice (position + gap.length) (by omega) hend
    omega
  case kinds => exact List.forall_mem_cons.mpr ⟨hkind, h.ne_eof⟩

end Partition

/-! ## The steps of the cursor -/

namespace Cursor

/-- A cursor that stands in a text. -/
structure In (c : Cursor) (text : List Char) : Prop where
  position_le : c.position ≤ text.length
  rest_eq : c.rest = text.drop c.position

/-- The text of a cursor is what it has passed and what is left. -/
theorem In.length_eq {c : Cursor} {text : List Char} (h : c.In text) :
    text.length = c.position + c.rest.length := by
  rw [h.rest_eq, List.length_drop]
  exact (Nat.add_sub_cancel' h.position_le).symm

/-- A cursor that advances over no more than is left stays in the text. -/
theorem In.advance {c : Cursor} {text : List Char} (h : c.In text) {n : Nat}
    (hn : n ≤ c.rest.length) : (c.advance n).In text := by
  have hlength := h.length_eq
  refine ⟨?_, ?_⟩
  · rw [Cursor.advance]
    dsimp only
    omega
  · rw [Cursor.advance]
    dsimp only
    rw [h.rest_eq, List.drop_drop]

/-- Skipping moves a cursor past trivia. -/
theorem skip_eq_advance (c : Cursor) :
    ∃ gap, c.rest = gap ++ skipTrivia c.rest ∧ Trivia (skipTrivia c.rest) gap ∧
      c.skip = c.advance gap.length := by
  obtain ⟨⟨gap, hgap, htrivia⟩, -⟩ := trivia_of_skip c.rest
  refine ⟨gap, hgap, htrivia, ?_⟩
  have hlength := congrArg List.length hgap
  rw [List.length_append] at hlength
  have hrest : c.rest.drop gap.length = skipTrivia c.rest := by
    have hleft : (gap ++ skipTrivia c.rest).drop gap.length = skipTrivia c.rest := List.drop_left
    rwa [← hgap] at hleft
  rw [skip, advance, hrest]
  congr 1
  omega

/-- Skipping leaves a cursor in its text. -/
theorem In.skip {c : Cursor} {text : List Char} (h : c.In text) :
    c.skip.In text ∧ c.position ≤ c.skip.position := by
  obtain ⟨gap, hgap, -, hskipped⟩ := skip_eq_advance c
  have hfits : gap.length ≤ c.rest.length := by
    rw [hgap, List.length_append]
    exact Nat.le_add_right _ _
  rw [hskipped]
  exact ⟨h.advance hfits, Nat.le_add_right _ _⟩

/-- The tokens that the cursor yields up to the end of a text cover the text from the cursor on. -/
theorem tokens_partition {limits : Limits} {text : List Char} {count : Nat} {c : Cursor}
    {tokens : List Token} (h : c.tokens limits count = .ok tokens) (hcount : c.rest.length ≤ count)
    (hc : c.In text) :
    ∃ body, tokens = body ++ [eofAt text.length] ∧ Partition text c.position body := by
  induction count generalizing c tokens with
  | zero =>
    obtain rfl := Except.ok.inj h
    have hnil : c.rest = [] := List.eq_nil_of_length_eq_zero (Nat.le_zero.mp hcount)
    have hend := hc.length_eq
    rw [hnil, List.length_nil, Nat.add_zero] at hend
    refine ⟨[], by rw [hend]; rfl, .nil hc.position_le ?_⟩
    rw [← hc.rest_eq, hnil]
    exact .nil
  | succ count ih =>
    obtain ⟨gap, hgap, htrivia, hskipped⟩ := skip_eq_advance c
    have hend := hc.length_eq
    obtain ⟨token, after, hnext, hrest⟩ := tokens_succ_eq_ok h
    rcases next_located hnext with ⟨hskip, rfl⟩ |
      ⟨first, rest, kind, value, length, hskip, hread, rfl, rfl⟩
    · -- Only trivia is left.
      obtain ⟨-, rfl⟩ | ⟨hkind, -⟩ := hrest
      · rw [hskip, List.append_nil] at hgap
        rw [hskip, ← hgap, hc.rest_eq] at htrivia
        rw [hskipped, ← hgap]
        exact ⟨[], by rw [hend]; rfl, .nil hc.position_le htrivia⟩
      · exact absurd rfl hkind
    · have hproper := Lexeme.read_proper hread
      have hlongest := Lexeme.read_longest hread
      obtain ⟨heof, -⟩ | ⟨-, more, hmore, rfl⟩ := hrest
      · exact absurd heof hproper.ne_eof
      obtain ⟨lexeme, behind, hsource, hlength, -⟩ := hlongest.lexeme
      rw [hskip] at hgap htrivia
      have hfits : gap.length + length ≤ c.rest.length := by
        rw [hgap, hsource, List.length_append, List.length_append]
        omega
      have hafter : c.skip.advance length = c.advance (gap.length + length) := by
        rw [hskipped, advance, advance, advance]
        dsimp only
        rw [List.drop_drop, Nat.add_assoc]
      have hshorter : (c.advance (gap.length + length)).rest.length ≤ count := by
        rw [advance, List.length_drop]
        have := hproper.length_pos
        omega
      rw [hafter] at hmore
      obtain ⟨body, rfl, hbody⟩ := ih hmore hshorter (hc.advance hfits)
      refine ⟨_ :: body, rfl, ?_⟩
      rw [hskipped]
      refine .cons (hc.rest_eq ▸ hgap) htrivia hlongest hproper.length_pos hproper.ne_eof ?_
      rw [Nat.add_assoc]
      exact hbody

end Cursor

/-! ## Whole sources -/

/-- The tokens of a source cover it, and the end token stands behind them at its end. -/
theorem tokenize_partition (source : String) (limits : Limits) (tokens : List Token)
    (h : tokenize source limits = .ok tokens) :
    ∃ body, tokens = body ++ [⟨.eof, "", ⟨source.length, source.length⟩⟩] ∧
      Partition source.toList 0 body := by
  unfold tokenize openSource at h
  split at h
  · cases h
  · rename_i cursor hopen
    split at hopen
    · obtain rfl := Except.ok.inj hopen
      split at h
      · rename_i tokens' htokens
        obtain rfl := Except.ok.inj h
        have hlength : (Cursor.start source).rest.length ≤ source.length :=
          Nat.le_of_eq String.length_toList
        obtain ⟨body, hbody, hpartition⟩ :=
          Cursor.tokens_partition htokens hlength ⟨Nat.zero_le source.toList.length, rfl⟩
        refine ⟨body, ?_, hpartition⟩
        rw [hbody, String.length_toList]
        rfl
      · cases h
    · cases hopen

/-- A comment, in which a quote has no meaning, and behind it a string with an escape. -/
theorem tokenize_partition_comment :
    ∃ tokens, tokenize "1.. // \"\n'\\t';" .standard = .ok tokens ∧
      tokens = [⟨.number, "1", ⟨0, 1⟩⟩, ⟨.dotDot, "..", ⟨1, 3⟩⟩, ⟨.string, "\t", ⟨9, 13⟩⟩,
        ⟨.eof, "", ⟨14, 14⟩⟩] ∧
      ∃ body, tokens = body ++ [⟨.eof, "", ⟨14, 14⟩⟩] ∧
        Partition "1.. // \"\n'\\t';".toList 0 body := by
  have htokens : (tokenize "1.. // \"\n'\\t';" .standard).toOption = some [⟨.number, "1", ⟨0, 1⟩⟩,
      ⟨.dotDot, "..", ⟨1, 3⟩⟩, ⟨.string, "\t", ⟨9, 13⟩⟩, ⟨.eof, "", ⟨14, 14⟩⟩] := by decide +kernel
  cases h : tokenize "1.. // \"\n'\\t';" .standard with
  | error e =>
    rw [h] at htokens
    cases htokens
  | ok tokens =>
    rw [h] at htokens
    obtain rfl := Option.some.inj htokens
    exact ⟨_, rfl, rfl, tokenize_partition _ _ _ h⟩

end Formulary
