import Formulary.Proofs.Pointing

/-!
# The scanner moves on

Whatever stands in front of it, the cursor gets past it.  A lexeme that is read uses up at least one
character, and a fault leaves off behind what it blames or one character before
(`Lexeme.read_leavesOff`).  So each step of the cursor yields the end token at the end of the text,
or moves the cursor on within the text (`Cursor.next_moves`).  Over any number of steps, with
failures among them, the cursor runs through the text in one direction, comes to the end after no
more steps than there are characters, and stays there (`scanner_advances`).
-/

set_option autoImplicit false

namespace Formulary

/-! ## Lexemes -/

/-- A mantissa has at least one character. -/
theorem Mantissa.length_pos {ds : List Char} (h : Mantissa ds) : 0 < ds.length := by
  cases h with
  | whole _ hne => exact List.length_pos_of_ne_nil hne
  | pointed =>
    exact List.length_pos_of_ne_nil (List.append_ne_nil_of_right_ne_nil _ (List.cons_ne_nil _ _))

namespace Lexeme

/-- A fault uses up something, and leaves off where its blame ends or one character before. -/
def LeavesOff : Lexeme → Prop
  | .token .. => True
  | .fault _ _ stop length => 0 < length ∧ (stop = length ∨ stop = length + 1)

/-- A string that is read on from some characters already used leaves off as faults do. -/
theorem leavesOff_stringFrom {quote : Char} {value cs : List Char} {used : Nat} (hused : 0 < used) :
    LeavesOff (stringFrom quote value used cs) := by
  fun_induction stringFrom quote value used cs with
  | case1 => exact ⟨hused, .inl rfl⟩
  | case2 => trivial
  | case3 => exact ⟨Nat.succ_pos _, .inl rfl⟩
  | case4 value used _ e after _ _ ih => exact ih (Nat.succ_pos _)
  | case5 => exact ⟨Nat.succ_pos _, .inl rfl⟩
  | case6 => exact ⟨Nat.succ_pos _, .inl rfl⟩
  | case7 value used c rest _ _ _ ih => exact ih (Nat.succ_pos _)

/-- The second point of a number is blamed but not used up. -/
theorem leavesOff_number {cs : List Char}
    (h : startsWithDigit cs = true ∨ ∃ rest, cs = '.' :: rest ∧ startsWithDigit rest = true) :
    LeavesOff (number cs) := by
  have hbase := (mantissa_mantissa h).length_pos
  rw [number_eq rfl rfl rfl]
  generalize hmark : exponentMark (cs.drop (mantissa cs).length) = mark
  generalize (if mark.isEmpty then [] else
    (cs.drop ((mantissa cs).length + mark.length)).takeWhile Text.isAsciiDigit) = digits
  have hpositive : 0 < (mantissa cs ++ mark ++ digits).length := by
    simp only [List.length_append]
    omega
  refine iteInduction (fun _ => ⟨hpositive, .inl rfl⟩) fun _ => ?_
  split
  · exact iteInduction (fun _ => ⟨hpositive, .inr rfl⟩) fun _ => trivial
  · trivial

/-- Whatever lexeme starts at a character, a fault in reading it leaves off as faults do. -/
theorem read_leavesOff (c : Char) (rest : List Char) : LeavesOff (read c rest) :=
  read_induction c rest (fun _ _ _ => trivial) (fun _ => ⟨Nat.one_pos, .inl rfl⟩)
    (leavesOff_stringFrom Nat.one_pos) leavesOff_number

/-- A lexeme uses up something, and nothing that is not there. -/
theorem length_read (c : Char) (rest : List Char) :
    0 < (read c rest).length ∧ (read c rest).length ≤ (c :: rest).length := by
  cases hread : read c rest with
  | token kind value length =>
    obtain ⟨text, after, hsource, rfl, -⟩ := (read_longest hread).lexeme
    rw [hsource, List.length_append]
    exact ⟨(read_proper hread).length_pos, Nat.le_add_right _ _⟩
  | fault fault start stop length =>
    have hleaves : LeavesOff (.fault fault start stop length) := hread ▸ read_leavesOff c rest
    obtain ⟨hpositive, hstop⟩ := hleaves
    obtain ⟨-, hblamed⟩ := read_blames c rest fault start stop length hread
    have hused : length ≤ stop := by omega
    exact ⟨hpositive, Nat.le_trans hused hblamed⟩

end Lexeme

/-! ## Steps -/

namespace Cursor

/-- What a step can do to a cursor in a text of the given length: yield the end token at the end of
the text, or move on behind a token, a fault that marks a part of the text, or a string that is over
its limit. -/
inductive Moves (size : Nat) (c : Cursor) : Except ScanFailure Token → Cursor → Prop
  | done {after} : c.position ≤ after.position → after.position = size →
      Moves size c (.ok (eofAt size)) after
  | token {token after} : token.kind ≠ .eof → c.position < after.position →
      Moves size c (.ok token) after
  | lexical {fault start stop after} : c.position ≤ start → start < stop → stop ≤ size →
      stop = after.position ∨ stop = after.position + 1 → c.position < after.position →
      Moves size c (.error (.lexical fault start stop)) after
  | limit {name bound amount after} : c.position < after.position →
      Moves size c (.error (.limit (.limitExceeded name bound amount))) after

/-- A step leaves the cursor in the text and does one of the things that a step can do. -/
theorem next_moves (limits : Limits) {text : List Char} {c : Cursor} (hc : c.In text) :
    (c.next limits).2.In text ∧ Moves text.length c (c.next limits).1 (c.next limits).2 := by
  obtain ⟨hskip, hle⟩ := hc.skip
  have hsize := hskip.length_eq
  cases hrest : c.skip.rest with
  | nil =>
    rw [hrest, List.length_nil, Nat.add_zero] at hsize
    rw [next_of_end limits hrest, hsize]
    exact ⟨hskip, .done hle rfl⟩
  | cons first rest =>
    obtain ⟨hpositive, hfits⟩ := Lexeme.length_read first rest
    have hadvance : c.position < (c.skip.advance (Lexeme.read first rest).length).position :=
      Nat.lt_of_le_of_lt hle (Nat.lt_add_of_pos_right hpositive)
    rw [next_of_lexeme limits hrest]
    refine ⟨hskip.advance (hrest ▸ hfits), ?_⟩
    dsimp only
    cases hread : Lexeme.read first rest with
    | fault fault start stop length =>
      rw [hread] at hadvance
      have hleaves : Lexeme.LeavesOff (.fault fault start stop length) :=
        hread ▸ Lexeme.read_leavesOff first rest
      obtain ⟨hstart, hstop⟩ := Lexeme.read_blames first rest fault start stop length hread
      rw [hrest] at hsize
      refine .lexical (by omega) (by omega) (by omega) ?_ hadvance
      show _ = c.skip.position + length ∨ _ = c.skip.position + length + 1
      have hends := hleaves.2
      omega
    | token kind value length =>
      rw [hread] at hadvance
      have hkind : kind ≠ .eof := (Lexeme.read_proper hread).ne_eof
      rcases accept_cases limits c.skip.position kind value length with haccept | ⟨haccept, -⟩
      · rw [haccept]
        exact .token hkind hadvance
      · rw [haccept]
        exact .limit hadvance

/-- A step never moves the cursor back. -/
theorem Moves.position_le {size : Nat} {c after : Cursor} {reply : Except ScanFailure Token}
    (h : Moves size c reply after) : c.position ≤ after.position := by
  cases h with
  | done hle => exact hle
  | token _ hlt => exact Nat.le_of_lt hlt
  | lexical _ _ _ _ hlt => exact Nat.le_of_lt hlt
  | limit hlt => exact Nat.le_of_lt hlt

/-- Where a step does not move the cursor on, it has come to the end. -/
theorem Moves.eof_or_lt {size : Nat} {c after : Cursor} {reply : Except ScanFailure Token}
    (h : Moves size c reply after) :
    (reply = .ok (eofAt size) ∧ after.position = size) ∨ c.position < after.position := by
  cases h with
  | done _ hend => exact .inl ⟨rfl, hend⟩
  | token _ hlt => exact .inr hlt
  | lexical _ _ _ _ hlt => exact .inr hlt
  | limit hlt => exact .inr hlt

/-- Only at the end of the text does a step yield an end token. -/
theorem Moves.eof {size : Nat} {c after : Cursor} {token : Token}
    (h : Moves size c (.ok token) after) (hkind : token.kind = .eof) :
    token = eofAt size ∧ after.position = size := by
  cases h with
  | done _ hend => exact ⟨rfl, hend⟩
  | token hne => exact absurd hkind hne

/-- A lexical error of a source marks a part of it that is not empty, up to where the cursor has
come or one character further. -/
theorem Moves.marks {size : Nat} {c after : Cursor} {failure : ScanFailure}
    (h : Moves size c (.error failure) after) {source : String} {fault : LexicalFault}
    (hcause : (failure.toError source).cause = .lexical fault) :
    ∃ start stop : Nat, (failure.toError source).site = ⟨some start, some source, some stop⟩ ∧
      start < stop ∧
      (stop = after.position ∨ stop = after.position + 1) ∧ stop ≤ size := by
  cases h with
  | lexical _ hlt hstop hends _ => exact ⟨_, _, rfl, hlt, hends, hstop⟩
  | limit => cases hcause

/-! ## Runs -/

/-- The cursor after a number of steps, whatever they yield. -/
def after (limits : Limits) (c : Cursor) : Nat → Cursor
  | 0 => c
  | n + 1 => ((c.after limits n).next limits).2

/-- What the step behind a number of steps yields. -/
def reply (limits : Limits) (c : Cursor) (n : Nat) : Except ScanFailure Token :=
  ((c.after limits n).next limits).1

section Runs

variable (limits : Limits) {text : List Char} {c : Cursor} (hc : c.In text)
include hc

/-- After any number of steps, the cursor is still in the text. -/
theorem after_in (n : Nat) : (c.after limits n).In text := by
  induction n with
  | zero => exact hc
  | succ n ih => exact (next_moves limits ih).1

/-- Each step of a run moves the cursor as a single step does. -/
theorem reply_moves (n : Nat) :
    Moves text.length (c.after limits n) (c.reply limits n) (c.after limits (n + 1)) :=
  (next_moves limits (after_in limits hc n)).2

/-- At the end of its text the cursor stays. -/
theorem position_after_end {n : Nat} (hend : (c.after limits n).position = text.length) (k : Nat) :
    (c.after limits (n + k)).position = text.length := by
  induction k with
  | zero => exact hend
  | succ k ih =>
    have hle := (reply_moves limits hc (n + k)).position_le
    have hin := (after_in limits hc (n + k + 1)).position_le
    exact Nat.le_antisymm hin (ih ▸ hle)

/-- Once the cursor is at the end of the text, the next step yields the end token. -/
theorem reply_of_end {n : Nat} (hend : (c.after limits n).position = text.length) :
    c.reply limits n = .ok (eofAt text.length) := by
  have hin := (after_in limits hc (n + 1)).position_le
  rcases (reply_moves limits hc n).eof_or_lt with ⟨heof, -⟩ | hlt
  · exact heof
  · omega

/-- After an end token there are only end tokens at the end of the text. -/
theorem reply_eof_of_le {n m : Nat} {token : Token} (htoken : c.reply limits n = .ok token)
    (hkind : token.kind = .eof) (hm : n ≤ m) : c.reply limits m = .ok (eofAt text.length) := by
  have hmove := reply_moves limits hc n
  rw [htoken] at hmove
  obtain ⟨rfl, hend⟩ := hmove.eof hkind
  rcases Nat.eq_or_lt_of_le hm with rfl | hlt
  · exact htoken
  · obtain ⟨k, rfl⟩ := Nat.exists_eq_add_of_le hlt
    exact reply_of_end limits hc (position_after_end limits hc hend k)

/-- As long as the end token has not been yielded, every step has moved the cursor on. -/
theorem reply_eof_or_le (n : Nat) :
    (∃ m < n, c.reply limits m = .ok (eofAt text.length)) ∨
    c.position + n ≤ (c.after limits n).position := by
  induction n with
  | zero => exact .inr (Nat.le_refl _)
  | succ n ih =>
    rcases ih with ⟨m, hm, heof⟩ | hle
    · exact .inl ⟨m, Nat.lt_succ_of_lt hm, heof⟩
    · rcases (reply_moves limits hc n).eof_or_lt with ⟨heof, -⟩ | hlt
      · exact .inl ⟨n, Nat.lt_succ_self n, heof⟩
      · exact .inr (by omega)

/-- The end token comes after no more steps than there are characters left. -/
theorem exists_reply_eof : ∃ n ≤ c.rest.length, c.reply limits n = .ok (eofAt text.length) := by
  have hsize := hc.length_eq
  have hin := (after_in limits hc (c.rest.length + 1)).position_le
  rcases reply_eof_or_le limits hc (c.rest.length + 1) with ⟨m, hm, heof⟩ | hle
  · exact ⟨m, Nat.le_of_lt_succ hm, heof⟩
  · omega

end Runs

end Cursor

/-- Over any number of steps, with failures among them: the cursor never goes back and never leaves
the source; every step that does not yield the end token moves it on; a lexical fault marks a part
of the source that is not empty and ends where the cursor stands then, or one character behind;
after an end token there are only end tokens at the end of the source; and one comes after no more
steps than the source has characters. -/
theorem scanner_advances (source : String) (limits : Limits) :
    let c := (Cursor.start source).after limits
    let reply := (Cursor.start source).reply limits
    (∀ n, (c n).position ≤ (c (n + 1)).position ∧ (c n).position ≤ source.length) ∧
    (∀ n, (∀ token, reply n = .ok token → token.kind ≠ .eof) → (c n).position <
      (c (n + 1)).position) ∧
    (∀ n failure fault, reply n = .error failure → (failure.toError source).cause = .lexical fault →
      ∃ start stop : Nat, (failure.toError source).site = ⟨some start, some source, some stop⟩ ∧
        start < stop ∧ (stop = (c (n + 1)).position ∨ stop = (c (n + 1)).position + 1) ∧
          stop ≤ source.length) ∧
    (∀ n token, reply n = .ok token → token.kind = .eof →
      ∀ m, n ≤ m → reply m = .ok (Cursor.eofAt source.length)) ∧
    ∃ n ≤ source.length, reply n = .ok (Cursor.eofAt source.length) := by
  intro c reply
  have hstart := start_in source
  have hlength : source.toList.length = source.length := String.length_toList
  rw [← hlength]
  have hmoves : ∀ n, Cursor.Moves source.toList.length (c n) (reply n) (c (n + 1)) :=
    Cursor.reply_moves limits hstart
  refine ⟨fun n =>
    ⟨(hmoves n).position_le, (Cursor.after_in limits hstart n).position_le⟩, ?_, ?_, ?_, ?_⟩
  · intro n htoken
    rcases (hmoves n).eof_or_lt with ⟨heof, -⟩ | hlt
    · exact absurd rfl (htoken _ heof)
    · exact hlt
  · intro n failure fault hfailure hcause
    have hmove := hmoves n
    rw [hfailure] at hmove
    exact hmove.marks hcause
  · intro n token htoken hkind m hm
    exact Cursor.reply_eof_of_le limits hstart htoken hkind hm
  · exact Cursor.exists_reply_eof limits hstart

/-- A second point, a lone ampersand and an unclosed quote do not stop the cursor. -/
example : (List.range 6).map (fun n => ((Cursor.start "1.5.5 & 'a").after .standard n).position) =
    [0, 3, 5, 7, 10, 10] := by decide +kernel

end Formulary
