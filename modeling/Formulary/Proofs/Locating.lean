import Formulary.Error.Basic
import Mathlib.Algebra.Order.Ring.Int
import Mathlib.Data.List.Induction

/-!
# Places in a text

Line and column are counted from the left, character by character; the line that an excerpt shows is
found from the offset, backward and forward to the nearest line breaks.  Both see the same lines:
the text in front of an offset is a number of ended lines and the beginning of another
(`Text.exists_ended`), so that the text as a whole is those lines, the line of the offset and the
others behind it (`Text.exists_lines_around`).  Hence line and column tell the offset, in the order
of the offsets, and the pointer of an excerpt stands below its column (`lineColumn_locates`).
-/

set_option autoImplicit false

namespace Formulary

namespace Text

/-! ## The order of places -/

namespace LineColumn

/-- One place is in an earlier line than another, or in the same line at an earlier column. -/
def Before (a b : LineColumn) : Prop :=
  a.line < b.line ∨ (a.line = b.line ∧ a.column < b.column)

/-- The order of places is transitive. -/
theorem Before.trans {a b c : LineColumn} (hab : a.Before b) (hbc : b.Before c) : a.Before c := by
  unfold Before at *
  omega

/-- Behind every character, a line break or not, comes a later place. -/
theorem before_advance (here : LineColumn) (c : Char) : here.Before (here.advance c) := by
  unfold advance
  by_cases hc : c = '\n'
  · rw [if_pos hc]
    exact .inl (Nat.lt_succ_self _)
  · rw [if_neg hc]
    exact .inr ⟨rfl, Nat.lt_succ_self _⟩

/-- Characters lead to a later place. -/
theorem before_foldl (here : LineColumn) (c : Char) (cs : List Char) :
    here.Before ((c :: cs).foldl advance here) := by
  induction cs generalizing here c with
  | nil => exact here.before_advance c
  | cons d cs ih => exact (here.before_advance c).trans (ih (here.advance c) d)

end LineColumn

/-- Positions and their places are in the same order. -/
theorem lineColumn_before {text : List Char} {p q : Nat} (hpq : p < q) (hq : q ≤ text.length) :
    (lineColumn text p).Before (lineColumn text q) := by
  have htake : text.take q = text.take p ++ (text.drop p).take (q - p) := by
    rw [← List.take_add]
    congr 1
    omega
  have hlength : ((text.drop p).take (q - p)).length = q - p := by
    rw [List.length_take, List.length_drop]
    omega
  show LineColumn.Before (List.foldl _ _ (text.take p)) (List.foldl _ _ (text.take q))
  rw [htake, List.foldl_append]
  cases hbetween : (text.drop p).take (q - p) with
  | nil =>
    rw [hbetween, List.length_nil] at hlength
    omega
  | cons c cs => exact LineColumn.before_foldl _ c cs

/-! ## Lines -/

/-- What a text has behind its last line break. -/
def lastLine (text : List Char) : List Char :=
  (text.reverse.takeWhile (· != '\n')).reverse

/-- Behind a line break, the last line is empty. -/
theorem lastLine_snoc_newline (text : List Char) : lastLine (text ++ ['\n']) = [] := by
  simp [lastLine]

/-- Any other character goes on the last line. -/
theorem lastLine_snoc {c : Char} (hc : c ≠ '\n') (text : List Char) :
    lastLine (text ++ [c]) = lastLine text ++ [c] := by
  simp [lastLine, hc]

/-- Lines, each with the break that ends it. -/
def ended (lines : List (List Char)) : List Char :=
  (lines.map (· ++ ['\n'])).flatten

/-- Each line counts one more for its break. -/
theorem length_ended (lines : List (List Char)) :
    (ended lines).length = (lines.map (·.length + 1)).sum := by
  induction lines with
  | nil => rfl
  | cons line lines ih =>
    show (line ++ ['\n'] ++ ended lines).length = line.length + 1 + (lines.map (·.length + 1)).sum
    rw [← ih]
    simp only [List.length_append, List.length_singleton]

/-- A text is a number of ended lines and a last one without a break; walking over it leads to as
many lines and to the column behind the last one. -/
theorem exists_ended (text : List Char) :
    ∃ lines, text = ended lines ++ lastLine text ∧ (∀ line ∈ lines, '\n' ∉ line) ∧
      '\n' ∉ lastLine text ∧
      text.foldl LineColumn.advance ⟨1, 1⟩ = ⟨lines.length + 1, (lastLine text).length + 1⟩ := by
  -- By induction on the last character: a break ends the last line, anything else makes it longer.
  induction text using List.reverseRecOn with
  | nil => exact ⟨[], rfl, by simp, by simp [lastLine], rfl⟩
  | append_singleton text c ih =>
    obtain ⟨lines, htext, hlines, hlast, hplace⟩ := ih
    rw [List.foldl_append, hplace]
    by_cases hc : c = '\n'
    · subst hc
      refine ⟨lines ++ [lastLine text], ?_, ?_, ?_, ?_⟩
      · rw [lastLine_snoc_newline, List.append_nil]
        conv => lhs; rw [htext]
        simp [ended]
      · intro line hline
        rcases List.mem_append.mp hline with hline | hline
        · exact hlines line hline
        · obtain rfl := List.mem_singleton.mp hline
          exact hlast
      · rw [lastLine_snoc_newline]
        exact List.not_mem_nil
      · rw [lastLine_snoc_newline, List.length_append]
        rfl
    · refine ⟨lines, ?_, hlines, ?_, ?_⟩
      · rw [lastLine_snoc hc, ← List.append_assoc, ← htext]
      · rw [lastLine_snoc hc]
        intro hmem
        rcases List.mem_append.mp hmem with hmem | hmem
        · exact hlast hmem
        · exact hc (List.mem_singleton.mp hmem).symm
      · rw [lastLine_snoc hc, List.length_append]
        exact if_neg hc

/-- A text of ended lines splits into these lines, and what follows splits as it does by itself. -/
theorem splitOn_ended {lines : List (List Char)} (h : ∀ line ∈ lines, '\n' ∉ line)
    (rest : List Char) :
    (ended lines ++ rest).splitOn '\n' = lines ++ rest.splitOn '\n' := by
  induction lines with
  | nil => rfl
  | cons line lines ih =>
    have hcons : ended (line :: lines) ++ rest = line ++ '\n' :: (ended lines ++ rest) := by
      simp [ended]
    rw [hcons, List.splitOn_append_cons_self_of_not_mem (h line List.mem_cons_self),
      ih fun line hline => h line (List.mem_cons_of_mem _ hline)]
    rfl

/-- A line that has begun goes on to the next break. -/
theorem exists_splitOn_of_begun {line : List Char} (h : '\n' ∉ line) (rest : List Char) :
    ∃ more, (line ++ rest).splitOn '\n' = (line ++ rest.takeWhile (· != '\n')) :: more := by
  have hbegun : '\n' ∉ line ++ rest.takeWhile (· != '\n') := by
    intro hmem
    rcases List.mem_append.mp hmem with hmem | hmem
    · exact h hmem
    · simpa using List.all_eq_true.mp List.all_takeWhile _ hmem
  have hrest : line ++ rest = line ++ rest.takeWhile (· != '\n') ++ rest.dropWhile (· != '\n') := by
    rw [List.append_assoc, List.takeWhile_append_dropWhile]
  rw [hrest]
  cases hdrop : rest.dropWhile (· != '\n') with
  | nil =>
    rw [List.append_nil]
    exact ⟨[], List.splitOn_eq_singleton hbegun⟩
  | cons c more =>
    obtain rfl : c = '\n' := by
      have hhead := List.head?_dropWhile_not (· != '\n') rest
      rw [hdrop] at hhead
      simpa using hhead
    exact ⟨_, List.splitOn_append_cons_self_of_not_mem hbegun more⟩

/-- The lines of a text around an offset: those in front of its line are as many as the number of
its line says, and the offset is as far from the start of its line as its column says. -/
theorem exists_lines_around (text : List Char) (offset : Nat) :
    ∃ before after, text.splitOn '\n' = before ++ lineAt text offset :: after ∧
      lineColumn text offset = ⟨before.length + 1, (lineBefore text offset).length + 1⟩ ∧
      (text.take offset).length =
        (before.map (·.length + 1)).sum + (lineBefore text offset).length := by
  obtain ⟨before, htext, hbefore, hlast, hplace⟩ := exists_ended (text.take offset)
  obtain ⟨after, hafter⟩ := exists_splitOn_of_begun hlast (text.drop offset)
  refine ⟨before, after, ?_, hplace, ?_⟩
  · calc text.splitOn '\n'
      _ = (ended before ++ (lastLine (text.take offset) ++ text.drop offset)).splitOn '\n' := by
        rw [← List.append_assoc, ← htext, List.take_append_drop]
      _ = before ++ lineAt text offset :: after := by
        rw [splitOn_ended hbefore, hafter]
        rfl
  · rw [← length_ended, ← List.length_append]
    exact congrArg List.length htext

end Text

open Text

/-- The line and the column of an offset in a source tell the offset, as the lengths of the lines in
front of its line and a distance within its line; a later offset is at a later place; and an error
at the offset is shown with exactly its line, and the pointer below its column. -/
theorem lineColumn_locates (source : String) (p : Nat) (hp : p ≤ source.length) :
    let lines := source.toList.splitOn '\n'
    let here := lineColumn source.toList p
    (∃ line, lines[here.line - 1]? = some line ∧ 1 ≤ here.line ∧ 1 ≤ here.column ∧
      p = ((lines.take (here.line - 1)).map (·.length + 1)).sum + (here.column - 1) ∧
      here.column - 1 ≤ line.length ∧
      ∀ (cause : Cause) (stop : Option Int), Error.excerpt ⟨cause, ⟨some p, some source, stop⟩⟩ =
        cause.message ++ "\n  " ++ String.ofList line ++ "\n  "
          ++ String.ofList (List.replicate (here.column - 1) ' ') ++ "^") ∧
    ∀ q, p < q → q ≤ source.length → here.Before (lineColumn source.toList q) := by
  intro lines here
  obtain ⟨before, after, hlines, hhere, hoffset⟩ := exists_lines_around source.toList p
  have htake : (source.toList.take p).length = p := by
    rw [List.length_take, String.length_toList, Nat.min_eq_left hp]
  have hline : here.line = before.length + 1 := congrArg LineColumn.line hhere
  have hcolumn : here.column = (lineBefore source.toList p).length + 1 :=
    congrArg LineColumn.column hhere
  have hindent : indentAt source.toList p = here.column - 1 := by
    unfold indentAt
    omega
  refine ⟨⟨lineAt source.toList p, ?_, ?_, ?_, ?_, ?_, ?_⟩, ?_⟩
  · rw [hline, Nat.add_sub_cancel]
    show (source.toList.splitOn '\n')[before.length]? = _
    rw [hlines, List.getElem?_append_right (Nat.le_refl _), Nat.sub_self]
    rfl
  · exact hline ▸ Nat.succ_pos _
  · exact hcolumn ▸ Nat.succ_pos _
  · rw [hline, hcolumn, Nat.add_sub_cancel, Nat.add_sub_cancel]
    show p = (((source.toList.splitOn '\n').take before.length).map _).sum + _
    rw [hlines, List.take_left, ← hoffset, htake]
  · rw [hcolumn, Nat.add_sub_cancel, lineAt, List.length_append]
    exact Nat.le_add_right _ _
  · intro cause stop
    rw [← hindent]
    rfl
  · intro q hpq hq
    exact lineColumn_before hpq (String.length_toList ▸ hq)

/-- The break that ends an empty line stands in that line, in front of the line that it leads to. -/
theorem lineColumn_locates_empty_line :
    let source := "x =\n\n1"
    4 ≤ source.length ∧ lineColumn source.toList 4 = ⟨2, 1⟩ ∧
      (∃ line, (source.toList.splitOn '\n')[1]? = some line ∧
        Error.excerpt ⟨.general "here", ⟨some 4, some source, none⟩⟩ =
          "here" ++ "\n  " ++ String.ofList line ++ "\n  " ++ String.ofList [] ++ "^") ∧
      LineColumn.Before ⟨2, 1⟩ (lineColumn source.toList 5) := by
  intro source
  have hlength : 4 ≤ source.length := by decide
  have hplace : lineColumn source.toList (4 : Nat) = ⟨2, 1⟩ := by decide +kernel
  have hlocates := lineColumn_locates source 4 hlength
  rw [hplace] at hlocates
  obtain ⟨⟨line, hline, -, -, -, -, hexcerpt⟩, hbefore⟩ := hlocates
  exact ⟨hlength, hplace, ⟨line, hline, hexcerpt (.general "here") none⟩, hbefore 5 (by decide)
    (by decide)⟩

end Formulary
