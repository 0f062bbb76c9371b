import Formulary.Proofs.Spans

/-!
# What the parser guarantees

Everything behind the parser relies on the trees that it returns: they are well formed, and they are
within the limits they were read with.  Limits are kept in three places.  A string is measured by
the scanner, a list where the parser has read its last element, and the nodes and levels of a tree
by a walk over the finished tree, which finds as many as recursion does (`Expr.weight` and
`Expr.height`).
-/

set_option autoImplicit false

namespace Formulary

namespace Expr

/-! ## Trees within limits -/

/-- The text of a string literal is within its limit. -/
def StringWithin (limits : Limits) : Expr → Prop
  | .string _ value => (value.length : Int) ≤ limits.bound .stringLength
  | _ => True

/-- Spans do not count for whether a node's own list is within its limit. -/
theorem listWithin_bare (limits : Limits) (e : Expr) :
    e.bare.ListWithin limits ↔ e.ListWithin limits := by
  cases e with
  | array | call => simp only [bare, bareAll_eq_map, ListWithin, List.length_map]
  | comprehension _ _ _ guard _ => cases guard <;> exact Iff.rfl
  | foreign item => cases item <;> exact Iff.rfl
  | _ => exact Iff.rfl

/-- A tree has its lists within limits if it has so without its spans. -/
theorem listsWithin_of_bare {limits : Limits} {e : Expr} (h : e.bare.ListsWithin limits) :
    e.ListsWithin limits :=
  everywhere_of_bare (fun node => (listWithin_bare limits node).mp) h

end Expr

open Formulary.Expr

/-- A text that denotes a string is scanned as that string, which is therefore within its limit. -/
theorem Denotes.string_le {limits : Limits} {text : List Char} {value : String}
    (h : Denotes limits text (.string value)) :
    (value.length : Int) ≤ limits.bound .stringLength := by
  obtain ⟨token, htokens, hliteral⟩ := h
  have hstring : token.kind = .string ∧ token.value = value := by
    unfold Token.literal? at hliteral
    split at hliteral <;> simp_all
  rw [← hstring.2]
  exact (tokenize_within htokens).2 token List.mem_cons_self hstring.1

namespace Parser

variable {source : String} {limits : Limits} {t : Expr}

/-- The string literals of a parsed tree are within their limit. -/
theorem parse_stringsWithin (h : parse source limits = .ok t) :
    t.Everywhere (StringWithin limits) := by
  intro node hnode
  have hexact := parse_exact h node hnode
  cases node with
  | string span value => exact hexact.text.string_le
  | _ => trivial

/-- The arrays and the argument lists of a parsed tree are within their limits. -/
theorem parse_listsWithin (h : parse source limits = .ok t) : t.ListsWithin limits := by
  obtain ⟨body, ts, s, htokens, hne, hrun, rfl, -⟩ := statements_of_parse h
  obtain ⟨body', eof, hbody, hscans, heof⟩ := tokenize_scans htokens
  obtain ⟨rfl, -⟩ := List.append_inj' hbody rfl
  have hsymbols : (⟨body, 0⟩ : Stream).symbols ≠ [] := by simpa [Stream.symbols] using hne
  have hend : (⟨source, limits, Cursor.eofAt source.length⟩ : Input).eof.kind = .eof := rfl
  have hsound := statements_sound hend body.length ⟨body, 0⟩
    (Nat.le_of_eq (Stream.length_symbols _))
    (pending_body hscans) hsymbols
  rw [hrun] at hsound
  have hwithin : ∀ t ∈ ts, t.ListsWithin limits :=
    fun t ht => listsWithin_of_bare (hsound.2 _ (List.mem_map_of_mem ht))
  rcases ts with _ | ⟨single, _ | ⟨second, more⟩⟩
  · exact (everywhere_iff _).mpr ⟨trivial, hwithin⟩
  · exact hwithin single List.mem_cons_self
  · exact (everywhere_iff _).mpr ⟨trivial, hwithin⟩

/-- A parsed tree is within the limits for its nodes and its depth. -/
theorem parse_measured (h : parse source limits = .ok t) :
    (t.size : Int) ≤ limits.bound .nodeCount ∧ (t.depth : Int) ≤ limits.bound .treeDepth := by
  obtain ⟨-, -, -, -, -, -, -, hwithin⟩ := statements_of_parse h
  rcases withinLimits_cases limits t with ⟨-, hmeasures⟩ | ⟨failure, herror, -⟩
  · exact hmeasures
  · cases herror.symm.trans hwithin

end Parser

/-- A tree that the parser returns is well formed and within limits.  A program stands at the root
only and has two statements or more, names are names, operators belong to the language, and no
number is negative (negative zero included) or NaN; strings, arrays and argument lists are as short,
and nodes and levels as few, as the limits say. -/
theorem parse_formed_within {source : String} {limits : Limits} {t : Expr}
    (h : parse source limits = .ok t) :
    t.WellFormed ∧ t.Everywhere Unsigned ∧ t.Everywhere (StringWithin limits) ∧
    t.ListsWithin limits ∧
      (t.weight : Int) ≤ limits.bound .nodeCount ∧ (t.height : Int) ≤ limits.bound .treeDepth := by
  obtain ⟨hformed, hunsigned⟩ := parse_wellFormed h
  obtain ⟨hsize, hdepth⟩ := Parser.parse_measured h
  rw [size_eq_weight] at hsize
  rw [depth_eq_height] at hdepth
  exact ⟨hformed, hunsigned, Parser.parse_stringsWithin h, Parser.parse_listsWithin h,
    hsize, hdepth⟩

/-- Two statements that use up their limits: a string of two characters, an array of two elements, a
call with two arguments, fourteen nodes on six levels. -/
theorem parse_formed_within_narrow :
    let limits :=
      ((((Limits.standard.set .stringLength 2).set .arrayLength 2).set .argumentCount 2).set
        .nodeCount 14).set .treeDepth 6
    ∃ t, parse "x = f([1, 'ab'], -2)[0]; if x then y else z" limits = .ok t ∧
      t.weight = 14 ∧ t.height = 6 ∧ t.WellFormed ∧ t.Everywhere Unsigned ∧
      t.Everywhere (StringWithin limits) ∧ t.ListsWithin limits ∧
      (t.weight : Int) ≤ limits.bound .nodeCount ∧ (t.height : Int) ≤ limits.bound .treeDepth := by
  intro limits
  have hmeasures : (parse "x = f([1, 'ab'], -2)[0]; if x then y else z" limits).toOption.map
      (fun t => (t.weight, t.height)) = some (14, 6) := by decide +kernel
  cases h : parse "x = f([1, 'ab'], -2)[0]; if x then y else z" limits with
  | error failure =>
    rw [h] at hmeasures
    cases hmeasures
  | ok t =>
    rw [h] at hmeasures
    obtain ⟨hweight, hheight⟩ := Prod.mk.inj (Option.some.inj hmeasures)
    exact ⟨t, rfl, hweight, hheight, parse_formed_within h⟩

end Formulary
