import Formulary.Proofs.Printing
import Formulary.Proofs.WellFormed

/-!
# Printing a tree and reading it again

`Expr.spelled` is the tree that the text of a well-formed tree stands for.  It differs in the number
literals that have no text of their own: a negative number is printed as the negation of a number,
and NaN as a product.

The proof follows the tree.  `entry`, `reach` and `nested` say how the text of a tree can be used
(`Reads`), and the rules for parentheses put a part in parentheses wherever its construct asks for
more (`demand_left` and its like), so that every text is read as its spelling (`reads_render`).  A
tree that the parser returns is its own spelling (`spelled_eq_self`), so it is read back as it was.
-/

set_option autoImplicit false

namespace Formulary

open Grammar

namespace Number

/-- A number without its sign. -/
def magnitude (x : Float) : Float :=
  if isNegative x then -x else x

/-- The text of a number is read as that number, if it is finite. -/
def ReadsBack (x : Float) : Prop :=
  isFinite x = true → read? (Expr.codeStyle.text x) = some x

/-- It is decidable whether the text of a number is read as that number. -/
instance (x : Float) : Decidable (ReadsBack x) :=
  inferInstanceAs (Decidable (_ → _))

end Number

namespace Expr

/-- The texts of the number literals of a tree, their signs aside, are read as the numbers. -/
def LiteralReadsBack : Expr → Prop
  | .number _ value => Number.ReadsBack (Number.magnitude value)
  | _ => True

/-- What the text of a number literal stands for. -/
def spelledNumber (span : Span) (value : Float) : Expr :=
  if Number.isNaN value then .binary span .multiply (.number span 0) (.number span (1.0 / 0.0))
  else if Number.isNegative value then .unary span .negate (.number span (-value))
  else .number span value

mutual

/-- The tree that the text of a tree stands for. -/
def spelled : Expr → Expr
  | .program span statements => .program span (spelledAll statements)
  | .number span value => spelledNumber span value
  | .string span value => .string span value
  | .boolean span value => .boolean span value
  | .array span elements => .array span (spelledAll elements)
  | .identifier span name => .identifier span name
  | .binary span operator left right => .binary span operator left.spelled right.spelled
  | .unary span operator argument => .unary span operator argument.spelled
  | .call span name arguments => .call span name (spelledAll arguments)
  | .assign span name value => .assign span name value.spelled
  | .conditional span condition consequent alternate =>
    .conditional span condition.spelled consequent.spelled alternate.spelled
  | .comprehension span binder iterable none body =>
    .comprehension span binder iterable.spelled none body.spelled
  | .comprehension span binder iterable (some guard) body =>
    .comprehension span binder iterable.spelled (some guard.spelled) body.spelled
  | .index span object offset => .index span object.spelled offset.spelled
  | .range span first last inclusive => .range span first.spelled last.spelled inclusive
  | .foreign item => .foreign item

/-- The trees that the texts of several trees stand for. -/
def spelledAll : List Expr → List Expr
  | [] => []
  | e :: es => e.spelled :: spelledAll es

end

/-- The trees that several texts stand for are those of each text. -/
@[simp] theorem spelledAll_eq_map (es : List Expr) : spelledAll es = es.map spelled := by
  induction es with
  | nil => rfl
  | cons e es ih => rw [spelledAll, ih, List.map_cons]

/-- Several trees are rendered one by one. -/
@[simp] theorem renderAll_eq_map (es : List Expr) : renderAll es = es.map render := by
  induction es with
  | nil => rfl
  | cons e es ih => rw [renderAll, ih, List.map_cons]

/-! ## How a text can be used -/

/-- The largest minimum at which the text of a tree is read whole. -/
def entry : Expr → Nat
  | .binary _ operator _ _ => operator.precedence
  | .range .. => 6
  | .assign .. => 1
  | _ => 11

/-- The text of a tree ends in front of symbols with levels below this. -/
def reach : Expr → Nat
  | .binary _ operator _ _ => rightMinimum operator
  | .range .. => 7
  | .assign .. | .conditional .. | .comprehension .. | .program .. => 0
  | .unary .. => 9
  | .number _ value => if Number.isNegative value then 9 else 12
  | .string .. | .boolean .. | .array .. | .identifier .. | .call .. | .index .. | .foreign _ => 12

/-- The text of a tree is read whole at least at the tree's own precedence. -/
theorem precedence_le_entry (e : Expr) : e.precedence ≤ e.entry := by
  cases e with
  | number _ value => simp only [precedence, entry]; split <;> decide
  | binary => exact Nat.le_refl _
  | _ => exact Nat.le_of_ble_eq_true rfl

/-- From the conditional's level on, the text of a tree reaches at least to every level up to the
tree's own precedence. -/
theorem le_reach {e : Expr} {level : Nat} (hlevel : 2 ≤ level) (h : level ≤ e.precedence) :
    level ≤ e.reach := by
  cases e with
  | binary _ operator _ _ =>
    simp only [reach, rightMinimum]
    simp only [precedence] at h
    split <;> omega
  | number _ value =>
    simp only [reach]
    simp only [precedence, Precedence.unary, Precedence.postfixed] at h
    split at h <;> simp_all
    omega
  | _ =>
    simp only [precedence, Precedence.unary, Precedence.postfixed, Precedence.range,
      Precedence.assignment, Precedence.loosest] at h
    simp only [reach]
    omega

/-- Only powers group from the right, and they bind tightest. -/
theorem precedence_of_isRightAssociative {operator : BinaryOp}
    (h : operator.isRightAssociative = true) : operator.precedence = 10 := by
  cases operator <;> first | rfl | cases h

/-- Between the levels of conditionals and of products, the text of a tree reaches beyond every
level up to the tree's own precedence. -/
theorem lt_reach {e : Expr} {level : Nat} (hlevel : 2 ≤ level) (hlow : level ≤ 8)
    (h : level ≤ e.precedence) : level < e.reach := by
  cases e with
  | binary _ operator _ _ =>
    simp only [reach, rightMinimum]
    simp only [precedence] at h
    split
    · rename_i hright
      have := precedence_of_isRightAssociative hright
      omega
    · omega
  | number _ value =>
    simp only [reach]
    split <;> omega
  | _ =>
    simp only [precedence, Precedence.range, Precedence.assignment, Precedence.loosest] at h
    simp only [reach]
    omega

/-- The text of a tree that binds most tightly reaches beyond all infix symbols. -/
theorem twelve_le_reach {e : Expr} (h : 11 ≤ e.precedence) : 12 ≤ e.reach := by
  cases e with
  | binary _ operator _ _ =>
    simp only [precedence] at h
    cases operator <;> simp [BinaryOp.precedence, Precedence.loosest] at h
  | number _ value =>
    simp only [precedence, Precedence.unary, Precedence.postfixed] at h
    simp only [reach]
    split at h <;> simp_all
  | _ =>
    simp only [precedence, Precedence.unary, Precedence.range, Precedence.assignment,
      Precedence.loosest] at h
    simp only [reach]
    omega

mutual

/-- How many expressions are nested in one another below the text of a tree.  What stands in front
of an infix operator or an index belongs to the expression itself; all other parts are nested in it,
and so is what stands in parentheses. -/
def nested : Expr → Nat
  | .program .. | .string .. | .boolean .. | .identifier .. | .foreign _ => 0
  | .number _ value => if Number.isNaN value then 2 else if Number.isNegative value then 1 else 0
  | .array _ elements => nestedAll elements
  | .binary _ operator left right =>
    max (levelsIf (needsParens operator left operator.isRightAssociative) left.nested)
      (levelsIf (needsParens operator right !operator.isRightAssociative) right.nested + 1)
  | .unary _ _ argument => levelsIf argument.isCompound argument.nested + 1
  | .call _ _ arguments => nestedAll arguments
  | .assign _ _ value => value.nested + 1
  | .conditional _ condition consequent alternate =>
    max (condition.nested + 1) (max (consequent.nested + 1) (alternate.nested + 1))
  | .comprehension _ _ iterable none body => max (iterable.nested + 1) (body.nested + 1)
  | .comprehension _ _ iterable (some guard) body =>
    max (iterable.nested + 1) (max (guard.nested + 1) (body.nested + 1))
  | .index _ object offset =>
    max (levelsIf (decide (object.precedence < Precedence.postfixed)) object.nested)
      (offset.nested + 1)
  | .range _ first last _ =>
    max (levelsIf (decide (first.precedence < Precedence.range)) first.nested)
      (levelsIf (decide (last.precedence ≤ Precedence.range)) last.nested + 1)

/-- How many expressions are nested in one another in the texts of the elements of a list. -/
def nestedAll : List Expr → Nat
  | [] => 0
  | e :: es => max (e.nested + 1) (nestedAll es)

end

/-- The nesting of several texts is that of the deepest one. -/
theorem nestedAll_eq (es : List Expr) : nestedAll es = deepest (es.map nested) := by
  induction es with
  | nil => rfl
  | cons e es ih => rw [nestedAll, ih, List.map_cons, deepest]

/-- How many expressions are nested in one another in the text of a tree.  The statements of a
program stand side by side; those that are marked are in parentheses. -/
def nesting : Expr → Nat
  | .program _ statements => lineLevels (markStatements (renderAll statements))
    (statements.map nested)
  | e => e.nested + 1

/-! The rules for parentheses leave a part without them only if it meets the demand of its place. -/

section Demands

variable {operator : BinaryOp} (hoperator : operator ∈ BinaryOp.all)
include hoperator

/-- The levels of the operators of the language; on level ten there are only powers. -/
theorem precedence_cases : 3 ≤ operator.precedence ∧
    ((operator.isRightAssociative = true ∧ operator.precedence = 10) ∨
      (operator.isRightAssociative = false ∧ operator.precedence ≤ 8)) := by
  have hall : ∀ op ∈ BinaryOp.all, 3 ≤ op.precedence ∧
      ((op.isRightAssociative = true ∧ op.precedence = 10) ∨
        (op.isRightAssociative = false ∧ op.precedence ≤ 8)) := by decide
  exact hall operator hoperator

/-- A left operand without parentheses is read whole and ends in front of its operator. -/
theorem demand_left {left : Expr}
    (h : needsParens operator left operator.isRightAssociative = false) :
    operator.precedence ≤ left.entry ∧ operator.precedence + 1 ≤ left.reach := by
  have hentry := left.precedence_le_entry
  simp only [needsParens, Bool.or_eq_false_iff, decide_eq_false_iff_not, Bool.and_eq_false_iff,
    beq_eq_false_iff_ne] at h
  obtain ⟨hlow, hgroup⟩ := h
  obtain ⟨hthree, ⟨hright, hten⟩ | ⟨-, height⟩⟩ := precedence_cases hoperator
  · have hne : left.precedence ≠ operator.precedence := by simpa [hright] using hgroup
    have hreach := twelve_le_reach (e := left) (by omega)
    exact ⟨by omega, by omega⟩
  · exact ⟨by omega, lt_reach (by omega) height (by omega)⟩

/-- A right operand without parentheses is read whole behind its operator and ends where it does. -/
theorem demand_right {right : Expr}
    (h : needsParens operator right (!operator.isRightAssociative) = false) :
    rightMinimum operator ≤ right.entry ∧ rightMinimum operator ≤ right.reach := by
  have hentry := right.precedence_le_entry
  simp only [needsParens, Bool.or_eq_false_iff, decide_eq_false_iff_not, Bool.and_eq_false_iff,
    beq_eq_false_iff_ne] at h
  obtain ⟨hlow, hgroup⟩ := h
  have hminimum : rightMinimum operator ≤ right.precedence := by
    unfold rightMinimum
    cases hassociative : operator.isRightAssociative with
    | true => simp only [↓reduceIte]; omega
    | false =>
      have hne : right.precedence ≠ operator.precedence := by simpa [hassociative] using hgroup
      simp only [Bool.false_eq_true, ↓reduceIte]
      omega
  have htwo : 2 ≤ rightMinimum operator := by
    have hthree := (precedence_cases hoperator).1
    unfold rightMinimum
    split <;> omega
  exact ⟨by omega, le_reach htwo hminimum⟩

end Demands

/-- The operand of a unary operator without parentheses is read whole behind it. -/
theorem demand_unary {argument : Expr} (hformed : argument.Formed)
    (h : argument.isCompound = false) : 9 ≤ argument.entry ∧ 9 ≤ argument.reach := by
  cases argument with
  | program => exact hformed.elim
  | number _ value =>
    simp only [entry, reach]
    split <;> omega
  | binary | range | assign | conditional | comprehension => cases h
  | _ => exact ⟨Nat.le_of_ble_eq_true rfl, Nat.le_of_ble_eq_true rfl⟩

/-- The value of an assignment is read whole behind the equals sign. -/
theorem demand_value {value : Expr} (hformed : value.Formed) : 1 ≤ value.entry := by
  cases value with
  | binary _ operator _ _ =>
    have hthree := (precedence_cases (show operator ∈ BinaryOp.all from hformed)).1
    exact Nat.le_trans (by decide) hthree
  | _ => exact Nat.le_of_ble_eq_true rfl

/-! ## Numbers -/

/-- The infinite number is written as a numeral that is too large for a double. -/
theorem text_infinite {x : Float} (h : Number.parts x = .infinite false) :
    codeStyle.text x = "1e999" := by
  unfold Number.Style.text
  rw [h]
  rfl

/-- A number that is not negative is read back from its text. -/
theorem read_text {x : Float} (hsign : Number.isNegative x = false) (hnan : Number.isNaN x = false)
    (h : Number.ReadsBack x) : Number.read? (codeStyle.text x) = some x := by
  cases hparts : Number.parts x with
  | nan => simp [Number.isNaN, hparts] at hnan
  | finite negative m q => exact h (by simp [Number.isFinite, hparts])
  | infinite negative =>
    obtain rfl : negative = false := by simpa [Number.isNegative, hparts] using hsign
    have hread : Number.read? "1e999" = some (1.0 / 0.0) := by decide +kernel
    have hinfinite : Number.parts (1.0 / 0.0) = .infinite false := by decide +kernel
    rw [text_infinite hparts, hread, Number.eq_of_infinite hparts hinfinite]

/-- A number that is not negative is read back from its text. -/
theorem reads_unsigned {x : Float} (hsign : Number.isNegative x = false)
    (hnan : Number.isNaN x = false) (h : Number.ReadsBack x) (entry reach : Nat) :
    Reads (codeStyle.text x).toList (.number .none x) entry reach 0 := by
  refine reads_numeral (Number.unsigned_text hsign hnan) ?_ entry reach
  rw [String.ofList_toList]
  exact read_text hsign hnan h

/-- What is no number is printed as a product that is none. -/
theorem reads_nan (entry reach : Nat) :
    Reads "(0 * 1e999)".toList
      (.binary .none .multiply (.number .none 0) (.number .none (1.0 / 0.0))) entry reach 2 := by
  have hzero : Reads "0".toList (.number .none 0) 8 9 0 :=
    reads_numeral (Number.unsigned_toDigits 0) (by decide +kernel) _ _
  have hinfinite : Number.parts (1.0 / 0.0) = .infinite false := by decide +kernel
  have hlast : Reads "1e999".toList (.number .none (1.0 / 0.0)) 9 9 0 := by
    rw [← text_infinite hinfinite]
    exact reads_unsigned (by decide +kernel) (by decide +kernel) (by decide +kernel) 9 9
  have hkind : BinaryOp.multiply.tokenKind? = some .star := rfl
  exact (Reads.binary hkind hzero (by decide) hlast).parens entry reach

/-- The text of a number that reads back is read as what it stands for. -/
theorem reads_number (value : Float) (h : Number.ReadsBack (Number.magnitude value)) :
    Reads (codeStyle.text value).toList (spelledNumber .none value) 11
      (if Number.isNegative value then 9 else 12) (Expr.number .none value).nested := by
  unfold spelledNumber nested
  cases hnan : Number.isNaN value with
  | true =>
    have htext : codeStyle.text value = "(0 * 1e999)" := by
      unfold Number.isNaN at hnan
      unfold Number.Style.text
      cases hparts : Number.parts value <;> simp [hparts] at hnan ⊢
      rfl
    rw [htext]
    exact reads_nan _ _
  | false =>
    cases hsign : Number.isNegative value with
    | false =>
      simp only [Number.magnitude, hsign, Bool.false_eq_true, ↓reduceIte] at h ⊢
      exact reads_unsigned hsign hnan h _ _
    | true =>
      simp only [Number.magnitude, hsign, Bool.false_eq_true, ↓reduceIte] at h ⊢
      obtain ⟨hsign', hnan'⟩ := Number.isNegative_neg hsign
      rw [Number.text_of_negative hsign]
      exact Reads.negate (reads_unsigned hsign' hnan' h 9 9) (by decide) (by decide) 11

/-! ## Trees -/

mutual

/-- The tree that the text of a tree stands for, spans aside, if its number literals stand for the
given trees. -/
def spelledBy (number : Float → Expr) : Expr → Expr
  | .program _ statements => .program .none (spelledAllBy number statements)
  | .number _ value => number value
  | .string _ value => .string .none value
  | .boolean _ value => .boolean .none value
  | .array _ elements => .array .none (spelledAllBy number elements)
  | .identifier _ name => .identifier .none name
  | .binary _ operator left right =>
    .binary .none operator (left.spelledBy number) (right.spelledBy number)
  | .unary _ operator argument => .unary .none operator (argument.spelledBy number)
  | .call _ name arguments => .call .none name (spelledAllBy number arguments)
  | .assign _ name value => .assign .none name (value.spelledBy number)
  | .conditional _ condition consequent alternate =>
    .conditional .none (condition.spelledBy number) (consequent.spelledBy number)
      (alternate.spelledBy number)
  | .comprehension _ binder iterable none body =>
    .comprehension .none binder (iterable.spelledBy number) none (body.spelledBy number)
  | .comprehension _ binder iterable (some guard) body =>
    .comprehension .none binder (iterable.spelledBy number) (some (guard.spelledBy number))
      (body.spelledBy number)
  | .index _ object offset => .index .none (object.spelledBy number) (offset.spelledBy number)
  | .range _ first last inclusive =>
    .range .none (first.spelledBy number) (last.spelledBy number) inclusive
  | .foreign item => (Expr.foreign item).bare

/-- The trees that the texts of several trees stand for. -/
def spelledAllBy (number : Float → Expr) : List Expr → List Expr
  | [] => []
  | e :: es => e.spelledBy number :: spelledAllBy number es

end

/-- The trees that several texts stand for, by given numbers, are those of each text. -/
@[simp] theorem spelledAllBy_eq_map (number : Float → Expr) (es : List Expr) :
    spelledAllBy number es = es.map (spelledBy number) := by
  induction es with
  | nil => rfl
  | cons e es ih => rw [spelledAllBy, ih, List.map_cons]

/-- What a number literal stands for, without its spans, does not depend on the literal's span. -/
theorem bare_spelledNumber (span : Span) (value : Float) :
    (spelledNumber span value).bare = spelledNumber .none value := by
  unfold spelledNumber
  split
  · rfl
  · split <;> rfl

/-- What a tree stands for, without its spans, is determined by what its number literals stand
for. -/
theorem bare_spelled (e : Expr) : e.spelled.bare = e.spelledBy (spelledNumber .none) := by
  induction e using byParts with
  | number => rw [spelled, bare_spelledNumber, spelledBy]
  | program _ es ih | array _ es ih | call _ _ es ih =>
    have hes : es.map (fun e => e.spelled.bare) = es.map (spelledBy (spelledNumber .none)) :=
      List.map_congr_left ih
    simp [spelled, bare, spelledBy, Function.comp_def, hes]
  | comprehension _ _ _ guard _ hiterable hguard hbody =>
    cases guard with
    | none => simp [spelled, bare, spelledBy, hiterable, hbody]
    | some guard => simp [spelled, bare, spelledBy, hiterable, hguard guard rfl, hbody]
  | conditional _ _ _ _ hcondition hconsequent halternate =>
    simp [spelled, bare, spelledBy, hcondition, hconsequent, halternate]
  | binary _ _ _ _ hleft hright | index _ _ _ hleft hright | range _ _ _ _ hleft hright =>
    simp [spelled, bare, spelledBy, hleft, hright]
  | unary _ _ _ ih | assign _ _ _ ih => simp [spelled, bare, spelledBy, ih]
  | string | boolean | identifier | foreign => simp [spelled, bare, spelledBy]

/-- Every binary operator of the language is written as a token of some kind. -/
theorem tokenKind_of_mem {operator : BinaryOp} (h : operator ∈ BinaryOp.all) :
    ∃ kind, operator.tokenKind? = some kind := by
  have hall : ∀ op ∈ BinaryOp.all, op.tokenKind?.isSome := by decide
  exact Option.isSome_iff_exists.mp (hall operator h)

/-- The texts of the number literals of a tree are read as the given trees. -/
def LiteralReads (number : Float → Expr) : Expr → Prop
  | .number span value => Reads (codeStyle.text value).toList (number value) 11
      (if Number.isNegative value then 9 else 12) (Expr.number span value).nested
  | _ => True

/-- If the text of a number literal reads back, it is read as what the literal stands for. -/
theorem literalReads_of_readsBack {e : Expr} (h : e.LiteralReadsBack) :
    e.LiteralReads (spelledNumber .none) := by
  cases e with
  | number _ value => exact reads_number value h
  | _ => trivial

section Rendering

variable (number : Float → Expr)

/-- The text of a tree is read as its spelling. -/
theorem reads_render (e : Expr) (hformed : e.Everywhere Formed)
    (hliterals : e.Everywhere (LiteralReads number)) :
    Reads e.render (e.spelledBy number) e.entry e.reach e.nested := by
  induction e using byParts with
  | program => exact hformed.root.elim
  | foreign => exact hformed.root.elim
  | number => exact hliterals.root
  | string _ value => exact reads_string value _ _
  | boolean _ value => exact reads_boolean value _ _
  | identifier _ name =>
    have hname : isName name = true := hformed.root
    exact reads_identifier hname _ _
  | array span es ih =>
    have hes : ∀ e ∈ es, ∃ entry reach, Reads e.render (e.spelledBy number) entry reach e.nested :=
      fun e he => ⟨_, _, ih e he (hformed.part he) (hliterals.part he)⟩
    have hread := reads_array render (spelledBy number) nested hes 11 12
    rwa [← renderAll_eq_map, ← nestedAll_eq, ← spelledAllBy_eq_map] at hread
  | call span name es ih =>
    have hes : ∀ e ∈ es, ∃ entry reach, Reads e.render (e.spelledBy number) entry reach e.nested :=
      fun e he => ⟨_, _, ih e he (hformed.part he) (hliterals.part he)⟩
    have hname : isName name = true := hformed.root
    have hread := reads_call render (spelledBy number) nested hname hes 11 12
    rwa [← renderAll_eq_map, ← nestedAll_eq, ← spelledAllBy_eq_map] at hread
  | binary _ operator left right hleft hright =>
    have hoperator : operator ∈ BinaryOp.all := hformed.root
    obtain ⟨kind, hkind⟩ := tokenKind_of_mem hoperator
    have hleft' := hleft (hformed.part (by simp [children])) (hliterals.part (by simp [children]))
    have hright' := hright (hformed.part (by simp [children])) (hliterals.part (by simp [children]))
    exact Reads.binary hkind (hleft'.parensIf (demand_left hoperator)) (Nat.lt_succ_self _)
      (hright'.parensIf (demand_right hoperator))
  | unary span operator argument ih =>
    have hpart : argument ∈ (Expr.unary span operator argument).children := by simp [children]
    have hargument := ih (hformed.part hpart) (hliterals.part hpart)
    have hread : Reads (parenthesizeIf argument.isCompound argument.render)
        (argument.spelledBy number) 9 9 _ :=
      hargument.parensIf (demand_unary (hformed.part hpart).root)
    rcases hformed.root with rfl | rfl
    · exact hread.negate (Nat.le_refl 9) (Nat.le_refl 9) 11
    · exact hread.not (Nat.le_refl 9) (Nat.le_refl 9) 11
  | assign _ name value ih =>
    have hvalue := ih (hformed.part (by simp [children])) (hliterals.part (by simp [children]))
    exact Reads.assign hformed.root hvalue (demand_value (hformed.part (by simp [children])).root)
  | conditional _ condition consequent alternate hcondition hconsequent halternate =>
    have hcondition' := hcondition (hformed.part (by simp [children]))
      (hliterals.part (by simp [children]))
    have hconsequent' := hconsequent (hformed.part (by simp [children]))
      (hliterals.part (by simp [children]))
    have halternate' := halternate (hformed.part (by simp [children]))
      (hliterals.part (by simp [children]))
    exact hcondition'.conditional hconsequent' halternate' 11
  | comprehension _ binder iterable guard body hiterable hguard hbody =>
    have hbinder : isName binder = true := hformed.root
    have hiterable' := hiterable (hformed.part (by simp [children]))
      (hliterals.part (by simp [children]))
    have hbody' := hbody (hformed.part (by simp [children])) (hliterals.part (by simp [children]))
    cases guard with
    | none => exact Reads.comprehension hbinder hiterable' hbody' 11
    | some guard =>
      have hguard' := hguard guard rfl (hformed.part (by simp [children]))
        (hliterals.part (by simp [children]))
      exact Reads.guarded hbinder hiterable' hguard' hbody' 11
  | index _ object offset hobject hoffset =>
    have hobject' := hobject (hformed.part (by simp [children]))
      (hliterals.part (by simp [children]))
    have hoffset' := hoffset (hformed.part (by simp [children]))
      (hliterals.part (by simp [children]))
    -- The offset stands in brackets and needs no parentheses; the object must bind as tightly as an
    -- index.
    refine Reads.index (hobject'.parensIf fun h => ?_) hoffset' 12
    have hprecedence : 11 ≤ object.precedence := Nat.le_of_not_lt (of_decide_eq_false h)
    exact ⟨Nat.le_trans hprecedence object.precedence_le_entry, twelve_le_reach hprecedence⟩
  | range _ first last inclusive hfirst hlast =>
    have hfirst' := hfirst (hformed.part (by simp [children])) (hliterals.part (by simp [children]))
    have hlast' := hlast (hformed.part (by simp [children])) (hliterals.part (by simp [children]))
    -- Ranges group to the left: what stands last has to bind more tightly than a range.
    refine Reads.range (hfirst'.parensIf fun h => ?_) (Nat.lt_succ_self 6)
      (hlast'.parensIf fun h => ?_) inclusive
    · have hprecedence : 6 ≤ first.precedence := Nat.le_of_not_lt (of_decide_eq_false h)
      exact ⟨Nat.le_trans hprecedence first.precedence_le_entry,
        lt_reach (by decide) (by decide) hprecedence⟩
    · have hprecedence : 7 ≤ last.precedence := Nat.lt_of_not_le (of_decide_eq_false h)
      exact ⟨Nat.le_trans hprecedence last.precedence_le_entry, le_reach (by decide) hprecedence⟩

/-- The text of a well-formed tree stands for its spelling, with as many levels as it nests
expressions. -/
theorem statements_render {e : Expr} (h : e.WellFormed)
    (hliterals : e.Everywhere (LiteralReads number)) :
    ∃ xs ts, Spells Clear e.render xs ∧ Needs e.nesting (fun k => Statements k xs ts) ∧
      e.spelledBy number = Grammar.assemble ts := by
  have hsingle : e.Everywhere Formed → ∃ xs ts, Spells Clear e.render xs ∧
      Needs (e.nested + 1) (fun k => Statements k xs ts) ∧
        e.spelledBy number = Grammar.assemble ts := by
    intro hformed
    obtain ⟨xs, hspells, -, hchain⟩ := reads_render number e hformed hliterals
    have hphrase := @phrase_of_chain _ _ _ _ 0 _ hchain (Nat.zero_le _) [] trivial trivial trivial
    rw [List.append_nil] at hphrase
    exact ⟨xs, _, hspells, hphrase.single, rfl⟩
  cases e with
  | program span es =>
    obtain ⟨hlength, hformed⟩ := h
    have hes : ∀ e ∈ es, ∃ entry reach, Reads e.render (e.spelledBy number) entry reach e.nested :=
      fun e he => ⟨_, _, reads_render number e (hformed e he) (hliterals.part he)⟩
    have hne : es ≠ [] := List.ne_nil_of_length_pos (by omega)
    obtain ⟨xs, hspells, hstatements⟩ := reads_statements render (spelledBy number) nested hne hes
    rw [← renderAll_eq_map] at hspells hstatements
    refine ⟨xs, _, hspells, hstatements, ?_⟩
    match es, hlength with
    | e :: e' :: es, _ => simp [spelledBy, Grammar.assemble]
  | _ => exact hsingle h

end Rendering

/-- A tree without negative numbers and NaN is its own spelling. -/
theorem spelled_eq_self {e : Expr} (h : e.Everywhere Unsigned) : e.spelled = e := by
  induction e using byParts with
  | number span value =>
    obtain ⟨hsign, hnan⟩ := h.root
    simp [spelled, spelledNumber, hsign, hnan]
  | program _ es ih | array _ es ih | call _ _ es ih =>
    have hes : es.map spelled = es := by
      rw [List.map_congr_left fun e he => ih e he (h.part he), List.map_id']
    simp [spelled, hes]
  | comprehension _ _ iterable guard body hiterable hguard hbody =>
    have hiterable' := hiterable (h.part (by simp [children]))
    have hbody' := hbody (h.part (by simp [children]))
    cases guard with
    | none => simp [spelled, hiterable', hbody']
    | some guard =>
      have hguard' := hguard guard rfl (h.part (by simp [children]))
      simp [spelled, hiterable', hguard', hbody']
  | conditional _ condition consequent alternate hcondition hconsequent halternate =>
    simp [spelled, hcondition (h.part (by simp [children])),
      hconsequent (h.part (by simp [children])), halternate (h.part (by simp [children]))]
  | binary _ _ left right hleft hright | index _ left right hleft hright
  | range _ left right _ hleft hright =>
    simp [spelled, hleft (h.part (by simp [children])), hright (h.part (by simp [children]))]
  | unary _ _ value ih | assign _ _ value ih => simp [spelled, ih (h.part (by simp [children]))]
  | string | boolean | identifier | foreign => simp [spelled]

/-- A well-formed tree has a text. -/
theorem code_eq {e : Expr} (h : e.WellFormed) : e.code = .ok (String.ofList e.render) := by
  rw [code, defect?_eq_none h.not_foreign]

end Expr

open Formulary.Expr

/-! ## Reading a text -/

/-- A source that is scanned has tokens, unless it is too long or one of its strings is. -/
theorem tokenize_of_scans {source : String} {xs : List Symbol} (h : Scans source.toList xs)
    (limits : Limits) :
    (∃ body eof, tokenize source limits = .ok (body ++ [eof]) ∧ body.map Token.symbol = xs ∧
      eof.kind = .eof) ∨
    ∃ e, tokenize source limits = .error e ∧ (Failure.error e).IsLimit ∧
      ¬ ((source.length : Int) ≤ limits.bound .expressionLength ∧
        ∀ x ∈ xs, x.kind = .string → (x.value.length : Int) ≤ limits.bound .stringLength) := by
  rcases Int.lt_or_le (limits.bound .expressionLength) source.length with hlong | hlength
  · rw [tokenize_of_tooLong hlong]
    exact .inr ⟨_, rfl, ⟨_, _, _, rfl⟩, fun hwithin => Int.not_lt.mpr hwithin.1 hlong⟩
  · rw [tokenize_of_within hlength]
    rcases Cursor.tokens_of_scans limits h source.length (.start source) rfl
        (Nat.le_of_eq String.length_toList) with
      ⟨body, eof, htokens, hbody, heof⟩ | ⟨x, hx, htokens, hkind, hover⟩
    · exact .inl ⟨body, eof, by rw [htokens]; rfl, hbody, heof⟩
    · exact .inr ⟨_, by rw [htokens]; rfl, ⟨_, _, _, rfl⟩, fun hwithin =>
        Int.not_lt.mpr (hwithin.2 x hx hkind) hover⟩

/-- A text that is scanned as given symbols in front of every clear text is scanned so by itself. -/
theorem scans_of_spells {cs : List Char} {xs : List Symbol} (h : Spells Clear cs xs) :
    Scans (String.ofList cs).toList xs := by
  have hend := h [] [] (.inl rfl) (.done rfl)
  rw [List.append_nil, List.append_nil] at hend
  rwa [String.toList_ofList]

/-- A text that spells a sentence is read as the tree of the sentence, unless a limit is exceeded;
none is that is larger than the length of the text. -/
theorem parse_of_spells {cs : List Char} {xs : List Symbol} {t : Expr}
    (hspells : Spells Clear cs xs) (hsentence : Sentence xs t) (limits : Limits) :
    (∃ tree, parse (String.ofList cs) limits = .ok tree ∧ tree.bare = t) ∨
      ∃ failure, parse (String.ofList cs) limits = .error failure ∧ failure.IsLimit ∧
        ¬ ∀ kind, ((String.ofList cs).length : Int) < limits.bound kind := by
  have hscans := scans_of_spells hspells
  rcases tokenize_of_scans hscans limits with
    ⟨body, eof, htokens, rfl, heof⟩ | ⟨e, htokens, hlimit, hover⟩
  · rcases Parser.parse_complete htokens heof hscans hsentence with hparse |
      ⟨failure, hparse, hlimit⟩
    · exact .inl hparse
    · refine .inr ⟨failure, hparse, hlimit, fun hbounds => ?_⟩
      have hsound := Parser.parse_sound htokens heof hscans
      rw [hparse] at hsound
      rcases hsound with hsyntax | ⟨-, hover⟩
      · exact Failure.not_isSyntax_of_isLimit hlimit hsyntax
      · refine hover fun kind => ?_
        have hlength := hscans.length_le.1
        have hbound := hbounds kind
        rw [List.length_map, String.length_toList] at hlength
        omega
  · refine .inr ⟨.error e, by rw [parse, htokens], hlimit, fun hbounds => hover ?_⟩
    refine ⟨Int.le_of_lt (hbounds .expressionLength), fun x hx hkind => ?_⟩
    have hvalue := hscans.length_le.2 x hx hkind
    have hbound := hbounds .stringLength
    rw [String.length_toList] at hvalue
    omega

/-- A tree has a text, and under limits that the text does not exceed, the text is read as another
tree, spans aside.  It exceeds no limit that is larger than its length. -/
def PrintsAs (e : Expr) (tree : Expr) : Prop :=
  ∃ source, e.code = .ok source ∧ ∀ limits,
    ((∀ failure, parse source limits = .error failure → ¬ failure.IsLimit) →
      ∃ found, parse source limits = .ok found ∧ found.bare = tree.bare) ∧
    ((∀ kind, (source.length : Int) < limits.bound kind) →
      ∀ failure, parse source limits = .error failure → ¬ failure.IsLimit)

/-- The text of a well-formed tree whose number literals read back is read as what it stands for. -/
theorem printsAs_spelled {e : Expr} (h : e.WellFormed) (hliterals : e.Everywhere LiteralReadsBack) :
    PrintsAs e e.spelled := by
  obtain ⟨xs, ts, hspells, hstatements, hspelled⟩ :=
    statements_render (spelledNumber .none) h (hliterals.imp fun _ => literalReads_of_readsBack)
  rw [← bare_spelled] at hspelled
  refine ⟨_, code_eq h, fun limits => ?_⟩
  rcases parse_of_spells hspells ⟨_, ts, hstatements.holds, hspelled⟩ limits with
    ⟨tree, hparse, htree⟩ | ⟨failure, hparse, hlimit, hover⟩
  · exact ⟨fun _ => ⟨tree, hparse, htree⟩, fun _ failure herror => by simp [hparse] at herror⟩
  · exact ⟨fun hallowed => absurd hlimit (hallowed failure hparse), fun hbounds =>
      absurd hbounds hover⟩

/-- Printing a tree and reading the text again gives the tree, but for negative numbers and NaN.
Under limits that its text does not exceed, the text of a well-formed tree is read as the tree in
which every negative number is the negation of its magnitude and every NaN is `0 * inf`; and the
text of a tree that the parser has returned is read as that tree. -/
theorem parse_code (e : Expr) (hliterals : e.Everywhere LiteralReadsBack) :
    (e.WellFormed → PrintsAs e e.spelled) ∧
      ∀ source limits, parse source limits = .ok e → PrintsAs e e := by
  refine ⟨fun h => printsAs_spelled h hliterals, fun source limits hparse => ?_⟩
  obtain ⟨hformed, hunsigned⟩ := parse_wellFormed hparse
  have hprints := printsAs_spelled hformed hliterals
  rwa [spelled_eq_self hunsigned] at hprints

/-- A program whose second statement could go on the first: both are put in parentheses. -/
theorem parse_code_of_negative_and_nan :
    ∃ found, parse "((-2) ^ x)\n([(0 * 1e999)])" .standard = .ok found ∧ found.bare =
      .program .none [.binary .none .power (.unary .none .negate (.number .none 2))
          (.identifier .none "x"),
        .array .none [.binary .none .multiply (.number .none 0) (.number .none (1.0 / 0.0))]] := by
  let e : Expr := .program .none [.binary .none .power (.number .none (-2)) (.identifier .none "x"),
    .array .none [.number .none (0.0 / 0.0)]]
  have hliterals : e.Everywhere LiteralReadsBack := by
    have htwo : Number.ReadsBack (Number.magnitude (-2)) := by decide +kernel
    have hnan : Number.ReadsBack (Number.magnitude (0.0 / 0.0)) := by decide +kernel
    simp [e, Everywhere, nodes_eq, children, LiteralReadsBack, htwo, hnan]
  have hformed : e.WellFormed := by
    have hx : isName "x" = true := by decide
    refine ⟨by decide, fun t ht => ?_⟩
    simp only [List.mem_cons, List.not_mem_nil, or_false] at ht
    rcases ht with rfl | rfl <;>
      simp [Everywhere, nodes_eq, children, Formed, BinaryOp.all, hx]
  have hrender : e.render = "((-2) ^ x)\n([(0 * 1e999)])".toList := by decide +kernel
  obtain ⟨source, hcode, hparse⟩ := (parse_code e hliterals).1 hformed
  rw [code_eq hformed, hrender, String.ofList_toList] at hcode
  obtain rfl := Except.ok.inj hcode
  have hspelled : e.spelled.bare =
      .program .none [.binary .none .power (.unary .none .negate (.number .none 2))
          (.identifier .none "x"),
        .array .none [.binary .none .multiply (.number .none 0) (.number .none (1.0 / 0.0))]] := by
    have htwo : Number.isNaN (-2) = false ∧ Number.isNegative (-2) = true ∧ (- -2 : Float) = 2 := by
      decide +kernel
    have hnan : Number.isNaN (0.0 / 0.0) = true := by decide +kernel
    simp [e, spelled, spelledNumber, bare, htwo, hnan]
  rw [← hspelled]
  exact (hparse .standard).1 ((hparse .standard).2 fun kind => by cases kind <;> decide)

end Formulary
