import Formulary.Proofs.Nesting
import Formulary.Proofs.Spelling

/-!
# Formula text is read as it was printed

`Reads text tree entry reach levels` says how a text can be used inside another: it spells symbols
that are a chain for `tree`, where the minimum asked for is at most `entry` and the next symbol has
a level below `reach`, and `levels` is how many expressions are nested in it.  There is one lemma
for every construct of the language, with what the construct asks of the texts of its parts; a part
in parentheses meets every demand (`Reads.parens`), for one more level.
-/

set_option autoImplicit false

namespace Formulary

open Grammar Formulary.Expr

/-- A symbol that goes on with nothing: no infix token, and not the start of an argument list. -/
def Plain (x : Symbol) : Prop :=
  x.kind.infixLevel? = none ∧ x.kind ≠ .leftParen

/-- A plain symbol ends an expression of any minimum. -/
theorem Plain.ends {x : Symbol} (h : Plain x) (minimum : Nat) (rest : List Symbol) :
    Ends minimum (x :: rest) := by
  intro level hlevel
  rw [h.1] at hlevel
  cases hlevel

/-- A plain symbol starts no argument list. -/
theorem Plain.noArguments {x : Symbol} (h : Plain x) (rest : List Symbol) :
    NoArguments (x :: rest) :=
  h.2

/-- What ends an expression of a minimum ends those of higher minimums too. -/
theorem ends_mono {m n : Nat} (hle : m ≤ n) {rest : List Symbol} (h : Ends m rest) :
    Ends n rest := by
  cases rest with
  | nil => trivial
  | cons x rest => exact fun level hlevel => Nat.lt_of_lt_of_le (h level hlevel) hle

/-- How a text starts: not with an equals sign, and with a plain symbol unless it could go on the
statement before it. -/
def Starts (text : List Char) (xs : List Symbol) : Prop :=
  ∃ c cs x ys, text = c :: cs ∧ xs = x :: ys ∧ c ≠ '=' ∧ (isContinuation text = false → Plain x)

/-- A text starts in the same way with more text behind it. -/
theorem Starts.append {text : List Char} {xs : List Symbol} (h : Starts text xs)
    (more : List Char) (ys : List Symbol) : Starts (text ++ more) (xs ++ ys) := by
  obtain ⟨c, cs, x, zs, rfl, rfl, hc, hplain⟩ := h
  exact ⟨c, cs ++ more, x, zs ++ ys, rfl, rfl, hc, hplain⟩

/-- A text that starts as texts of trees do does not start with an equals sign. -/
theorem Starts.noEquals {text : List Char} {xs : List Symbol} (h : Starts text xs)
    (rest : List Char) : NoEquals (text ++ rest) := by
  obtain ⟨c, cs, x, ys, rfl, -, hc, -⟩ := h
  simpa [NoEquals] using hc

/-- A text spells a chain for a tree, if the minimum asked for is at most `entry` and the level of
the next symbol is below `reach`; the chain needs so many levels below its own. -/
def Reads (text : List Char) (tree : Expr) (entry reach levels : Nat) : Prop :=
  ∃ xs, Spells Clear text xs ∧ Starts text xs ∧
    ∀ minimum rest, minimum ≤ entry → Ends reach rest → NoArguments rest →
      Needs levels fun k => Chain (Phrase k) minimum (xs ++ rest) tree rest

/-- A text is read the same at a lower minimum and in front of a symbol of a lower level. -/
theorem Reads.mono {text : List Char} {tree : Expr} {entry reach levels entry' reach' : Nat}
    (h : Reads text tree entry reach levels) (hentry : entry' ≤ entry) (hreach : reach' ≤ reach) :
    Reads text tree entry' reach' levels := by
  obtain ⟨xs, hspells, hstarts, hchain⟩ := h
  exact ⟨xs, hspells, hstarts, fun minimum rest hmin hends hno =>
    hchain minimum rest (Nat.le_trans hmin hentry) (ends_mono hreach hends) hno⟩

/-- A term reads at every minimum, wherever no argument list follows. -/
theorem Reads.of_term {text : List Char} {tree : Expr} {xs : List Symbol}
    (hspells : Spells Clear text xs) (hstarts : Starts text xs) {entry reach levels : Nat}
    (hterm : ∀ rest, Ends reach rest → NoArguments rest →
      Needs levels fun k => Term (Phrase k) (xs ++ rest) tree rest) :
    Reads text tree entry reach levels :=
  ⟨xs, hspells, hstarts, fun _ rest _ hends hno => (hterm rest hends hno).chain⟩

section Closing

variable {tree : Expr} {entry reach levels minimum : Nat} {xs : List Symbol}
  (hchain : ∀ minimum rest, minimum ≤ entry → Ends reach rest → NoArguments rest →
    Needs levels fun k => Chain (Phrase k) minimum (xs ++ rest) tree rest)
include hchain

/-- In front of a symbol with a level below its own reach and below the minimum, a text is an
expression of the minimum. -/
theorem phrase_of_chain (hmin : minimum ≤ entry) {rest : List Symbol} (hends : Ends reach rest)
    (hno : NoArguments rest) (hstop : Ends minimum rest) :
    Needs (levels + 1) fun k => Phrase k minimum (xs ++ rest) tree rest :=
  (hchain minimum rest hmin hends hno).phrase hstop

/-- In front of a plain symbol a text is an expression. -/
theorem phrase_of_plain (hmin : minimum ≤ entry) {x : Symbol} (hx : Plain x) (rest : List Symbol) :
    Needs (levels + 1) fun k => Phrase k minimum (xs ++ x :: rest) tree (x :: rest) :=
  phrase_of_chain hchain hmin (hx.ends _ _) (hx.noArguments _) (hx.ends _ _)

end Closing

/-! ## Parentheses -/

/-- A closing parenthesis is a plain symbol. -/
theorem plain_rightParen : Plain ⟨.rightParen, ")"⟩ :=
  ⟨rfl, by simp⟩

/-- A text in parentheses spells the symbols of the text between those of the parentheses. -/
theorem spells_parens {text : List Char} {xs : List Symbol} (h : Spells Clear text xs) :
    Spells Anything (parenthesize text) (⟨.leftParen, "("⟩ :: xs ++ [⟨.rightParen, ")"⟩]) := by
  have hopen := spells_symbol (c := '(') rfl rfl (by decide)
  have hclose := spells_symbol (c := ')') rfl rfl (by decide)
  have hinner := h.append hclose fun rest _ => Clear.cons (by simp) rest
  exact hopen.append hinner fun _ _ => trivial

/-- A text in parentheses starts with the symbol of a parenthesis. -/
theorem starts_parens (text : List Char) (xs : List Symbol) :
    Starts (parenthesize text) (⟨.leftParen, "("⟩ :: xs) :=
  ⟨'(', _, _, _, rfl, rfl, by decide, fun h => absurd h (by simp [parenthesize, isContinuation])⟩

/-- Symbols in parentheses are a term, whatever follows. -/
theorem term_parens {tree : Expr} {entry reach levels : Nat} {xs : List Symbol}
    (hchain : ∀ minimum rest, minimum ≤ entry → Ends reach rest → NoArguments rest →
      Needs levels fun k => Chain (Phrase k) minimum (xs ++ rest) tree rest) (rest : List Symbol) :
    Needs (levels + 1) fun k =>
      Term (Phrase k) (⟨.leftParen, "("⟩ :: xs ++ [⟨.rightParen, ")"⟩] ++ rest) tree rest := by
  have hinner := phrase_of_plain hchain (Nat.zero_le _) plain_rightParen rest
  simpa using Needs.group (v := "(") hinner

/-- A text in parentheses is read as the same tree wherever it stands. -/
theorem Reads.parens {text : List Char} {tree : Expr} {entry reach levels : Nat}
    (h : Reads text tree entry reach levels) (entry' reach' : Nat) :
    Reads (parenthesize text) tree entry' reach' (levels + 1) := by
  obtain ⟨xs, hspells, -, hchain⟩ := h
  exact .of_term ((spells_parens hspells).weaken fun _ _ => trivial) (starts_parens _ _)
    fun rest _ _ => term_parens hchain rest

/-- The levels of a text that is put in parentheses if a condition holds. -/
def levelsIf (condition : Bool) (levels : Nat) : Nat :=
  if condition then levels + 1 else levels

/-- A part that is put in parentheses where it would not meet a demand meets it. -/
theorem Reads.parensIf {condition : Bool} {text : List Char} {tree : Expr}
    {entry reach levels entry' reach' : Nat} (h : Reads text tree entry reach levels)
    (hdemand : condition = false → entry' ≤ entry ∧ reach' ≤ reach) :
    Reads (parenthesizeIf condition text) tree entry' reach' (levelsIf condition levels) := by
  cases condition with
  | true => exact h.parens entry' reach'
  | false => exact h.mono (hdemand rfl).1 (hdemand rfl).2

/-! ## Literals and names -/

/-- The text of a string literal is read as the string. -/
theorem reads_string (value : String) (entry reach : Nat) :
    Reads ('"' :: escape value.toList ++ ['"']) (.string .none value) entry reach 0 := by
  refine .of_term ((spells_string value).weaken fun _ _ => trivial) ?_ fun rest _ _ =>
    .always fun _ => .string
  exact ⟨'"', _, _, _, rfl, rfl, by decide, fun _ => ⟨rfl, by simp⟩⟩

/-- The text of a truth value is read as the truth value. -/
theorem reads_boolean (value : Bool) (entry reach : Nat) :
    Reads (if value then "true".toList else "false".toList)
      (.boolean .none value) entry reach 0 := by
  cases value with
  | true =>
    refine .of_term (spells_boolean true) ?_ fun rest _ _ => .always fun _ => .truth
    exact ⟨'t', _, _, _, rfl, rfl, by decide, fun _ => ⟨rfl, by simp⟩⟩
  | false =>
    refine .of_term (spells_boolean false) ?_ fun rest _ _ => .always fun _ => .falsehood
    exact ⟨'f', _, _, _, rfl, rfl, by decide, fun _ => ⟨rfl, by simp⟩⟩

/-- A name starts with the symbol of an identifier. -/
theorem starts_name {name : String} (h : isName name = true) :
    Starts name.toList [⟨.identifier, name⟩] := by
  unfold isName at h
  cases hname : name.toList with
  | nil => simp [hname] at h
  | cons c cs =>
    simp only [hname, Bool.and_eq_true] at h
    refine ⟨c, cs, _, _, rfl, rfl, ?_, fun _ => ⟨rfl, by simp⟩⟩
    rintro rfl
    exact absurd h.1.1 (by decide)

/-- A name is read as an identifier. -/
theorem reads_identifier {name : String} (h : isName name = true) (entry reach : Nat) :
    Reads name.toList (.identifier .none name) entry reach 0 :=
  .of_term (spells_name h) (starts_name h) fun _ _ hno => .always fun _ => .name hno

/-- A numeral is read as the number that it denotes. -/
theorem reads_numeral {cs : List Char} {value : Float} (h : Number.Unsigned cs)
    (hread : Number.read? (String.ofList cs) = some value) (entry reach : Nat) :
    Reads cs (.number .none value) entry reach 0 := by
  refine .of_term (spells_numeral h) ?_ fun rest _ _ => .always fun _ => .number hread
  cases cs with
  | nil => simp [Number.Unsigned, Lexeme.startsWithDigit] at h
  | cons c cs =>
    refine ⟨c, cs, _, _, rfl, rfl, ?_, fun _ => ⟨rfl, by simp⟩⟩
    rintro rfl
    exact absurd h.2 (by simp [Lexeme.startsWithDigit, Text.isAsciiDigit])

/-! ## Operators in front -/

/-- The text of a negated number is read as the negation of its operand. -/
theorem Reads.negate {text : List Char} {tree : Expr} {entry reach levels : Nat}
    (h : Reads text tree entry reach levels) (hentry : 9 ≤ entry) (hreach : 9 ≤ reach)
    (entry' : Nat) :
    Reads ('-' :: text) (.unary .none .negate tree) entry' 9 (levels + 1) := by
  obtain ⟨xs, hspells, -, hchain⟩ := h
  have hminus : Spells Anything ['-'] [⟨.minus, "-"⟩] :=
    spells_symbol (c := '-') rfl rfl (by decide)
  refine .of_term (hminus.append hspells fun _ _ => trivial) ?_ fun rest hends hno => ?_
  · exact ⟨'-', text, _, xs, rfl, rfl, by decide, fun h => absurd h (by simp [isContinuation])⟩
  · exact .negate (phrase_of_chain hchain hentry (ends_mono hreach hends) hno hends)

/-- The text of a negated truth value is read as the negation of its operand. -/
theorem Reads.not {text : List Char} {tree : Expr} {entry reach levels : Nat}
    (h : Reads text tree entry reach levels) (hentry : 9 ≤ entry) (hreach : 9 ≤ reach)
    (entry' : Nat) :
    Reads ('!' :: text) (.unary .none .not tree) entry' 9 (levels + 1) := by
  obtain ⟨xs, hspells, hstarts, hchain⟩ := h
  refine .of_term (spells_not.append hspells fun rest _ => hstarts.noEquals rest) ?_
    fun rest hends hno => ?_
  · exact ⟨'!', text, _, xs, rfl, rfl, by decide, fun _ => ⟨rfl, by simp⟩⟩
  · exact .not (phrase_of_chain hchain hentry (ends_mono hreach hends) hno hends)

/-! ## Operators between two parts -/

/-- No binary operator is written as an opening parenthesis. -/
theorem BinaryOp.tokenKind_ne_leftParen {operator : BinaryOp} {kind : TokenKind}
    (h : operator.tokenKind? = some kind) : kind ≠ .leftParen := by
  cases operator <;> simp only [tokenKind?, Option.some.injEq, reduceCtorEq] at h <;>
    subst h <;> simp

/-- The texts of two operands with the symbol of an operator between them are read as its
application. -/
theorem Reads.binary {operator : BinaryOp} {kind : TokenKind}
    (hkind : operator.tokenKind? = some kind) {left right : List Char} {leftTree rightTree : Expr}
    {leftReach n n' : Nat} (hleft : Reads left leftTree operator.precedence leftReach n)
    (hreach : operator.precedence < leftReach)
    (hright : Reads right rightTree (rightMinimum operator) (rightMinimum operator) n') :
    Reads (left ++ ' ' :: operator.symbol.toList ++ ' ' :: right)
      (.binary .none operator leftTree rightTree) operator.precedence (rightMinimum operator)
      (max n (n' + 1)) := by
  obtain ⟨xs, hxs, hstarts, hleftChain⟩ := hleft
  obtain ⟨ys, hys, -, hrightChain⟩ := hright
  have hspells : Spells Clear (left ++ ((' ' :: operator.symbol.toList ++ [' ']) ++ right))
      (xs ++ ([⟨kind, operator.symbol⟩] ++ ys)) :=
    hxs.append ((spells_operator hkind).append hys fun _ _ => trivial)
      fun rest _ => Clear.cons (by simp) _
  have htext : left ++ ' ' :: operator.symbol.toList ++ ' ' :: right =
      left ++ ((' ' :: operator.symbol.toList ++ [' ']) ++ right) := by simp
  rw [htext]
  refine ⟨_, hspells, hstarts.append _ _, fun minimum rest hmin hends hno => ?_⟩
  have hlevel := BinaryOp.infixLevel_of_tokenKind hkind
  have hleft' : Needs n fun k => Chain (Phrase k) minimum (xs ++ ⟨kind, operator.symbol⟩ ::
      (ys ++ rest)) leftTree
      (⟨kind, operator.symbol⟩ :: (ys ++ rest)) := by
    refine hleftChain minimum _ hmin ?_ (BinaryOp.tokenKind_ne_leftParen hkind)
    intro level hlevel'
    rw [hlevel] at hlevel'
    obtain rfl := Option.some.inj hlevel'
    exact hreach
  have hright' := phrase_of_chain hrightChain (Nat.le_refl _) hends hno hends
  simpa using hleft'.extend (.binary hkind hmin hright')

/-- The texts of two bounds with the symbol of a range between them are read as the range. -/
theorem Reads.range {first last : List Char} {firstTree lastTree : Expr} {firstReach n n' : Nat}
    (hfirst : Reads first firstTree 6 firstReach n) (hreach : 6 < firstReach)
    (hlast : Reads last lastTree 7 7 n') (inclusive : Bool) :
    Reads (first ++ (if inclusive then "..=".toList else "..".toList) ++ last)
      (.range .none firstTree lastTree inclusive) 6 7 (max n (n' + 1)) := by
  obtain ⟨xs, hxs, hstarts, hfirstChain⟩ := hfirst
  obtain ⟨ys, hys, hstarts', hlastChain⟩ := hlast
  have hdots : ∃ x : Symbol, x.kind = (if inclusive then .dotDotEqual else .dotDot) ∧
      Spells Clear ((if inclusive then "..=".toList else "..".toList) ++ last) ([x] ++ ys) := by
    cases inclusive with
    | true => exact ⟨_, rfl, spells_dotDotEqual.append hys fun _ _ => trivial⟩
    | false => exact ⟨_, rfl, spells_dotDot.append hys fun rest _ => hstarts'.noEquals rest⟩
  obtain ⟨x, hkind, hdots⟩ := hdots
  rw [List.append_assoc]
  have hclear : ∀ rest, Clear ((if inclusive then "..=".toList else "..".toList) ++ last ++ rest) :=
    fun rest => .inr (.inr (by cases inclusive <;> exact ⟨_, rfl⟩))
  refine ⟨_, hxs.append hdots fun rest _ => hclear rest, hstarts.append _ _,
    fun minimum rest hmin hends hno => ?_⟩
  have hlevel : x.kind.infixLevel? = some 6 := by
    rw [hkind]
    cases inclusive <;> rfl
  have hfirst' : Needs n fun k => Chain (Phrase k) minimum (xs ++ x :: (ys ++ rest)) firstTree
      (x :: (ys ++ rest)) := by
    refine hfirstChain minimum _ hmin ?_ ?_
    · intro level hlevel'
      rw [hlevel] at hlevel'
      obtain rfl := Option.some.inj hlevel'
      exact hreach
    · intro hparen
      rw [hparen] at hlevel
      cases hlevel
  have hlast' := phrase_of_chain hlastChain (Nat.le_refl _) hends hno hends
  have hext : Needs (n' + 1) fun k => Extends (Phrase k) minimum x.kind firstTree (ys ++ rest)
      (.range .none firstTree lastTree inclusive) rest := by
    rw [hkind]
    exact .range hmin hlast'
  simpa using hfirst'.extend hext

/-- A closing bracket is a plain symbol. -/
theorem plain_rightBracket : Plain ⟨.rightBracket, "]"⟩ :=
  ⟨rfl, by simp⟩

/-- The text of an array or a string with that of an offset in brackets behind it is read as the
index. -/
theorem Reads.index {object offset : List Char} {objectTree offsetTree : Expr}
    {entry reach n n' : Nat} (hobject : Reads object objectTree 11 12 n)
    (hoffset : Reads offset offsetTree entry reach n') (reach' : Nat) :
    Reads (object ++ '[' :: offset ++ [']']) (.index .none objectTree offsetTree) 11 reach'
      (max n (n' + 1)) := by
  obtain ⟨xs, hxs, hstarts, hobjectChain⟩ := hobject
  obtain ⟨ys, hys, -, hoffsetChain⟩ := hoffset
  have hopen : Spells Anything ['['] [⟨.leftBracket, "["⟩] :=
    spells_symbol (c := '[') rfl rfl (by decide)
  have hclose : Spells Anything [']'] [⟨.rightBracket, "]"⟩] :=
    spells_symbol (c := ']') rfl rfl (by decide)
  have hspells : Spells Clear (object ++ (['['] ++ (offset ++ [']'])))
      (xs ++ ([⟨.leftBracket, "["⟩] ++ (ys ++ [⟨.rightBracket, "]"⟩]))) := by
    have hoffset' := hys.append hclose fun rest _ => Clear.cons (by simp) rest
    have hbrackets := hopen.append hoffset' fun _ _ => trivial
    exact hxs.append (hbrackets.weaken fun _ _ => trivial) fun rest _ => Clear.cons (by simp) _
  have htext : object ++ '[' :: offset ++ [']'] = object ++ (['['] ++ (offset ++ [']'])) := by simp
  rw [htext]
  refine ⟨_, hspells, hstarts.append _ _, fun minimum rest hmin _ _ => ?_⟩
  have hobject' :=
    hobjectChain minimum (⟨.leftBracket, "["⟩ :: (ys ++ ⟨.rightBracket, "]"⟩ :: rest))
    hmin (fun _ hlevel => Option.some.inj hlevel ▸ Nat.lt_succ_self 11) (by simp [NoArguments])
  have hoffset' := phrase_of_plain hoffsetChain (Nat.zero_le _) plain_rightBracket rest
  simpa using hobject'.extend (.index hmin hoffset')

/-- The text of a value behind a name and an equals sign is read as the assignment. -/
theorem Reads.assign {name : String} (hname : isName name = true) {value : List Char}
    {valueTree : Expr} {entry reach levels : Nat}
    (hvalue : Reads value valueTree entry reach levels) (hentry : 1 ≤ entry) :
    Reads (name.toList ++ " = ".toList ++ value) (.assign .none name valueTree) 1 0
      (levels + 1) := by
  obtain ⟨xs, hxs, -, hchain⟩ := hvalue
  have hequals : Spells Anything " = ".toList [⟨.assign, "="⟩] := by
    have hlexeme : Spells (fun rest => ∃ tail, rest = ' ' :: tail) ['='] [⟨.assign, "="⟩] := by
      refine spells_lexeme ['='] rfl (fun _ _ => .inl (by decide)) ?_
      rintro rest ⟨tail, rfl⟩
      rfl
    intro rest ys _ hscans
    exact scans_separator rfl (hlexeme _ ys ⟨rest, rfl⟩ (scans_separator rfl hscans))
  rw [List.append_assoc]
  have hspells : Spells Clear (name.toList ++ (" = ".toList ++ value))
      ([⟨.identifier, name⟩] ++ ([⟨.assign, "="⟩] ++ xs)) :=
    (spells_name hname).append (hequals.append hxs fun _ _ => trivial)
      fun rest _ => Clear.cons (c := ' ') (by simp) _
  refine ⟨_, hspells, (starts_name hname).append _ _, fun minimum rest hmin hends hno => ?_⟩
  have hvalue' := phrase_of_chain hchain hentry (ends_mono (Nat.zero_le _) hends) hno
    (ends_mono (Nat.zero_le _) hends)
  have hname' : Needs 0 fun k =>
      Chain (Phrase k) minimum (⟨.identifier, name⟩ :: ⟨.assign, "="⟩ :: (xs ++ rest))
        (.identifier .none name) (⟨.assign, "="⟩ :: (xs ++ rest)) :=
    .chain (.always fun _ => .name (by simp [NoArguments]))
  simpa using hname'.extend (.assign hmin hvalue')

/-! ## Keyword constructs -/

/-- Keywords are plain symbols. -/
theorem plain_keyword {word : String} {kind : TokenKind} (h : (word, kind) ∈ TokenKind.keywords) :
    Plain ⟨kind, word⟩ := by
  have hall : ∀ p ∈ TokenKind.keywords, p.2.infixLevel? = none ∧ p.2 ≠ .leftParen := by decide
  exact hall _ h

/-- The texts of three parts with the keywords of a conditional are read as the conditional. -/
theorem Reads.conditional {condition consequent alternate : List Char}
    {conditionTree consequentTree alternateTree : Expr} {e₁ r₁ n₁ e₂ r₂ n₂ e₃ r₃ n₃ : Nat}
    (hcondition : Reads condition conditionTree e₁ r₁ n₁)
    (hconsequent : Reads consequent consequentTree e₂ r₂ n₂)
    (halternate : Reads alternate alternateTree e₃ r₃ n₃) (entry' : Nat) :
    Reads ("if ".toList ++ condition ++ " then ".toList ++ consequent ++
      " else ".toList ++ alternate)
      (.conditional .none conditionTree consequentTree alternateTree) entry' 0
      (max (n₁ + 1) (max (n₂ + 1) (n₃ + 1))) := by
  obtain ⟨xs, hxs, -, hxsChain⟩ := hcondition
  obtain ⟨ys, hys, -, hysChain⟩ := hconsequent
  obtain ⟨zs, hzs, -, hzsChain⟩ := halternate
  have hthenWord : ("then", TokenKind.then) ∈ TokenKind.keywords := by decide
  have helseWord : ("else", TokenKind.else) ∈ TokenKind.keywords := by decide
  have hif : Spells Anything "if ".toList [⟨.if, "if"⟩] :=
    (spells_keyword (show ("if", TokenKind.if) ∈ TokenKind.keywords by decide)).1
  have hthen : Spells Anything " then ".toList [⟨.then, "then"⟩] := (spells_keyword hthenWord).2
  have helse : Spells Anything " else ".toList [⟨.else, "else"⟩] := (spells_keyword helseWord).2
  have hblank : ∀ text rest : List Char, Clear (' ' :: text ++ rest) :=
    fun text rest => Clear.cons (by simp) _
  have hspells := hif.append (hxs.append (hthen.append (hys.append (helse.append hzs
    fun _ _ => trivial) fun rest _ => hblank _ rest) fun _ _ => trivial)
    fun rest _ => hblank _ rest) fun _ _ => trivial
  simp only [List.append_assoc]
  refine .of_term hspells ?_ fun rest hends hno => ?_
  · exact ⟨'i', _, _, _, rfl, rfl, by decide, fun _ => plain_keyword (by decide)⟩
  · have hcondition' := phrase_of_plain hxsChain (Nat.zero_le _)
      (plain_keyword hthenWord) (ys ++ ⟨.else, "else"⟩ :: (zs ++ rest))
    have hconsequent' := phrase_of_plain hysChain (Nat.zero_le _)
      (plain_keyword helseWord) (zs ++ rest)
    have halternate' := phrase_of_chain hzsChain (Nat.zero_le _)
      (ends_mono (Nat.zero_le _) hends) hno hends
    simpa using Needs.conditional (u := "if") hcondition' hconsequent' halternate'

/-- The start of a comprehension, up to the array. -/
theorem spells_binder {binder : String} (h : isName binder = true) :
    Spells Anything ("for ".toList ++ (binder.toList ++ " in ".toList))
      [⟨.for, "for"⟩, ⟨.identifier, binder⟩, ⟨.in, "in"⟩] := by
  have hfor : Spells Anything "for ".toList [⟨.for, "for"⟩] :=
    (spells_keyword (show ("for", TokenKind.for) ∈ TokenKind.keywords by decide)).1
  have hin : Spells Anything " in ".toList [⟨.in, "in"⟩] :=
    (spells_keyword (show ("in", TokenKind.in) ∈ TokenKind.keywords by decide)).2
  have hname := (spells_name h).append hin fun rest _ => Clear.cons (c := ' ') (by simp) _
  exact hfor.append hname fun _ _ => trivial

section Comprehensions

variable {binder : String} (hbinder : isName binder = true)
  {iterable guard body : List Char} {iterableTree guardTree bodyTree : Expr}
  {e₁ r₁ n₁ e₂ r₂ n₂ e₃ r₃ n₃ : Nat} (hiterable : Reads iterable iterableTree e₁ r₁ n₁)
  (hguard : Reads guard guardTree e₂ r₂ n₂) (hbody : Reads body bodyTree e₃ r₃ n₃)
include hbinder hiterable hbody

/-- The texts of an iterable and a body with the keywords of a comprehension are read as one without
a guard. -/
theorem Reads.comprehension (entry' : Nat) :
    Reads ("for ".toList ++ binder.toList ++ " in ".toList ++ iterable ++ " then ".toList ++ body)
      (.comprehension .none binder iterableTree none bodyTree) entry' 0
        (max (n₁ + 1) (n₃ + 1)) := by
  obtain ⟨xs, hxs, -, hxsChain⟩ := hiterable
  obtain ⟨ys, hys, -, hysChain⟩ := hbody
  have hthenWord : ("then", TokenKind.then) ∈ TokenKind.keywords := by decide
  have hthen : Spells Anything " then ".toList [⟨.then, "then"⟩] := (spells_keyword hthenWord).2
  have hspells := (spells_binder hbinder).append (hxs.append (hthen.append hys fun _ _ => trivial)
    fun rest _ => Clear.cons (c := ' ') (by simp) _) fun _ _ => trivial
  simp only [List.append_assoc] at hspells ⊢
  refine .of_term hspells ?_ fun rest hends hno => ?_
  · exact ⟨'f', _, _, _, rfl, rfl, by decide, fun _ => plain_keyword (by decide)⟩
  · have hiterable' := phrase_of_plain hxsChain (Nat.zero_le _) (plain_keyword hthenWord)
      (ys ++ rest)
    have hbody' := phrase_of_chain hysChain (Nat.zero_le _) (ends_mono (Nat.zero_le _) hends) hno
      hends
    simpa using Needs.comprehension (u := "for") (x := binder) (v := "in") hiterable' hbody'

include hguard in
/-- The texts of an iterable, a guard and a body with the keywords of a comprehension are read as
one with a guard. -/
theorem Reads.guarded (entry' : Nat) :
    Reads ("for ".toList ++ binder.toList ++ " in ".toList ++ iterable ++ " when ".toList ++ guard
        ++ " then ".toList ++ body)
      (.comprehension .none binder iterableTree (some guardTree) bodyTree) entry' 0
      (max (n₁ + 1) (max (n₂ + 1) (n₃ + 1))) := by
  obtain ⟨xs, hxs, -, hxsChain⟩ := hiterable
  obtain ⟨ys, hys, -, hysChain⟩ := hguard
  obtain ⟨zs, hzs, -, hzsChain⟩ := hbody
  have hwhenWord : ("when", TokenKind.when) ∈ TokenKind.keywords := by decide
  have hthenWord : ("then", TokenKind.then) ∈ TokenKind.keywords := by decide
  have hwhen : Spells Anything " when ".toList [⟨.when, "when"⟩] := (spells_keyword hwhenWord).2
  have hthen : Spells Anything " then ".toList [⟨.then, "then"⟩] := (spells_keyword hthenWord).2
  have hblank : ∀ text rest : List Char, Clear (' ' :: text ++ rest) :=
    fun text rest => Clear.cons (by simp) _
  have hspells := (spells_binder hbinder).append (hxs.append (hwhen.append (hys.append (hthen.append
    hzs fun _ _ => trivial) fun rest _ => hblank _ rest) fun _ _ => trivial)
    fun rest _ => hblank _ rest) fun _ _ => trivial
  simp only [List.append_assoc] at hspells ⊢
  refine .of_term hspells ?_ fun rest hends hno => ?_
  · exact ⟨'f', _, _, _, rfl, rfl, by decide, fun _ => plain_keyword (by decide)⟩
  · have hiterable' := phrase_of_plain hxsChain (Nat.zero_le _) (plain_keyword hwhenWord)
      (ys ++ ⟨.then, "then"⟩ :: (zs ++ rest))
    have hguard' := phrase_of_plain hysChain (Nat.zero_le _) (plain_keyword hthenWord) (zs ++ rest)
    have hbody' := phrase_of_chain hzsChain (Nat.zero_le _) (ends_mono (Nat.zero_le _) hends) hno
      hends
    simpa using Needs.guarded (u := "for") (x := binder) (v := "in") hiterable' hguard' hbody'

end Comprehensions

/-! ## Lists -/

/-- The levels below a list whose elements have the given levels below their own. -/
def deepest : List Nat → Nat
  | [] => 0
  | levels :: more => max (levels + 1) (deepest more)

section Lists

variable {α : Type} (text : α → List Char) (tree : α → Expr) (levels : α → Nat)

/-- Texts with commas between them are read as the elements of a list. -/
theorem reads_elements {items : List α} (hne : items ≠ [])
    (h : ∀ a ∈ items, ∃ entry reach, Reads (text a) (tree a) entry reach (levels a)) :
    ∃ xs, Spells Clear (joinWith [',', ' '] (items.map text)) xs ∧
      ∀ x rest, Plain x → Needs (deepest (items.map levels)) fun k =>
        Elements (Phrase k) (xs ++ x :: rest) (items.map tree) (x :: rest) := by
  induction items with
  | nil => exact absurd rfl hne
  | cons a items ih =>
    obtain ⟨entry, reach, xs, hxs, -, hchain⟩ := h a (by simp)
    cases items with
    | nil =>
      refine ⟨xs, by simpa [joinWith] using hxs, fun x rest hx => ?_⟩
      simpa [deepest] using Needs.last (phrase_of_plain hchain (Nat.zero_le _) hx rest)
    | cons b items =>
      obtain ⟨ys, hys, helements⟩ := ih (by simp) fun c hc => h c (by simp [hc])
      have hcomma : Spells Anything [',', ' '] [⟨.comma, ","⟩] := by
        have hsymbol := spells_symbol (c := ',') rfl rfl (by decide)
        exact hsymbol.append (spells_separator (c := ' ') rfl) fun _ _ => trivial
      have hspells := hxs.append (hcomma.append hys fun _ _ => trivial)
        fun rest _ => Clear.cons (by simp) _
      refine ⟨_, by simpa [joinWith] using hspells, fun x rest hx => ?_⟩
      have hfirst := phrase_of_plain hchain (Nat.zero_le _)
        (show Plain ⟨.comma, ","⟩ from ⟨rfl, by simp⟩) (ys ++ x :: rest)
      simpa [deepest] using Needs.more hfirst (helements x rest hx)

/-- The texts of a list and the symbol that closes it. -/
theorem reads_items {items : List α}
    (h : ∀ a ∈ items, ∃ entry reach, Reads (text a) (tree a) entry reach (levels a)) {c : Char}
    {closing : TokenKind} (hsymbol : Lexeme.symbolKind? c = some closing)
    (hc : isSeparator c = false) (hslash : c ≠ '/') (hclear : ∀ rest, Clear (c :: rest))
    (hplain : Plain ⟨closing, String.ofList [c]⟩) :
    ∃ xs, Spells Anything (joinWith [',', ' '] (items.map text) ++ [c]) xs ∧
      ∀ rest, Needs (deepest (items.map levels)) fun k =>
        Items (Phrase k) closing (xs ++ rest) (items.map tree) rest := by
  have hclose := spells_symbol hsymbol hc hslash
  by_cases hne : items = []
  · subst hne
    exact ⟨_, hclose, fun rest => .always fun _ => .none⟩
  · obtain ⟨xs, hxs, helements⟩ := reads_elements text tree levels hne h
    refine ⟨_, hxs.append hclose fun rest _ => hclear rest, fun rest => ?_⟩
    simpa using Needs.items (helements _ rest hplain)

/-- The texts of elements in brackets, with commas between them, are read as the array. -/
theorem reads_array {items : List α}
    (h : ∀ a ∈ items, ∃ entry reach, Reads (text a) (tree a) entry reach (levels a))
    (entry' reach' : Nat) :
    Reads ('[' :: joinWith [',', ' '] (items.map text) ++ [']']) (.array .none (items.map tree))
      entry' reach' (deepest (items.map levels)) := by
  obtain ⟨xs, hxs, hitems⟩ := reads_items text tree levels h (c := ']') rfl rfl (by decide)
    (fun rest => Clear.cons (by simp) rest) plain_rightBracket
  have hopen : Spells Anything ['['] [⟨.leftBracket, "["⟩] :=
    spells_symbol (c := '[') rfl rfl (by decide)
  refine .of_term ((hopen.append hxs fun _ _ => trivial).weaken fun _ _ => trivial) ?_
    fun rest _ _ => .array (hitems rest)
  exact ⟨'[', _, _, _, rfl, rfl, by decide, fun h => absurd h (by simp [isContinuation])⟩

/-- The texts of arguments in parentheses behind a name, with commas between them, are read as the
call. -/
theorem reads_call {name : String} (hname : isName name = true) {items : List α}
    (h : ∀ a ∈ items, ∃ entry reach, Reads (text a) (tree a) entry reach (levels a))
    (entry' reach' : Nat) :
    Reads (name.toList ++ '(' :: joinWith [',', ' '] (items.map text) ++ [')'])
      (.call .none name (items.map tree)) entry' reach' (deepest (items.map levels)) := by
  obtain ⟨xs, hxs, hitems⟩ := reads_items text tree levels h (c := ')') rfl rfl (by decide)
    (fun rest => Clear.cons (by simp) rest) plain_rightParen
  have hopen : Spells Anything ['('] [⟨.leftParen, "("⟩] :=
    spells_symbol (c := '(') rfl rfl (by decide)
  have hspells := (spells_name hname).append (hopen.append hxs fun _ _ => trivial)
    fun rest _ => Clear.cons (c := '(') (by simp) _
  have htext : name.toList ++ '(' :: joinWith [',', ' '] (items.map text) ++ [')'] =
      name.toList ++ (['('] ++ (joinWith [',', ' '] (items.map text) ++ [')'])) := by simp
  rw [htext]
  refine .of_term (hspells.weaken fun _ _ => trivial) ((starts_name hname).append _ _) ?_
  exact fun rest _ _ => .call (hitems rest)

end Lists

/-! ## Programs -/

/-- What may stand behind a statement: nothing, a plain symbol, or a parenthesis if the statement is
in parentheses itself. -/
def Follows (marked : Bool) : List Symbol → Prop
  | [] => True
  | x :: _ => Plain x ∨ (marked = true ∧ x = ⟨.leftParen, "("⟩)

/-- The first symbol of a statement, by whether it is in parentheses and by its text without
them. -/
def Leads (marked : Bool) (line : List Char) (x : Symbol) : Prop :=
  (marked = true → x = ⟨.leftParen, "("⟩) ∧ (marked = false → isContinuation line = false → Plain x)

/-- A statement is an expression in front of all that may stand behind it. -/
theorem Reads.line {text : List Char} {tree : Expr} {entry reach levels : Nat}
    (h : Reads text tree entry reach levels) (marked : Bool) :
    ∃ x xs, Spells Clear (parenthesizeIf marked text) (x :: xs) ∧ Leads marked text x ∧
      ∀ rest, Follows marked rest →
        Needs (levelsIf marked levels + 1) fun k => Phrase k 0 (x :: xs ++ rest) tree rest := by
  obtain ⟨xs, hspells, hstarts, hchain⟩ := h
  cases marked with
  | true =>
    refine ⟨_, _, (spells_parens hspells).weaken fun _ _ => trivial, ⟨fun _ => rfl, by simp⟩, ?_⟩
    refine fun rest hrest => (term_parens hchain rest).chain.phrase ?_
    match rest, hrest with
    | [], _ => trivial
    | x :: rest, .inl hplain => exact hplain.ends 0 rest
    | _ :: rest, .inr ⟨_, rfl⟩ => exact fun _ hlevel => absurd hlevel (Option.some_ne_none _).symm
  | false =>
    obtain ⟨c, cs, x, ys, rfl, rfl, -, hplain⟩ := hstarts
    refine ⟨x, ys, hspells, ⟨by simp, fun _ => hplain⟩, fun rest hrest => ?_⟩
    match rest, hrest with
    | [], _ => exact phrase_of_chain hchain (Nat.zero_le _) trivial trivial trivial
    | y :: rest, .inl hy => exact phrase_of_plain hchain (Nat.zero_le _) hy rest

/-- The text of statements of which some are marked for parentheses. -/
def joinMarked (lines : List (Bool × List Char)) : List Char :=
  joinWith ['\n'] (lines.map fun (marked, line) => parenthesizeIf marked line)

/-- The levels of the text of marked statements, if the statements have the given levels below their
own. -/
def lineLevels : List (Bool × List Char) → List Nat → Nat
  | (marked, _) :: lines, levels :: more => max (levelsIf marked levels + 1) (lineLevels lines more)
  | _, _ => 0

/-- The text of marked statements is read as statements for the given trees, with the given levels
below their own. -/
def ReadsLines (marked : Bool) (line : List Char) (more : List (Bool × List Char))
    (trees : List Expr) (levels : List Nat) : Prop :=
  ∃ x xs, Spells Clear (joinMarked ((marked, line) :: more)) (x :: xs) ∧ Leads marked line x ∧
    Needs (lineLevels ((marked, line) :: more) levels) fun k => Statements k (x :: xs) trees

/-- The text of a single statement is read as that statement, in parentheses or without. -/
theorem Reads.single {text : List Char} {tree : Expr} {entry reach levels : Nat}
    (h : Reads text tree entry reach levels) (marked : Bool) :
    ReadsLines marked text [] [tree] [levels] := by
  obtain ⟨x, xs, hspells, hleads, hphrase⟩ := h.line marked
  refine ⟨x, xs, by simpa [joinMarked, joinWith] using hspells, hleads, ?_⟩
  have hsingle := hphrase [] trivial
  rw [List.append_nil] at hsingle
  simpa [lineLevels] using hsingle.single

/-- A statement in front of others, if each is marked that could go on the one before it. -/
theorem Reads.before {text next : List Char} {tree : Expr} {entry reach levels : Nat}
    {joined marked : Bool} {more : List (Bool × List Char)} {trees : List Expr} {rest : List Nat}
    (h : Reads text tree entry reach levels) (hmore : ReadsLines joined next more trees rest)
    (hnext : joined = false → isContinuation next = false)
    (hmarked : joined = true → marked = true) :
    ReadsLines marked text ((joined, next) :: more) (tree :: trees) (levels :: rest) := by
  obtain ⟨x, xs, hspells, hleads, hphrase⟩ := h.line marked
  obtain ⟨y, ys, hspells', hleads', hstatements⟩ := hmore
  have hjoined : Spells Clear (parenthesizeIf marked text ++ (['\n'] ++
      joinMarked ((joined, next) :: more))) (x :: xs ++ ([] ++ y :: ys)) := by
    have hline : Spells Anything ['\n'] [] := spells_separator rfl
    exact hspells.append (hline.append hspells' fun _ _ => trivial)
      fun rest _ => Clear.cons (by simp) _
  have hfollows : Follows marked (y :: ys) := by
    cases joined with
    | true => exact .inr ⟨hmarked rfl, hleads'.1 rfl⟩
    | false => exact .inl (hleads'.2 rfl (hnext rfl))
  refine ⟨x, xs ++ y :: ys, ?_, hleads, (hphrase (y :: ys) hfollows).several hstatements⟩
  simpa [joinMarked, joinWith] using hjoined

/-- The text of a program is read as its statements.  The induction is on the statements; the mark
of the first may still be set, because a statement in front of it can need it. -/
theorem reads_marked {α : Type} (text : α → List Char) (tree : α → Expr) (levels : α → Nat) (a : α)
    (items : List α)
    (h : ∀ b ∈ a :: items, ∃ entry reach, Reads (text b) (tree b) entry reach (levels b)) :
    ∃ marked more, markStatements ((a :: items).map text) = (marked, text a) :: more ∧
      ∀ marked', (marked = true → marked' = true) →
        ReadsLines marked' (text a) more ((a :: items).map tree) ((a :: items).map levels) := by
  induction items generalizing a with
  | nil =>
    obtain ⟨entry, reach, hread⟩ := h a (by simp)
    exact ⟨false, [], rfl, fun marked' _ => hread.single marked'⟩
  | cons b items ih =>
    obtain ⟨entry, reach, hread⟩ := h a (by simp)
    obtain ⟨marked, more, hmarks, hlines⟩ := ih b fun c hc => h c (List.mem_cons_of_mem a hc)
    rw [List.map_cons, markStatements, hmarks]
    refine ⟨_, _, rfl, fun marked' hmarked' => hread.before (hlines _ ?_) ?_ hmarked'⟩
    · exact fun hmarked => by simp [hmarked]
    · intro hjoined
      rw [Bool.or_eq_false_iff] at hjoined
      exact hjoined.2

/-- Statements are read from the text of a program. -/
theorem reads_statements {α : Type} (text : α → List Char) (tree : α → Expr) (levels : α → Nat)
    {items : List α} (hne : items ≠ [])
    (h : ∀ b ∈ items, ∃ entry reach, Reads (text b) (tree b) entry reach (levels b)) :
    ∃ xs, Spells Clear (joinStatements (items.map text)) xs ∧
      Needs (lineLevels (markStatements (items.map text)) (items.map levels)) fun k =>
        Statements k xs (items.map tree) := by
  obtain ⟨a, items, rfl⟩ := List.exists_cons_of_ne_nil hne
  obtain ⟨marked, more, hmarks, hlines⟩ := reads_marked text tree levels a items h
  obtain ⟨x, xs, hspells, -, hstatements⟩ := hlines marked id
  rw [joinStatements, hmarks]
  exact ⟨x :: xs, hspells, hstatements⟩

end Formulary
