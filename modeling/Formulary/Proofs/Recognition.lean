import Formulary.Proofs.Parsing
import Formulary.Proofs.Scanning

/-!
# The parser accepts exactly the grammar

A phrase takes as many symbols as its tree has nodes, or more; so the limits that a tree can exceed
are bounded by the number of tokens.  The grammar is unambiguous, because under limits that are
large enough the parser finds every tree that a sequence of symbols stands for.  Together with
soundness (`Parser.parse_sound`) this settles what the parser does with a source that has tokens: it
returns the one tree that the grammar gives, it rejects what the grammar gives no tree, and it fails
by a limit only where a limit is smaller than the number of tokens.
-/

set_option autoImplicit false

namespace Formulary

open Formulary.Expr

namespace Grammar

/-! ## Phrases have room for their trees -/

/-- Every phrase takes as many symbols as its tree has nodes. -/
def Measured (sub : Nat → Phrases) : Prop :=
  ∀ minimum xs t ys, sub minimum xs t ys → t.weight + ys.length ≤ xs.length

section Measure

variable {sub : Nat → Phrases} (hsub : Measured sub)
include hsub

/-- Elements are read from at least as many symbols as their trees have nodes. -/
theorem Elements.weight_le {xs ys : List Symbol} {ts : List Expr} (h : Elements sub xs ts ys) :
    weightAll ts + ys.length ≤ xs.length := by
  induction h with
  | last h => simpa [weightAll] using hsub _ _ _ _ h
  | more h _ ih =>
    have hfirst := hsub _ _ _ _ h
    simp only [weightAll, List.length_cons] at hfirst ⊢
    omega

/-- A list is read from more symbols than the trees of its elements have nodes. -/
theorem Items.weight_lt {closing : TokenKind} {xs ys : List Symbol} {ts : List Expr}
    (h : Items sub closing xs ts ys) : weightAll ts + ys.length < xs.length := by
  cases h with
  | none => simp [weightAll]
  | some h =>
    have helements := h.weight_le hsub
    simp only [List.length_cons] at helements
    omega

/-- A term is read from at least as many symbols as its tree has nodes. -/
theorem Term.weight_le {xs ys : List Symbol} {t : Expr} (h : Term sub xs t ys) :
    t.weight + ys.length ≤ xs.length := by
  cases h with
  | truth | falsehood | string | number | name => simp only [weight, List.length_cons]; omega
  | call h | array h =>
    have hitems := h.weight_lt hsub
    simp only [weight, List.length_cons]
    omega
  | group h | negate h | not h =>
    have hinner := hsub _ _ _ _ h
    simp only [weight, List.length_cons] at hinner ⊢
    omega
  | conditional hc ha hb =>
    have hcondition := hsub _ _ _ _ hc
    have hconsequent := hsub _ _ _ _ ha
    have halternate := hsub _ _ _ _ hb
    simp only [weight, List.length_cons] at hcondition hconsequent ⊢
    omega
  | comprehension hi hb =>
    have hiterable := hsub _ _ _ _ hi
    have hbody := hsub _ _ _ _ hb
    simp only [weight, List.length_cons] at hiterable ⊢
    omega
  | guarded hi hg hb =>
    have hiterable := hsub _ _ _ _ hi
    have hguard := hsub _ _ _ _ hg
    have hbody := hsub _ _ _ _ hb
    simp only [weight, List.length_cons] at hiterable hguard ⊢
    omega

/-- An extension adds no more nodes to an expression than it takes symbols. -/
theorem Extends.weight_le {minimum : Nat} {kind : TokenKind} {left t : Expr} {xs ys : List Symbol}
    (h : Extends sub minimum kind left xs t ys) :
    t.weight + ys.length ≤ left.weight + (xs.length + 1) := by
  cases h with
  | index _ h | power _ h | binary _ _ _ h | range _ h | inclusiveRange _ h | assign _ h =>
    have hright := hsub _ _ _ _ h
    simp only [weight, List.length_cons] at hright ⊢
    omega
  | ternary _ ha hb =>
    have hconsequent := hsub _ _ _ _ ha
    have halternate := hsub _ _ _ _ hb
    simp only [weight, List.length_cons] at hconsequent ⊢
    omega

/-- A chain is read from at least as many symbols as its tree has nodes. -/
theorem Chain.weight_le {minimum : Nat} {t : Expr} {xs ys : List Symbol}
    (h : Chain sub minimum xs t ys) : t.weight + ys.length ≤ xs.length := by
  obtain ⟨first, rest, hterm, hclimbs⟩ := h
  have hfirst := hterm.weight_le hsub
  have hmore : t.weight + ys.length ≤ first.weight + rest.length := by
    clear hterm hfirst
    induction hclimbs with
    | done => exact Nat.le_refl _
    | step hext _ ih =>
      have hone := hext.weight_le hsub
      simp only [List.length_cons]
      omega
  omega

end Measure

/-- Phrases are read from at least as many symbols as their trees have nodes, with however many
levels. -/
theorem Phrase.measured (levels : Nat) : Measured (Phrase levels) := by
  induction levels with
  | zero => exact fun _ _ _ _ h => h.elim
  | succ levels ih => exact fun _ _ _ _ h => h.1.weight_le ih

/-- Statements are read from at least as many symbols as their trees have nodes. -/
theorem Statements.weight_le {levels : Nat} {xs : List Symbol} {ts : List Expr}
    (h : Statements levels xs ts) : weightAll ts ≤ xs.length := by
  induction h with
  | last h =>
    have hphrase := Phrase.measured _ _ _ _ _ h
    simp only [weightAll, List.length_nil] at hphrase ⊢
    omega
  | more h _ ih =>
    have hphrase := Phrase.measured _ _ _ _ _ h
    simp only [weightAll]
    omega

/-- The tree of a program adds at most one node to its statements. -/
theorem weight_assemble_le (ts : List Expr) : (assemble ts).weight ≤ 1 + weightAll ts := by
  unfold assemble
  split <;> simp only [weight, weightAll] <;> omega

end Grammar

/-- A tree with no more nodes than lists may have elements has no list that is too long. -/
theorem Expr.listsWithin_of_weight {limits : Limits} {bound : Nat}
    (harrays : (bound : Int) ≤ limits.bound .arrayLength)
    (hcalls : (bound : Int) ≤ limits.bound .argumentCount) (e : Expr) (h : e.weight ≤ bound) :
    e.ListsWithin limits := by
  induction hn : e.weight using Nat.strongRecOn generalizing e with
  | ind n ih =>
    subst hn
    refine .intro ?_ fun part hpart => ?_
    · have hchildren := length_le_weightAll e.children
      rw [weight_eq e] at h
      unfold ListWithin
      split
      · simp only [children] at hchildren h
        omega
      · simp only [children] at hchildren h
        omega
      · trivial
    · have hlt := weight_lt_of_mem_children hpart
      exact ih part.weight hlt part (by omega) rfl

namespace Grammar

open Formulary.Parser

/-! ## The grammar is unambiguous -/

/-- Statements are found where levels and lists are as large as they can need to be. -/
theorem Statements.read {levels : Nat} {xs : List Symbol} {ts : List Expr}
    (h : Statements levels xs ts) (input : Input) (heof : input.eof.kind = .eof)
    (hlevels : levels ≤ (input.limits.bound .parseDepth).toNat)
    (harrays : (xs.length : Int) ≤ input.limits.bound .arrayLength)
    (hcalls : (xs.length : Int) ≤ input.limits.bound .argumentCount) (s : Stream)
    (hs : s.symbols = xs) :
    ∃ ts' s', statements input xs.length s = .ok (ts', s') ∧ ts'.map bare = ts := by
  have hreads := statements_complete heof h xs.length s hs (Nat.le_refl _)
  cases hrun : statements input xs.length s with
  | ok result =>
    rw [hrun] at hreads
    exact ⟨result.1, result.2, rfl, hreads⟩
  | error failure =>
    rw [hrun] at hreads
    refine absurd ⟨hlevels, .intro trivial fun t ht => ?_⟩ hreads.not_room
    exact listsWithin_of_weight harrays hcalls t (Nat.le_trans (weight_le_weightAll ht) h.weight_le)

/-- A stream of given symbols. -/
def streamOf (xs : List Symbol) : Stream :=
  ⟨xs.map fun x => ⟨x.kind, x.value, .none⟩, 0⟩

/-- A stream that is made of some symbols has these symbols. -/
theorem symbols_streamOf (xs : List Symbol) : (streamOf xs).symbols = xs := by
  simp [streamOf, Stream.symbols, Function.comp_def, Token.symbol]

/-- An input in which every limit is a given number. -/
def roomFor (amount : Nat) : Input :=
  ⟨"", ⟨fun _ => amount⟩, Cursor.eofAt 0⟩

/-- If every limit is at least the weight of a tree, the lists of the tree are within their
limits. -/
theorem listsWithin_roomFor {amount : Nat} {t : Expr} (h : t.weight ≤ amount) :
    t.ListsWithin (roomFor amount).limits :=
  listsWithin_of_weight (Int.le_refl _) (Int.le_refl _) t h

/-- The same symbols are the same statements, however many levels are allowed. -/
theorem Statements.unique {levels levels' : Nat} {xs : List Symbol} {ts ts' : List Expr}
    (h : Statements levels xs ts) (h' : Statements levels' xs ts') : ts = ts' := by
  have hlevels : levels ≤ (((levels + levels' + xs.length : Nat) : Int)).toNat := by omega
  have hlevels' : levels' ≤ (((levels + levels' + xs.length : Nat) : Int)).toNat := by omega
  have hlists : (xs.length : Int) ≤ (levels + levels' + xs.length : Nat) := by omega
  let input := roomFor (levels + levels' + xs.length)
  obtain ⟨found, rest, hrun, hfound⟩ :=
    h.read input rfl hlevels hlists hlists _ (symbols_streamOf xs)
  obtain ⟨found', rest', hrun', hfound'⟩ :=
    h'.read input rfl hlevels' hlists hlists _ (symbols_streamOf xs)
  obtain ⟨rfl, -⟩ := Prod.mk.inj (Except.ok.inj (hrun.symm.trans hrun'))
  rw [← hfound, ← hfound']

/-- Symbols stand for one tree at most. -/
theorem Sentence.unique {xs : List Symbol} {t t' : Expr} (h : Sentence xs t) (h' : Sentence xs t') :
    t = t' := by
  obtain ⟨levels, ts, hts, rfl⟩ := h
  obtain ⟨levels', ts', hts', rfl⟩ := h'
  rw [hts.unique hts']

end Grammar

namespace Parser

open Grammar

/-! ## Reading a source -/

/-- Spans aside, the parser assembles the statements of a program as the grammar does. -/
theorem bare_assemble (source : String) (ts : List Expr) :
    (assemble source ts).bare = Grammar.assemble (ts.map bare) := by
  match ts with
  | [] => rfl
  | [t] => rfl
  | t :: u :: ts => simp [assemble, Grammar.assemble, bare]

/-- A tree that is within limits is accepted, and any other fails by a limit. -/
theorem withinLimits_cases (limits : Limits) (tree : Expr) :
    (withinLimits limits tree = .ok tree ∧ (tree.size : Int) ≤ limits.bound .nodeCount ∧
      (tree.depth : Int) ≤ limits.bound .treeDepth) ∨
    ∃ failure, withinLimits limits tree = .error failure ∧ failure.IsLimit ∧
      ¬ ((tree.size : Int) ≤ limits.bound .nodeCount ∧
        (tree.depth : Int) ≤ limits.bound .treeDepth) := by
  unfold withinLimits Limits.check
  by_cases hsize : limits.bound .nodeCount < tree.size
  · simp only [hsize, ↓reduceIte]
    exact .inr ⟨_, rfl, ⟨_, _, _, rfl⟩, by omega⟩
  · by_cases hdepth : limits.bound .treeDepth < tree.depth
    · simp only [hsize, hdepth, ↓reduceIte]
      exact .inr ⟨_, rfl, ⟨_, _, _, rfl⟩, by omega⟩
    · simp only [hsize, hdepth, ↓reduceIte]
      exact .inl ⟨trivial, by omega, by omega⟩

/-- Of a body of tokens and the end token behind it, those in front of the first end token are the
body. -/
theorem takeWhile_body {body : List Token} {eof : Token} (heof : eof.kind = .eof)
    (hbody : ∀ token ∈ body, token.kind ≠ .eof) :
    (body ++ [eof]).takeWhile (·.kind != .eof) = body := by
  rw [List.takeWhile_append_of_pos fun token htoken => by simpa using hbody token htoken]
  simp [heof]

/-- The tokens in front of the end token are what is read. -/
theorem parseTokens_eq {body : List Token} {eof : Token} (heof : eof.kind = .eof)
    (hbody : ∀ token ∈ body, token.kind ≠ .eof) (source : String) (limits : Limits) :
    parseTokens (body ++ [eof]) source limits =
      if body.isEmpty then
        .error (.error ⟨.grammatical .emptyProgram, ⟨some 0, some source, some 0⟩⟩)
      else match statements ⟨source, limits, eof⟩ body.length ⟨body, 0⟩ with
        | .error failure => .error failure
        | .ok (ts, _) => withinLimits limits (assemble source ts) := by
  have htake := takeWhile_body heof hbody
  have hfind : ((body ++ [eof]).find? (·.kind == .eof)).getD
      (Cursor.eofAt source.length) = eof := by
    have hnone : body.find? (·.kind == .eof) = none := by simpa using hbody
    rw [List.find?_append, hnone]
    simp [heof]
  unfold parseTokens
  rewrite [htake, hfind]
  rfl

/-- Tokens that stand for statements are read as these, or a limit is exceeded; and then some limit
is smaller than the number of tokens, the end token included, unless the statements are nested more
deeply than that. -/
theorem parseTokens_complete {body : List Token} {eof : Token} (heof : eof.kind = .eof)
    (hbody : ∀ token ∈ body, token.kind ≠ .eof) {levels : Nat} {ts : List Expr}
    (h : Statements levels (body.map Token.symbol) ts) (source : String) (limits : Limits) :
    (∃ tree, parseTokens (body ++ [eof]) source limits = .ok tree ∧
      tree.bare = Grammar.assemble ts) ∨
      ∃ failure, parseTokens (body ++ [eof]) source limits = .error failure ∧ failure.IsLimit ∧
        (levels ≤ body.length + 1 → ¬ ∀ kind, ((body.length + 1 : Nat) : Int) ≤
          limits.bound kind) := by
  have hne : body.isEmpty = false := by simpa using h.ne_nil
  rw [parseTokens_eq heof hbody, hne]
  have heof' : (Input.mk source limits eof).eof.kind = .eof := heof
  have hreads := statements_complete heof' h body.length ⟨body, 0⟩ rfl (by simp)
  have hweight := h.weight_le
  rw [List.length_map] at hweight
  cases hrun : statements ⟨source, limits, eof⟩ body.length ⟨body, 0⟩ with
  | error failure =>
    rw [hrun] at hreads
    refine .inr ⟨failure, rfl, hreads.isLimit, fun hlevels hbounds => hreads.not_room ⟨?_, ?_⟩⟩
    · have hdepth := hbounds .parseDepth
      show levels ≤ (limits.bound .parseDepth).toNat
      omega
    · refine listsWithin_of_weight (hbounds .arrayLength) (hbounds .argumentCount) _ ?_
      rw [weight]
      omega
  | ok result =>
    obtain ⟨found, rest⟩ := result
    rw [hrun] at hreads
    obtain rfl : found.map bare = ts := hreads
    rcases withinLimits_cases limits (assemble source found) with ⟨hok, -⟩ |
      ⟨failure, herror, hlimit, hover⟩
    · exact .inl ⟨_, hok, bare_assemble source found⟩
    · refine .inr ⟨failure, herror, hlimit, fun _ hbounds => hover ?_⟩
      -- The tree has no more nodes than there are tokens, the end token included.
      have hassemble := weight_assemble_le (found.map bare)
      rw [← bare_assemble source, ← size_eq_weight, size_bare, size_eq_weight] at hassemble
      have hdepth := depth_le_weight (assemble source found)
      have hnodes := hbounds .nodeCount
      have hlevels := hbounds .treeDepth
      rw [size_eq_weight]
      omega

section Source

variable {source : String} {limits : Limits} {body : List Token} {eof : Token}
  (htokens : tokenize source limits = .ok (body ++ [eof])) (heof : eof.kind = .eof)
  (hscans : Scans source.toList (body.map Token.symbol))

include hscans in
/-- The tokens in front of the end token are no end tokens themselves. -/
theorem kind_ne_eof : ∀ token ∈ body, token.kind ≠ .eof :=
  fun token htoken => (hscans.proper token.symbol (List.mem_map_of_mem htoken)).2.2

include htokens heof hscans in
/-- A source is read as the statements in front of its end token. -/
theorem parse_eq : parse source limits =
    if body.isEmpty then
      .error (.error ⟨.grammatical .emptyProgram, ⟨some 0, some source, some 0⟩⟩)
    else match statements ⟨source, limits, eof⟩ body.length ⟨body, 0⟩ with
      | .error failure => .error failure
      | .ok (ts, _) => withinLimits limits (assemble source ts) := by
  rw [parse, htokens]
  exact parseTokens_eq heof (kind_ne_eof hscans) source limits

include hscans in
/-- The symbols of a source can all be read, with room for one more. -/
theorem pending_body : Pending (body.length + 1) (body.map Token.symbol) where
  length_lt := by simp
  readable := by
    intro x hx hkind
    obtain ⟨digits, scale, hread⟩ := Number.read?_numeral ((hscans.proper x hx).1 hkind)
    rw [String.ofList_toList] at hread
    simp [hread]

/-- A result of reading some tokens and the end token: the tree that they stand for, a syntax error,
or a failure by a limit if some limit is smaller than their number. -/
def Accounts (body : List Token) (limits : Limits) : Except Failure Expr → Prop
  | .ok tree => Sentence (body.map Token.symbol) tree.bare
  | .error failure => failure.IsSyntax ∨
    (failure.IsLimit ∧ ¬ ∀ kind, ((body.length + 1 : Nat) : Int) ≤ limits.bound kind)

include htokens heof hscans in
/-- The result of parsing a source accounts for the tokens that it is cut into. -/
theorem parse_sound : Accounts body limits (parse source limits) := by
  rw [parse_eq htokens heof hscans]
  by_cases hempty : body.isEmpty
  · simp only [hempty, ↓reduceIte]
    exact .inl ⟨_, rfl⟩
  · simp only [hempty]
    have hne : body.map Token.symbol ≠ [] := by simpa using hempty
    have heof' : (Input.mk source limits eof).eof.kind = .eof := heof
    have hsound := statements_sound heof' body.length ⟨body, 0⟩ (by simp [Stream.symbols])
      (pending_body hscans) hne
    cases hrun : statements ⟨source, limits, eof⟩ body.length ⟨body, 0⟩ with
    | error failure =>
      rw [hrun] at hsound
      rcases hsound with hsyntax | ⟨hlimit, hroomy⟩
      · exact .inl hsyntax
      · refine .inr ⟨hlimit, fun hbounds => hroomy ?_⟩
        have hdepth := hbounds .parseDepth
        have harrays := hbounds .arrayLength
        have hcalls := hbounds .argumentCount
        exact ⟨by simp only at *; omega, by simp only at *; omega, by simp only at *; omega⟩
    | ok result =>
      obtain ⟨ts, rest⟩ := result
      rw [hrun] at hsound
      obtain ⟨hts, -⟩ := hsound
      have hsentence : Sentence (body.map Token.symbol) (assemble source ts).bare :=
        ⟨_, _, hts, bare_assemble source ts⟩
      rcases withinLimits_cases limits (assemble source ts) with ⟨hok, -⟩ |
        ⟨failure, herror, hlimit, hover⟩
      · simp only [Bool.false_eq_true, ↓reduceIte, hok]
        exact hsentence
      · simp only [Bool.false_eq_true, ↓reduceIte, herror]
        refine .inr ⟨hlimit, fun hbounds => hover ?_⟩
        -- The tree has no more nodes than there are tokens, the end token included.
        have hweight : (assemble source ts).weight ≤ body.length + 1 := by
          have hassemble := weight_assemble_le (ts.map bare)
          have hstatements := hts.weight_le
          rw [← bare_assemble source, ← size_eq_weight, size_bare, size_eq_weight] at hassemble
          simp only [Stream.symbols, List.length_map] at hstatements
          omega
        have hdepth := depth_le_weight (assemble source ts)
        have hnodes := hbounds .nodeCount
        have hlevels := hbounds .treeDepth
        rw [size_eq_weight]
        omega

include htokens heof hscans in
/-- The tree that the symbols stand for is what the parser returns, unless it fails by a limit. -/
theorem parse_complete {t : Expr} (h : Sentence (body.map Token.symbol) t) :
    (∃ tree, parse source limits = .ok tree ∧ tree.bare = t) ∨
      ∃ failure, parse source limits = .error failure ∧ failure.IsLimit := by
  obtain ⟨levels, ts, hts, rfl⟩ := h
  rw [parse, htokens]
  rcases parseTokens_complete heof (kind_ne_eof hscans) hts source limits with hok |
    ⟨failure, herror, hlimit, -⟩
  · exact .inl hok
  · exact .inr ⟨failure, herror, hlimit⟩

end Source

end Parser

namespace Grammar

/-- The symbols of the tokens in front of the end token. -/
def symbolsOf (tokens : List Token) : List Symbol :=
  (tokens.takeWhile (·.kind != .eof)).map Token.symbol

/-- The parser accepts exactly the grammar.  The tokens of a source stand for one tree at most.
Unless the parser fails by a limit, it returns a tree exactly if the tokens stand for it, spans
aside, and otherwise it fails with a syntax error.  It does not fail by a limit if none is smaller
than the number of tokens. -/
theorem parse_iff_sentence {source : String} {limits : Limits} {tokens : List Token}
    (h : tokenize source limits = .ok tokens) :
    (∀ t t', Sentence (symbolsOf tokens) t → Sentence (symbolsOf tokens) t' → t = t') ∧
    ((∀ failure, parse source limits = .error failure → ¬ failure.IsLimit) →
      (∀ t, (∃ tree, parse source limits = .ok tree ∧ tree.bare = t) ↔
        Sentence (symbolsOf tokens) t) ∧
      ((¬ ∃ t, Sentence (symbolsOf tokens) t) →
        ∃ failure, parse source limits = .error failure ∧ failure.IsSyntax)) ∧
    ((∀ kind, (tokens.length : Int) ≤ limits.bound kind) →
      ∀ failure, parse source limits = .error failure → ¬ failure.IsLimit) := by
  obtain ⟨body, eof, rfl, hscans, heof⟩ := tokenize_scans h
  have hbody : symbolsOf (body ++ [eof]) = body.map Token.symbol := by
    rw [symbolsOf, Parser.takeWhile_body heof (Parser.kind_ne_eof hscans)]
  have hsound := Parser.parse_sound h heof hscans
  rw [hbody]
  refine ⟨fun t t' ht ht' => ht.unique ht', fun hlimit => ⟨fun t => ⟨?_, fun ht => ?_⟩, ?_⟩, ?_⟩
  · rintro ⟨tree, hparse, rfl⟩
    rw [hparse] at hsound
    exact hsound
  · rcases Parser.parse_complete h heof hscans ht with hparse | ⟨failure, herror, hfailure⟩
    · exact hparse
    · exact absurd hfailure (hlimit failure herror)
  · intro hnone
    cases hparse : parse source limits with
    | ok tree =>
      rw [hparse] at hsound
      exact absurd ⟨_, hsound⟩ hnone
    | error failure =>
      rw [hparse] at hsound
      rcases hsound with hsyntax | ⟨hfailure, -⟩
      · exact ⟨failure, rfl, hsyntax⟩
      · exact absurd hfailure (hlimit failure hparse)
  · intro hbounds failure herror hfailure
    rw [herror] at hsound
    rcases hsound with hsyntax | ⟨-, hover⟩
    · exact Failure.not_isSyntax_of_isLimit hfailure hsyntax
    · exact hover (by simpa using hbounds)

/-- A unary minus under a power takes the power behind it: `2 ^ -x ^ 3` is `2 ^ (-(x ^ 3))`. -/
theorem parse_power_of_negated_power :
    ∃ tokens, tokenize "2 ^ -x ^ 3" .standard = .ok tokens ∧
      ∃ tree, parse "2 ^ -x ^ 3" .standard = .ok tree ∧ tree.bare =
        .binary .none .power (.number .none 2)
          (.unary .none .negate (.binary .none .power (.identifier .none "x")
            (.number .none 3))) := by
  have htokens : tokenize "2 ^ -x ^ 3" .standard =
      .ok [⟨.number, "2", ⟨0, 1⟩⟩, ⟨.caret, "^", ⟨2, 3⟩⟩, ⟨.minus, "-", ⟨4, 5⟩⟩,
        ⟨.identifier, "x", ⟨5, 6⟩⟩, ⟨.caret, "^", ⟨7, 8⟩⟩, ⟨.number, "3", ⟨9, 10⟩⟩,
        ⟨.eof, "", ⟨10, 10⟩⟩] := rfl
  obtain ⟨-, hparse, hlimits⟩ := parse_iff_sentence htokens
  refine ⟨_, htokens, ((hparse (hlimits fun kind => ?_)).1 _).mpr ⟨4, _, .last ?_, rfl⟩⟩
  · cases kind <;> decide
  · have htwo : Number.read? "2" = some 2 := by decide +kernel
    have hthree : Number.read? "3" = some 3 := by decide +kernel
    have hcube : Phrase 2 9 [⟨.identifier, "x"⟩, ⟨.caret, "^"⟩, ⟨.number, "3"⟩]
        (.binary .none .power (.identifier .none "x") (.number .none 3)) [] :=
      ⟨⟨_, _, .name (by simp [NoArguments]), .step (.power (by decide)
        ⟨⟨_, _, .number hthree, .done⟩, trivial⟩) .done⟩, trivial⟩
    exact ⟨⟨_, _, .number htwo, .step (.power (by decide)
      ⟨⟨_, _, .negate hcube, .done⟩, trivial⟩) .done⟩, trivial⟩

end Grammar

end Formulary
