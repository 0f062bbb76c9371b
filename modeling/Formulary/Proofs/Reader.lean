import Formulary.Expr.Parser
import Formulary.Proofs.Grammar

/-!
# Readers of tokens

How the parser's small steps move over the symbols of a stream.  `Holds result good bad` says that a
result is a good one, or a failure of a kind that is expected; `Holds.bind` takes it through a
sequence of steps.

A reader of expressions is compared with a relation of the grammar in two ways.  It is `Sound` if
what it returns is a phrase, and if it fails only as `Expected`: with a syntax error, or by a limit
that the symbols left can exceed.  It is `Complete` if it returns the phrase that stands at the
front whenever there is one, unless a limit is exceeded.
-/

set_option autoImplicit false

namespace Formulary

/-- A failure that a limit caused. -/
def Failure.IsLimit : Failure → Prop
  | .error e => ∃ name bound amount, e.cause = .limitExceeded name bound amount
  | .fault _ => False

/-- A failure that the grammar caused. -/
def Failure.IsSyntax : Failure → Prop
  | .error e => ∃ fault, e.cause = .grammatical fault
  | .fault _ => False

/-- No failure is caused by a limit and by the grammar at once. -/
theorem Failure.not_isSyntax_of_isLimit {failure : Failure} (h : failure.IsLimit) :
    ¬ failure.IsSyntax := by
  cases failure with
  | error e =>
    obtain ⟨name, bound, amount, hcause⟩ := h
    rintro ⟨fault, hcause'⟩
    simp [hcause] at hcause'
  | fault f => exact h.elim

namespace Expr

/-- A node's own list is within its limit. -/
def ListWithin (limits : Limits) : Expr → Prop
  | .array _ elements => (elements.length : Int) ≤ limits.bound .arrayLength
  | .call _ _ arguments => (arguments.length : Int) ≤ limits.bound .argumentCount
  | _ => True

/-- All arrays and argument lists of a tree are within their limits. -/
def ListsWithin (limits : Limits) : Expr → Prop :=
  Everywhere (ListWithin limits)

end Expr

namespace Parser

open Grammar

/-! ## Results of readers -/

/-- A result is a good one, or a failure of a kind that is expected. -/
def Holds {α : Type} (result : Except Failure (α × Stream)) (good : α → Stream → Prop)
    (bad : Failure → Prop) : Prop :=
  match result with
  | .ok (a, s) => good a s
  | .error failure => bad failure

section Rules

variable {α β : Type} {good : α → Stream → Prop} {bad : Failure → Prop} {s : Stream}

/-- What the first step guarantees is what the next one may rely on. -/
theorem Holds.bind {x : Reader α} {f : α → Reader β} {after : β → Stream → Prop}
    (hx : Holds (x s) good bad) (hf : ∀ a s', good a s' → Holds (f a s') after bad) :
    Holds ((x >>= f) s) after bad := by
  show Holds (Except.bind (x s) fun p => f p.1 p.2) after bad
  cases h : x s with
  | ok p =>
    rw [h] at hx
    exact hf p.1 p.2 hx
  | error failure =>
    rw [h] at hx
    exact hx

/-- A reader that looks at the stream holds if what it goes on with does. -/
theorem Holds.get {α : Type} {f : Stream → Reader α} {good : α → Stream → Prop}
    (h : Holds (f s s) good bad) : Holds ((MonadState.get >>= f) s) good bad :=
  h

/-- A result that holds also holds with a wider notion of good results and of expected failures. -/
theorem Holds.mono {result : Except Failure (α × Stream)} {good' : α → Stream → Prop}
    {bad' : Failure → Prop} (h : Holds result good bad) (hgood : ∀ a s, good a s → good' a s)
    (hbad : ∀ failure, bad failure → bad' failure) : Holds result good' bad' := by
  cases result with
  | ok p => exact hgood p.1 p.2 h
  | error failure => exact hbad failure h

end Rules

/-! ## Streams and their symbols -/

/-- The symbols of the tokens still to read. -/
def Stream.symbols (s : Stream) : List Symbol :=
  s.rest.map Token.symbol

/-- A stream has as many symbols as tokens left. -/
theorem Stream.length_symbols (s : Stream) : s.symbols.length = s.rest.length :=
  List.length_map _

/-- The first symbol of a stream is that of its first token. -/
theorem Stream.symbols_eq_cons {s : Stream} {x : Symbol} {ys : List Symbol}
    (h : s.symbols = x :: ys) :
    ∃ token rest, s.rest = token :: rest ∧ token.symbol = x ∧ rest.map Token.symbol = ys :=
  List.map_eq_cons_iff.mp h

/-- Symbols still to be read: fewer than `room`, and the numbers among them can be read. -/
structure Pending (room : Nat) (xs : List Symbol) : Prop where
  length_lt : xs.length < room
  readable : ∀ x ∈ xs, x.kind = .number → (Number.read? x.value).isSome

/-- What is left of pending symbols behind a phrase is pending too. -/
theorem Pending.behind {room : Nat} {xs ys : List Symbol} (h : Pending room xs)
    (hbehind : Behind ys xs) : Pending room ys :=
  ⟨Nat.lt_trans hbehind.length_lt h.length_lt, fun y hy => h.readable y (hbehind.mem hy)⟩

/-- Pending symbols are so without the first of them. -/
theorem Pending.rest {room : Nat} {x : Symbol} {xs : List Symbol} (h : Pending room (x :: xs)) :
    Pending room xs :=
  h.behind (.of_cons x xs)

/-- Reading the first symbol leaves less room. -/
theorem Pending.tail {room : Nat} {x : Symbol} {xs : List Symbol}
    (h : Pending (room + 1) (x :: xs)) : Pending room xs :=
  ⟨Nat.lt_of_succ_lt_succ h.length_lt, h.rest.readable⟩

/-- Symbols that are pending with some room are so with more room. -/
theorem Pending.succ {room : Nat} {xs : List Symbol} (h : Pending room xs) :
    Pending (room + 1) xs :=
  ⟨Nat.lt_succ_of_lt h.length_lt, h.readable⟩

/-- Limits that so many symbols cannot exceed: there are more levels than symbols, and a list of as
many elements is not too long. -/
def Roomy (limits : Limits) (levels amount : Nat) : Prop :=
  amount < levels ∧ (amount : Int) ≤ limits.bound .arrayLength ∧
    (amount : Int) ≤ limits.bound .argumentCount

/-- The failures that reading an amount of symbols may end in: a syntax error, or a limit that so
many symbols can exceed. -/
def Expected (limits : Limits) (levels amount : Nat) (failure : Failure) : Prop :=
  failure.IsSyntax ∨ (failure.IsLimit ∧ ¬ Roomy limits levels amount)

section Steps

variable {input : Input} {limits : Limits} {levels amount : Nat} {bad : Failure → Prop} {s : Stream}

/-- Advancing takes the first symbol from a stream. -/
theorem advance_holds {x : Symbol} {ys : List Symbol} (h : s.symbols = x :: ys) :
    Holds (advance s) (fun _ s' => s'.symbols = ys) bad := by
  obtain ⟨tokens, lastStop⟩ := s
  obtain ⟨token, rest, hrest, -, hys⟩ := Stream.symbols_eq_cons h
  obtain rfl : tokens = token :: rest := hrest
  exact hys

/-- Looking ahead leaves the stream as it is; behind the last token the end token is seen. -/
theorem peek_holds (s : Stream) :
    Holds (peek input s)
      (fun token s' => s' = s ∧
        ((s.symbols = [] ∧ token = input.eof) ∨ ∃ ys, s.symbols = token.symbol :: ys)) bad := by
  unfold peek
  refine Holds.get ?_
  cases hrest : s.rest with
  | nil => exact ⟨rfl, .inl ⟨by simp [Stream.symbols, hrest], rfl⟩⟩
  | cons token rest =>
    exact ⟨rfl, .inr ⟨rest.map Token.symbol, by simp [Stream.symbols, hrest]⟩⟩

/-- Peeking yields the first symbol of a stream and leaves it there. -/
theorem peek_cons {x : Symbol} {ys : List Symbol} (h : s.symbols = x :: ys) :
    Holds (peek input s) (fun token s' => s' = s ∧ token.symbol = x) bad := by
  refine (peek_holds s).mono ?_ fun _ h => h
  rintro token s' ⟨rfl, ⟨hnil, -⟩ | ⟨zs, hzs⟩⟩
  · simp [hnil] at h
  · exact ⟨rfl, (List.cons.inj (hzs.symm.trans h)).1⟩

/-- Skipping a kind of token says truly whether the next token is of that kind. -/
theorem skipIf_holds (kind : TokenKind) (s : Stream) :
    Holds (skipIf kind s)
      (fun found s' =>
        (found = true ∧ ∃ v, s.symbols = ⟨kind, v⟩ :: s'.symbols) ∨
        (found = false ∧ s' = s ∧ ∀ v ys, s.symbols ≠ ⟨kind, v⟩ :: ys)) bad := by
  unfold skipIf
  refine Holds.get ?_
  cases hrest : s.rest with
  | nil => exact .inr ⟨rfl, rfl, by simp [Stream.symbols, hrest]⟩
  | cons token rest =>
    have hsymbols : s.symbols = token.symbol :: rest.map Token.symbol := by
      simp [Stream.symbols, hrest]
    by_cases hkind : token.kind = kind
    · simp only [hkind, ↓reduceIte]
      refine (advance_holds hsymbols).bind ?_
      intro _ s' hs'
      refine .inl ⟨rfl, token.value, ?_⟩
      rw [hsymbols, hs', Token.symbol, hkind]
    · simp only [hkind, ↓reduceIte]
      refine .inr ⟨rfl, rfl, ?_⟩
      intro v ys hys
      rw [hsymbols, Token.symbol, List.cons.injEq, Symbol.mk.injEq] at hys
      exact hkind hys.1.1

/-- A symbol of the kind that may be skipped is skipped. -/
theorem skipIf_cons {kind : TokenKind} {v : String} {ys : List Symbol}
    (h : s.symbols = ⟨kind, v⟩ :: ys) :
    Holds (skipIf kind s) (fun found s' => found = true ∧ s'.symbols = ys) bad := by
  refine (skipIf_holds kind s).mono ?_ fun _ h => h
  rintro found s' (⟨hfound, w, hw⟩ | ⟨-, -, hno⟩)
  · exact ⟨hfound, (List.cons.inj (hw.symm.trans h)).2⟩
  · exact absurd h (hno v ys)

/-- If the stream does not start with a symbol of the kind, nothing is skipped. -/
theorem skipIf_other {kind : TokenKind} (h : ∀ v ys, s.symbols ≠ ⟨kind, v⟩ :: ys) :
    Holds (skipIf kind s) (fun found s' => found = false ∧ s' = s) bad := by
  refine (skipIf_holds kind s).mono ?_ fun _ h => h
  rintro found s' (⟨-, w, hw⟩ | ⟨hfound, hs', -⟩)
  · exact absurd hw (h w _)
  · exact ⟨hfound, hs'⟩

/-- A rejection is a syntax error, which is always expected. -/
theorem reject_holds {α : Type} {good : α → Stream → Prop} (fault : SyntaxFault) (token : Token) :
    Holds ((reject input fault token : Reader α) s) good (Expected limits levels amount) :=
  .inl ⟨fault, rfl⟩

/-- A demanded token is there, or its absence is a syntax error. -/
theorem consume_sound (heof : input.eof.kind = .eof) {kind : TokenKind} (hkind : kind ≠ .eof)
    (expectation : Expectation) (s : Stream) :
    Holds (consume input kind expectation s)
      (fun token s' => s.symbols = ⟨kind, token.value⟩ :: s'.symbols)
      (Expected limits levels amount) := by
  unfold consume
  refine (peek_holds s).bind ?_
  rintro token _ ⟨rfl, hnext⟩
  by_cases htoken : token.kind = kind
  · simp only [htoken, ↓reduceIte]
    rcases hnext with ⟨-, rfl⟩ | ⟨ys, hys⟩
    · exact absurd (htoken.symm.trans heof) hkind
    · refine (advance_holds hys).bind ?_
      intro _ s' hs'
      show _ = _
      rw [hys, hs', Token.symbol, htoken]
  · simp only [htoken, ↓reduceIte]
    exact reject_holds _ _

/-- A symbol of the kind to be consumed is consumed, and its token has its value. -/
theorem consume_complete {kind : TokenKind} {expectation : Expectation} {v : String}
    {ys : List Symbol} (h : s.symbols = ⟨kind, v⟩ :: ys) :
    Holds (consume input kind expectation s) (fun token s' => token.value = v ∧ s'.symbols = ys)
      bad := by
  unfold consume
  refine (peek_cons h).bind ?_
  rintro token _ ⟨rfl, htoken⟩
  obtain ⟨hkind, hvalue⟩ := Symbol.mk.inj htoken
  simp only [hkind, ↓reduceIte]
  refine (advance_holds h).bind ?_
  intro _ s' hs'
  exact ⟨hvalue, hs'⟩

/-- A demand of a limit holds, or fails by a limit that so many symbols can exceed. -/
theorem demand_sound {kind : LimitKind} {length : Nat}
    (hroomy : Roomy limits levels amount → (length : Int) ≤ limits.bound kind) :
    Holds (demand limits kind length s) (fun _ s' => s' = s ∧ (length : Int) ≤ limits.bound kind)
      (Expected limits levels amount) := by
  unfold demand Limits.check
  by_cases hlimit : limits.bound kind < length
  · simp only [hlimit, ↓reduceIte]
    refine .inr ⟨⟨_, _, _, rfl⟩, fun h => ?_⟩
    have hlength := hroomy h
    omega
  · simp only [hlimit, ↓reduceIte]
    exact ⟨rfl, by omega⟩

/-- A demand of a limit fails only by that limit, and only where it is exceeded. -/
theorem demand_complete {kind : LimitKind} {length : Nat} :
    Holds (demand limits kind length s) (fun _ s' => s' = s)
      (fun failure => failure.IsLimit ∧ ¬ (length : Int) ≤ limits.bound kind) := by
  unfold demand Limits.check
  by_cases hlimit : limits.bound kind < length
  · simp only [hlimit, ↓reduceIte]
    exact ⟨⟨_, _, _, rfl⟩, by omega⟩
  · simp only [hlimit, ↓reduceIte]
    exact rfl

end Steps

/-! ## Readers of expressions -/

/-- Where fewer than `room` symbols are left, what a reader returns is a phrase with lists within
limits, and its failures are of an expected kind. -/
def Sound (limits : Limits) (bad : Failure → Prop) (room : Nat) (read : Nat → Reader Expr)
    (sub : Nat → Phrases) : Prop :=
  ∀ minimum s, Pending room s.symbols →
    Holds (read minimum s)
      (fun t s' => sub minimum s.symbols t.bare s'.symbols ∧ t.bare.ListsWithin limits) bad

/-- Why a phrase for `t` is not returned: there are not `enough` levels, or a list of `t` is too
long. -/
def Exceeded (limits : Limits) (enough : Prop) (t : Expr) (failure : Failure) : Prop :=
  (failure = .error ⟨tooDeep limits, .unknown⟩ ∧ ¬ enough) ∨
    (failure.IsLimit ∧ ¬ t.ListsWithin limits)

/-- A reader returns the phrase at the front of the stream, unless a limit is exceeded. -/
def Complete (limits : Limits) (enough : Prop) (read : Nat → Reader Expr) (sub : Nat → Phrases) :
    Prop :=
  ∀ minimum s t ys, sub minimum s.symbols t ys →
    Holds (read minimum s) (fun t' s' => t'.bare = t ∧ s'.symbols = ys) (Exceeded limits enough t)

section Excess

variable {limits : Limits} {enough : Prop} {t part : Expr} {failure : Failure}

/-- A phrase that is not returned because something is exceeded fails by a limit. -/
theorem Exceeded.isLimit (h : Exceeded limits enough t failure) : failure.IsLimit := by
  rcases h with ⟨rfl, -⟩ | ⟨hlimit, -⟩
  · exact ⟨_, _, _, rfl⟩
  · exact hlimit

/-- With enough levels and with lists within the limits, nothing is exceeded. -/
theorem Exceeded.not_room (h : Exceeded limits enough t failure) :
    ¬ (enough ∧ t.ListsWithin limits) := by
  rintro ⟨henough, hlists⟩
  rcases h with ⟨-, hfew⟩ | ⟨-, hlong⟩
  · exact hfew henough
  · exact hlong hlists

/-- A list that is too long in one tree is too long in a tree whose lists are within limits only if
those of the first are. -/
theorem Exceeded.of_lists (h : Exceeded limits enough part failure)
    (hlists : t.ListsWithin limits → part.ListsWithin limits) : Exceeded limits enough t failure :=
  h.imp_right fun hlong => ⟨hlong.1, fun ht => hlong.2 (hlists ht)⟩

/-- A limit that a part exceeds is exceeded by the whole. -/
theorem Exceeded.of_part (h : Exceeded limits enough part failure) (hpart : part ∈ t.children) :
    Exceeded limits enough t failure :=
  h.of_lists fun ht => ht.part hpart

end Excess

end Parser

end Formulary
