import Formulary.Expr.Code
import Formulary.Proofs.Double
import Formulary.Proofs.Numeral

/-!
# The text of a number

In formula text a number that is not negative is a numeral (`numeral_text`), a negative one is a
minus sign and the numeral of its negation (`text_of_negative`), and what is no number is a product.
-/

set_option autoImplicit false

namespace Formulary.Number

open Formulary.Text Formulary.Expr

/-- A natural number is written with decimal digits. -/
theorem digits_toDigits (n : Nat) : Digits (Nat.toDigits 10 n) := by
  intro c hc
  have hdigit := Nat.isDigit_of_mem_toDigits (by decide) (by decide) hc
  simpa [isAsciiDigit, Char.isDigit, Char.le_def] using hdigit

/-- A numeral that starts with a digit. -/
def Unsigned (cs : List Char) : Prop :=
  Numeral cs ∧ Lexeme.startsWithDigit cs = true

/-- The digits of a natural number are a numeral that starts with a digit. -/
theorem unsigned_toDigits (n : Nat) : Unsigned (Nat.toDigits 10 n) := by
  have hdigits := digits_toDigits n
  have hne : Nat.toDigits 10 n ≠ [] := Nat.toDigits_ne_nil
  refine ⟨⟨_, [], .whole hdigits hne, .none, by simp⟩, ?_⟩
  simpa using startsWithDigit_append hdigits hne []

/-- Digits with a point and more digits behind them are a numeral that starts with a digit. -/
theorem unsigned_pointed {ds es : List Char} (hds : Digits ds) (hes : Digits es) (hne : ds ≠ [])
    (hne' : es ≠ []) : Unsigned (ds ++ '.' :: es) :=
  ⟨⟨_, [], .pointed hds hes hne', .none, by simp⟩, startsWithDigit_append hds hne _⟩

/-- A row of zeros is a run of digits. -/
theorem digits_replicate (n : Nat) : Digits (List.replicate n '0') := by
  intro d hd
  obtain ⟨-, rfl⟩ := List.mem_replicate.mp hd
  decide

/-- The text of an exponent behind its mark is an exponent. -/
theorem exponent_exponentText (e : Int) : Exponent ('e' :: exponentText e) := by
  have hdigits : Digits (zeroPadded 2 (Nat.toDigits 10 e.natAbs)) :=
    (digits_replicate _).append (digits_toDigits _)
  have hne : zeroPadded 2 (Nat.toDigits 10 e.natAbs) ≠ [] := by
    simp [zeroPadded, Nat.toDigits_ne_nil]
  unfold exponentText
  split
  · exact .some (.signed (.inl rfl) (.inr rfl)) hdigits hne
  · exact .some (.signed (.inl rfl) (.inl rfl)) hdigits hne

/-- Digits that are laid out around a point are a numeral. -/
theorem unsigned_layOut {digits : List Char} (hdigits : Digits digits) (hne : digits ≠ [])
    (point : Int) : Unsigned (layOut digits point) := by
  unfold layOut
  split
  · -- With an exponent.
    have hexponent := exponent_exponentText (point - 1)
    match digits, hne, hdigits with
    | [d], hne, hdigits =>
      refine ⟨⟨[d], _, .whole hdigits hne, hexponent, rfl⟩, ?_⟩
      exact startsWithDigit_append hdigits hne _
    | d :: d' :: rest, _, hdigits =>
      have hd : Digits [d] := fun c hc => hdigits c (by simp_all)
      have hrest : Digits (d' :: rest) := fun c hc => hdigits c (List.mem_cons_of_mem _ hc)
      refine ⟨⟨[d] ++ '.' :: d' :: rest, _, .pointed hd hrest (by simp), hexponent, rfl⟩, ?_⟩
      exact startsWithDigit_append hd (by simp) _
  split
  · -- Behind a zero and a point.
    have hzero : Digits ['0'] := digits_replicate 1
    exact unsigned_pointed hzero ((digits_replicate _).append hdigits) (by simp) (by simp [hne])
  split
  · -- In front of the point.
    have hzero : Digits ['0'] := digits_replicate 1
    have hwhole : Digits (digits ++ List.replicate (point.toNat - digits.length) '0') :=
      hdigits.append (digits_replicate _)
    exact unsigned_pointed hwhole hzero (by simp [hne]) (by simp)
  · -- On both sides of the point.
    rename_i hpoint hlength
    have htake : Digits (digits.take point.toNat) := fun c hc => hdigits c (List.mem_of_mem_take hc)
    have hdrop : Digits (digits.drop point.toNat) := fun c hc => hdigits c (List.mem_of_mem_drop hc)
    refine unsigned_pointed htake hdrop ?_ ?_
    · simp only [ne_eq, List.take_eq_nil_iff, hne, or_false]
      omega
    · simp only [ne_eq, List.drop_eq_nil_iff]
      omega

/-- The text of a positive number is a numeral that starts with a digit. -/
theorem unsigned_positiveText (m : Nat) (q : Int) : Unsigned (positiveText m q) :=
  unsigned_layOut (digits_toDigits _) Nat.toDigits_ne_nil _

/-! ## Finite numbers -/

/-- The natural that `m · 2^q` is, if it is one. -/
def wholeOf? (m : Nat) (q : Int) : Option Nat :=
  if 0 ≤ q then some (m * twoTo q.toNat)
  else if m % twoTo (-q).toNat = 0 then some (m / twoTo (-q).toNat) else none

/-- A finite number is whole if and only if its magnitude is a natural, and then it is that natural
with its sign. -/
theorem whole?_eq {x : Float} {negative : Bool} {m : Nat} {q : Int}
    (h : parts x = .finite negative m q) : whole? x = (wholeOf? m q).map (signed negative) := by
  unfold whole? wholeOf?
  rw [h]
  by_cases hq : 0 ≤ q
  · simp [hq]
  · by_cases hm : m % twoTo (-q).toNat = 0 <;> simp [hq, hm]

/-- A magnitude is zero only if its mantissa is. -/
theorem eq_zero_of_wholeOf? {m : Nat} {q : Int} (h : wholeOf? m q = some 0) : m = 0 := by
  have hpos : ∀ n, 0 < twoTo n := fun n => Nat.pow_pos (by decide)
  unfold wholeOf? at h
  split at h
  · rcases Nat.mul_eq_zero.mp (Option.some.inj h) with hm | htwo
    · exact hm
    · exact absurd htwo (Nat.ne_of_gt (hpos _))
  · split at h
    · rename_i hmod
      have hdiv : m / twoTo (-q).toNat = 0 := Option.some.inj h
      have hsplit := Nat.div_add_mod m (twoTo (-q).toNat)
      rw [hdiv, hmod] at hsplit
      simpa using hsplit.symm
    · simp at h

/-- The text of `m · 2^q`. -/
def magnitudeText (m : Nat) (q : Int) : List Char :=
  let decimal := if m = 0 then ['0', '.', '0'] else positiveText m q
  match wholeOf? m q with
  | some n => if n < tenTo 16 then Nat.toDigits 10 n else decimal
  | none => decimal

/-- The text of a magnitude is a numeral that starts with a digit. -/
theorem unsigned_magnitudeText (m : Nat) (q : Int) : Unsigned (magnitudeText m q) := by
  have hdecimal : Unsigned (if m = 0 then ['0', '.', '0'] else positiveText m q) := by
    split
    · exact unsigned_pointed (digits_replicate 1) (digits_replicate 1) (by simp) (by simp)
    · exact unsigned_positiveText m q
  unfold magnitudeText
  simp only
  split
  · split
    · exact unsigned_toDigits _
    · exact hdecimal
  · exact hdecimal

/-- The text of an integer is its sign and the digits of its amount. -/
theorem intText_signed {negative : Bool} {n : Nat} (h : n ≠ 0 ∨ negative = false) :
    (intText (signed negative n)).toList =
      (if negative then ['-'] else []) ++ Nat.toDigits 10 n := by
  cases negative with
  | false =>
    have hnot : ¬ (n : Int) < 0 := by omega
    simp [intText, signed, hnot]
  | true =>
    have hn : 0 < n := Nat.pos_of_ne_zero (by simpa using h)
    simp [intText, signed, hn]

/-- The plain text of a finite number is its sign and the text of its magnitude. -/
theorem toList_plain {x : Float} {negative : Bool} {m : Nat} {q : Int}
    (h : parts x = .finite negative m q) :
    (plain x).toList = (if negative then ['-'] else []) ++
      (if m = 0 then ['0', '.', '0'] else positiveText m q) := by
  unfold plain
  rw [h]
  cases negative <;> simp

/-- A finite number is written as the text of its magnitude, behind a minus sign if it is
negative. -/
theorem toList_text {x : Float} {negative : Bool} {m : Nat} {q : Int}
    (h : parts x = .finite negative m q) :
    (codeStyle.text x).toList = (if negative then ['-'] else []) ++ magnitudeText m q := by
  have hplain := toList_plain h
  unfold Style.text
  rw [h]
  simp only
  split
  · -- A negative zero.
    rename_i hzero
    obtain ⟨rfl, rfl⟩ := hzero
    have hwhole : wholeOf? 0 q = some 0 := by
      unfold wholeOf?
      split <;> simp
    simp [magnitudeText, hwhole, codeStyle, tenTo]
  · rename_i hzero
    rw [whole?_eq h]
    unfold magnitudeText
    cases hwhole : wholeOf? m q with
    | none => exact hplain
    | some n =>
      have hsign : n ≠ 0 ∨ negative = false := by
        by_cases hn : n = 0
        · subst hn
          have hm := eq_zero_of_wholeOf? hwhole
          simp only [hm, true_and] at hzero
          exact .inr (by simpa using hzero)
        · exact .inl hn
      have habs : (signed negative n).natAbs = n := by cases negative <;> simp [signed]
      simp only [Option.map_some, habs]
      have hbound : codeStyle.wholeBelow = tenTo 16 := rfl
      rw [hbound]
      split
      · exact intText_signed hsign
      · exact hplain

/-! ## All numbers -/

/-- A number that is neither negative nor NaN is written as a numeral. -/
theorem unsigned_text {x : Float} (hsign : isNegative x = false) (hnan : isNaN x = false) :
    Unsigned (codeStyle.text x).toList := by
  unfold isNegative at hsign
  unfold isNaN at hnan
  cases hparts : parts x with
  | nan => simp [hparts] at hnan
  | infinite negative =>
    obtain rfl : negative = false := by simpa [hparts] using hsign
    have htext : (codeStyle.text x).toList = ['1'] ++ (['e'] ++ ['9', '9', '9']) := by
      simp [Style.text, hparts, codeStyle]
    have hdigits : Digits ['1'] ∧ Digits ['9', '9', '9'] := by simp [Digits]; decide
    rw [htext]
    exact ⟨⟨_, _, .whole hdigits.1 (by simp),
      .some (.plain (.inl rfl)) hdigits.2 (by simp), rfl⟩, by decide⟩
  | finite negative m q =>
    obtain rfl : negative = false := by simpa [hparts] using hsign
    rw [toList_text hparts]
    exact unsigned_magnitudeText m q

/-- The negation of a negative number is neither negative nor NaN. -/
theorem isNegative_neg {x : Float} (hsign : isNegative x = true) :
    isNegative (-x) = false ∧ isNaN (-x) = false := by
  unfold isNegative isNaN at *
  cases hparts : parts x with
  | nan => simp [hparts] at hsign
  | infinite negative =>
    obtain rfl : negative = true := by simpa [hparts] using hsign
    rw [parts_neg x (by simp [hparts]), hparts]
    exact ⟨rfl, rfl⟩
  | finite negative m q =>
    obtain rfl : negative = true := by simpa [hparts] using hsign
    rw [parts_neg x (by simp [hparts]), hparts]
    exact ⟨rfl, rfl⟩

/-- A negative number is written as a minus sign and its negation. -/
theorem text_of_negative {x : Float} (hsign : isNegative x = true) :
    (codeStyle.text x).toList = '-' :: (codeStyle.text (-x)).toList := by
  unfold isNegative at hsign
  cases hparts : parts x with
  | nan => simp [hparts] at hsign
  | infinite negative =>
    obtain rfl : negative = true := by simpa [hparts] using hsign
    have hneg : parts (-x) = .infinite false := by
      rw [parts_neg x (by simp [hparts]), hparts]
      rfl
    simp [Style.text, hparts, hneg, codeStyle]
  | finite negative m q =>
    obtain rfl : negative = true := by simpa [hparts] using hsign
    have hneg : parts (-x) = .finite false m q := by
      rw [parts_neg x (by simp [hparts]), hparts]
      rfl
    rw [toList_text hparts, toList_text hneg]
    rfl

/-- There is one positive infinity. -/
theorem eq_of_infinite {x y : Float} (hx : parts x = .infinite false)
    (hy : parts y = .infinite false) : x = y := by
  have hbits : ∀ z : Float, parts z = .infinite false → z.toBits.toNat = 2047 * twoTo 52 := by
    intro z hz
    unfold parts at hz
    simp only at hz
    have hlt : z.toBits.toNat < 2 * twoTo 63 := z.toBits.toNat_lt
    split at hz
    · rename_i hexponent
      split at hz
      · rename_i hfraction
        have hsign : ¬ twoTo 63 ≤ z.toBits.toNat := by simpa using hz
        have htwo : twoTo 63 = twoTo 11 * twoTo 52 := by decide
        have hdiv := Nat.div_add_mod z.toBits.toNat (twoTo 52)
        have hquotient : z.toBits.toNat / twoTo 52 < twoTo 11 := by
          apply Nat.div_lt_of_lt_mul
          rw [Nat.mul_comm, ← htwo]
          omega
        rw [Nat.mod_eq_of_lt hquotient] at hexponent
        rw [hexponent, hfraction] at hdiv
        omega
      · simp at hz
    · split at hz <;> simp at hz
  have hmodel : x.toModel.toBits = y.toModel.toBits :=
    UInt64.toNat_inj.mp ((hbits x hx).trans (hbits y hy).symm)
  obtain ⟨⟨bits, valid⟩⟩ := x
  obtain ⟨⟨bits', valid'⟩⟩ := y
  obtain rfl : bits = bits' := hmodel
  rfl

end Formulary.Number
