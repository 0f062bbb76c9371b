import Formulary.Number.Reading
import Formulary.Token.Lexeme

/-!
# Numerals

The texts of numbers: digits with at most one point among them, and possibly an exponent.  The
scanner takes only numerals as numbers (`Lexeme.numeral_of_number`), it takes a whole numeral where
nothing that follows goes on with it (`Lexeme.number_append`), and every numeral can be read
(`Number.read?_numeral`).
-/

set_option autoImplicit false

namespace Formulary

open Formulary.Text

/-- A run of decimal digits. -/
def Digits (ds : List Char) : Prop :=
  ∀ d ∈ ds, isAsciiDigit d

/-- Two runs of digits make a run of digits. -/
theorem Digits.append {ds es : List Char} (hds : Digits ds) (hes : Digits es) :
    Digits (ds ++ es) := by
  intro d hd
  rcases List.mem_append.mp hd with hd | hd
  · exact hds d hd
  · exact hes d hd

/-- The digits at the front of a text are a run of digits. -/
theorem digits_takeWhile (cs : List Char) : Digits (cs.takeWhile isAsciiDigit) :=
  fun d hd => List.all_eq_true.mp List.all_takeWhile d hd

/-- Digits in front of what does not start with one are all that is taken. -/
theorem Digits.takeWhile_append {ds rest : List Char} (hds : Digits ds)
    (hrest : Lexeme.startsWithDigit rest = false) :
    (ds ++ rest).takeWhile isAsciiDigit = ds := by
  rw [List.takeWhile_append_of_pos hds]
  cases rest with
  | nil => simp
  | cons c rest =>
    have hc : isAsciiDigit c = false := hrest
    simp [hc]

/-- Skipping the digits at the front of a text skips a whole run of digits and nothing behind it. -/
theorem Digits.dropWhile_append {ds rest : List Char} (hds : Digits ds)
    (hrest : Lexeme.startsWithDigit rest = false) :
    (ds ++ rest).dropWhile isAsciiDigit = rest := by
  rw [List.dropWhile_append_of_pos hds]
  cases rest with
  | nil => simp
  | cons c rest =>
    have hc : isAsciiDigit c = false := hrest
    simp [hc]

/-- A text starts with a digit if a run of digits that is not empty stands at its front. -/
theorem startsWithDigit_append {ds : List Char} (hds : Digits ds) (hne : ds ≠ [])
    (rest : List Char) : Lexeme.startsWithDigit (ds ++ rest) = true := by
  cases ds with
  | nil => exact absurd rfl hne
  | cons d ds => exact hds d List.mem_cons_self

/-- A text that starts with a digit has digits at its front. -/
theorem takeWhile_ne_nil {cs : List Char} (h : Lexeme.startsWithDigit cs = true) :
    cs.takeWhile isAsciiDigit ≠ [] := by
  cases cs with
  | nil => simp [Lexeme.startsWithDigit] at h
  | cons c cs =>
    have hc : isAsciiDigit c = true := h
    simp [hc]

/-- The digits of a number in front of its exponent. -/
inductive Mantissa : List Char → Prop
  | whole {ds} : Digits ds → ds ≠ [] → Mantissa ds
  | pointed {ds es} : Digits ds → Digits es → es ≠ [] → Mantissa (ds ++ '.' :: es)

/-- The mark of an exponent with an optional sign. -/
inductive Mark : List Char → Prop
  | plain {mark} : mark = 'e' ∨ mark = 'E' → Mark [mark]
  | signed {mark sign} : mark = 'e' ∨ mark = 'E' → sign = '+' ∨ sign = '-' → Mark [mark, sign]

/-- What a number ends in: nothing, or an exponent. -/
inductive Exponent : List Char → Prop
  | none : Exponent []
  | some {mark ds} : Mark mark → Digits ds → ds ≠ [] → Exponent (mark ++ ds)

/-- The text of a number. -/
def Numeral (cs : List Char) : Prop :=
  ∃ base exponent, Mantissa base ∧ Exponent exponent ∧ cs = base ++ exponent

/-- A numeral that starts with a point goes on with a digit. -/
theorem Numeral.startsWithDigit_of_point {cs : List Char} (h : Numeral ('.' :: cs)) :
    Lexeme.startsWithDigit cs = true := by
  obtain ⟨base, exponent, hbase, -, htext⟩ := h
  cases hbase with
  | whole hds hne =>
    cases base with
    | nil => exact absurd rfl hne
    | cons d ds =>
      obtain ⟨rfl, -⟩ := List.cons.inj htext
      exact absurd (hds '.' List.mem_cons_self) (by decide)
  | @pointed ds es hds hes hne =>
    cases ds with
    | nil =>
      obtain ⟨-, rfl⟩ := List.cons.inj htext
      exact startsWithDigit_append hes hne exponent
    | cons d ds =>
      obtain ⟨rfl, -⟩ := List.cons.inj htext
      exact absurd (hds '.' List.mem_cons_self) (by decide)

/-! ## What the scanner takes as a number -/

namespace Lexeme

/-- What stands in front of the exponent of a number is a mantissa, if it starts like one. -/
theorem mantissa_mantissa {cs : List Char}
    (h : startsWithDigit cs = true ∨ ∃ rest, cs = '.' :: rest ∧ startsWithDigit rest = true) :
    Mantissa (mantissa cs) := by
  unfold mantissa
  have hwhole := digits_takeWhile cs
  split
  · rename_i rest hrest
    by_cases hdigit : startsWithDigit rest
    · simp only [hdigit, ↓reduceIte]
      exact .pointed hwhole (digits_takeWhile rest) (takeWhile_ne_nil hdigit)
    · simp only [hdigit]
      rcases h with h | ⟨rest', rfl, hrest'⟩
      · exact .whole hwhole (takeWhile_ne_nil h)
      · have hpoint : isAsciiDigit '.' = false := by decide
        simp only [List.dropWhile_cons, hpoint] at hrest
        simp_all
  · rename_i hno
    rcases h with h | ⟨rest', rfl, hrest'⟩
    · exact .whole hwhole (takeWhile_ne_nil h)
    · have hpoint : isAsciiDigit '.' = false := by decide
      exact absurd (by simp [hpoint]) (hno rest')

/-- The mark of an exponent is one, if there is any. -/
theorem mark_exponentMark (cs : List Char) : exponentMark cs = [] ∨ Mark (exponentMark cs) := by
  unfold exponentMark
  split
  · split
    · rename_i c rest hc
      split
      · split
        · rename_i hs
          exact .inr (.signed hc hs)
        · exact .inr (.plain hc)
      · exact .inr (.plain hc)
    · exact .inl rfl
  · exact .inl rfl

/-- A number in terms of its three parts: what stands in front of the exponent, the exponent's mark
and the exponent's digits. -/
theorem number_eq {cs base mark digits : List Char} (hbase : mantissa cs = base)
    (hmark : exponentMark (cs.drop base.length) = mark)
    (hdigits : (if mark.isEmpty then []
      else (cs.drop (base.length + mark.length)).takeWhile isAsciiDigit) = digits) :
    number cs =
      if !mark.isEmpty ∧ digits.isEmpty then
        .fault .missingExponentDigit 0 (base ++ mark ++ digits).length
          (base ++ mark ++ digits).length
      else match cs.drop (base ++ mark ++ digits).length with
        | '.' :: rest =>
          if startsWithDigit rest then
            .fault .secondPoint 0 ((base ++ mark ++ digits).length + 1)
              (base ++ mark ++ digits).length
          else plain .number (base ++ mark ++ digits)
        | _ => plain .number (base ++ mark ++ digits) := by
  subst hbase hmark hdigits
  rfl

/-- A number that the scanner takes is a numeral, and it is the text that is taken. -/
theorem numeral_of_number {cs : List Char} {kind : TokenKind} {value : List Char} {length : Nat}
    (hcs : startsWithDigit cs = true ∨ ∃ rest, cs = '.' :: rest ∧ startsWithDigit rest = true)
    (h : number cs = .token kind value length) :
    Numeral value ∧ .token kind value length = plain .number value := by
  have hbase := mantissa_mantissa hcs
  generalize hmark : exponentMark (cs.drop (mantissa cs).length) = mark
  generalize hdigits : (if mark.isEmpty then []
    else (cs.drop ((mantissa cs).length + mark.length)).takeWhile isAsciiDigit) = digits
  rw [number_eq rfl hmark hdigits] at h
  split at h
  · simp at h
  · rename_i hsome
    have hplain : plain .number (mantissa cs ++ mark ++ digits) = .token kind value length := by
      split at h
      · split at h
        · simp at h
        · exact h
      · exact h
    have hvalue : mantissa cs ++ mark ++ digits = value := (token.inj hplain).2.1
    refine ⟨?_, by rw [← hvalue, hplain, hvalue]⟩
    rcases hmark ▸ mark_exponentMark (cs.drop (mantissa cs).length) with rfl | hmarks
    · subst hdigits
      exact ⟨_, [], hbase, .none, by simpa using hvalue.symm⟩
    · have hne : mark.isEmpty = false := by cases hmarks <;> rfl
      simp only [hne, Bool.false_eq_true, ↓reduceIte] at hdigits
      have hdigits' : Digits digits := hdigits ▸ digits_takeWhile _
      refine ⟨_, _, hbase, .some hmarks hdigits' ?_, by rw [← hvalue, List.append_assoc]⟩
      simpa [hne] using hsome

/-- A mantissa is taken whole where what follows goes on with no digit and no pointed digit. -/
theorem mantissa_append {base rest : List Char} (h : Mantissa base)
    (hdigit : startsWithDigit rest = false)
    (hpoint : ∀ after, rest = '.' :: after → startsWithDigit after = false) :
    mantissa (base ++ rest) = base := by
  unfold mantissa
  cases h with
  | whole hds _ =>
    rw [hds.takeWhile_append hdigit, hds.dropWhile_append hdigit]
    split
    · simp [hpoint _ rfl]
    · rfl
  | @pointed ds es hds hes hne =>
    have hno : startsWithDigit ('.' :: (es ++ rest)) = false := rfl
    rw [List.append_assoc, List.cons_append, hds.takeWhile_append hno, hds.dropWhile_append hno]
    simp [startsWithDigit_append hes hne rest, hes.takeWhile_append hdigit]

/-- In front of a run of digits, the mark of an exponent is taken as one. -/
theorem exponentMark_append {mark ds : List Char} (hmark : Mark mark) (hds : Digits ds)
    (hne : ds ≠ []) (rest : List Char) : exponentMark (mark ++ ds ++ rest) = mark := by
  cases hmark with
  | signed hc hs => simp [exponentMark, hc, hs]
  | plain hc =>
    cases ds with
    | nil => exact absurd rfl hne
    | cons d ds =>
      have hd : isAsciiDigit d = true := hds d List.mem_cons_self
      have hsign : ¬ (d = '+' ∨ d = '-') := by
        rintro (rfl | rfl) <;> exact absurd hd (by decide)
      simp [exponentMark, hc, hsign]

/-- A number whose exponent, if marked, has digits, and which no pointed digit follows is a
token. -/
theorem number_of_parts {cs base mark digits rest : List Char} (hbase : mantissa cs = base)
    (hmark : exponentMark (cs.drop base.length) = mark)
    (hdigits : (if mark.isEmpty then []
      else (cs.drop (base.length + mark.length)).takeWhile isAsciiDigit) = digits)
    (hsome : ¬ (!mark.isEmpty ∧ digits.isEmpty)) (hrest : cs = base ++ mark ++ digits ++ rest)
    (hpoint : ∀ after, rest = '.' :: after → startsWithDigit after = false) :
    number cs = plain .number (base ++ mark ++ digits) := by
  have hdrop : cs.drop (base ++ mark ++ digits).length = rest := by rw [hrest, List.drop_left]
  rw [number_eq hbase hmark hdigits, if_neg hsome, hdrop]
  split
  · simp [hpoint _ rfl]
  · rfl

/-- A numeral is taken whole where what follows starts with no digit, with no exponent mark and with
no point in front of a digit. -/
theorem number_append {cs rest : List Char} (hcs : Numeral cs)
    (hdigit : startsWithDigit rest = false) (hmark : exponentMark rest = [])
    (hpoint : ∀ after, rest = '.' :: after → startsWithDigit after = false) :
    number (cs ++ rest) = plain .number cs := by
  obtain ⟨base, exponent, hbase, hexponent, rfl⟩ := hcs
  cases hexponent with
  | none =>
    rw [List.append_nil]
    have hmark' : exponentMark ((base ++ rest).drop base.length) = [] := by
      rw [List.drop_left, hmark]
    have hnumber := number_of_parts (mantissa_append hbase hdigit hpoint) hmark' rfl (by simp)
      (by simp) hpoint
    simpa using hnumber
  | @some mark ds hmarks hds hne =>
    have hshape : startsWithDigit (mark ++ ds ++ rest) = false ∧
        ∀ after, mark ++ ds ++ rest ≠ '.' :: after := by
      cases hmarks with
      | plain hc | signed hc _ => rcases hc with rfl | rfl <;> simp [startsWithDigit, isAsciiDigit]
    have hcs : base ++ (mark ++ ds) ++ rest = base ++ (mark ++ ds ++ rest) := List.append_assoc ..
    rw [hcs]
    have hbase' : mantissa (base ++ (mark ++ ds ++ rest)) = base :=
      mantissa_append hbase hshape.1 fun after hafter => absurd hafter (hshape.2 after)
    have hmark' : exponentMark ((base ++ (mark ++ ds ++ rest)).drop base.length) = mark := by
      rw [List.drop_left]
      exact exponentMark_append hmarks hds hne rest
    have hdigits : (if mark.isEmpty then [] else
        ((base ++ (mark ++ ds ++ rest)).drop (base.length + mark.length)).takeWhile
          isAsciiDigit) = ds := by
      have hnonempty : mark.isEmpty = false := by cases hmarks <;> rfl
      rw [hnonempty, ← List.drop_drop, List.drop_left, List.append_assoc, List.drop_left]
      exact hds.takeWhile_append hdigit
    rw [number_of_parts hbase' hmark' hdigits (by simp [hne]) (by simp) hpoint, List.append_assoc]

end Lexeme

/-! ## Reading numerals -/

/-- Each element of a list is looked at in turn; deciding the statement for characters would try
every character there is. -/
theorem forall_mem_of_all {α : Type} {l : List α} {P : α → Prop} [DecidablePred P]
    (h : l.all (fun a => decide (P a)) = true) : ∀ a ∈ l, P a := by
  simpa using h

/-- The decimal digits are the ten characters from `0` to `9`. -/
theorem mem_of_isAsciiDigit {c : Char} (h : isAsciiDigit c = true) : c ∈ "0123456789".toList := by
  have hbounds : 48 ≤ c.toNat ∧ c.toNat ≤ 57 := by
    simpa [isAsciiDigit, Char.le_def, UInt32.le_iff_toNat_le] using h
  have hall : ∀ n : Fin 10, Char.ofNat (48 + n) ∈ "0123456789".toList := by decide
  have hc := hall ⟨c.toNat - 48, by omega⟩
  rwa [show 48 + (c.toNat - 48) = c.toNat by omega, Char.ofNat_toNat] at hc

/-- The characters of numerals. -/
def numeralChars : List Char :=
  "0123456789".toList ++ ".eE+-".toList

/-- The decimal digits are characters of numerals. -/
theorem mem_numeralChars_of_isAsciiDigit {c : Char} (h : isAsciiDigit c = true) :
    c ∈ numeralChars :=
  List.mem_append_left _ (mem_of_isAsciiDigit h)

/-- A mantissa consists of characters of numerals. -/
theorem Mantissa.mem_chars {base : List Char} (h : Mantissa base) :
    ∀ c ∈ base, c ∈ numeralChars := by
  intro c hc
  cases h with
  | whole hds _ => exact mem_numeralChars_of_isAsciiDigit (hds c hc)
  | pointed hds hes _ =>
    rcases List.mem_append.mp hc with hc | hc
    · exact mem_numeralChars_of_isAsciiDigit (hds c hc)
    · rcases List.mem_cons.mp hc with rfl | hc
      · decide
      · exact mem_numeralChars_of_isAsciiDigit (hes c hc)

/-- An exponent consists of characters of numerals. -/
theorem Exponent.mem_chars {exponent : List Char} (h : Exponent exponent) :
    ∀ c ∈ exponent, c ∈ numeralChars := by
  intro c hc
  cases h with
  | none => simp at hc
  | some hmark hds _ =>
    rcases List.mem_append.mp hc with hc | hc
    · cases hmark with
      | plain hletter =>
        obtain rfl := List.mem_singleton.mp hc
        rcases hletter with rfl | rfl <;> decide
      | signed hletter hsign =>
        rcases List.mem_cons.mp hc with rfl | hc
        · rcases hletter with rfl | rfl <;> decide
        · obtain rfl := List.mem_singleton.mp hc
          rcases hsign with rfl | rfl <;> decide
    · exact mem_numeralChars_of_isAsciiDigit (hds c hc)

/-- A numeral consists of characters of numerals. -/
theorem Numeral.mem_chars {cs : List Char} (h : Numeral cs) : ∀ c ∈ cs, c ∈ numeralChars := by
  obtain ⟨base, exponent, hbase, hexponent, rfl⟩ := h
  intro c hc
  rcases List.mem_append.mp hc with hc | hc
  · exact hbase.mem_chars c hc
  · exact hexponent.mem_chars c hc

/-- A numeral starts with a digit or a point. -/
theorem Numeral.first {cs : List Char} (h : Numeral cs) :
    ∃ c rest, cs = c :: rest ∧ (isAsciiDigit c = true ∨ c = '.') := by
  obtain ⟨base, exponent, hbase, -, rfl⟩ := h
  cases hbase with
  | whole hds hne =>
    cases base with
    | nil => exact absurd rfl hne
    | cons d ds => exact ⟨d, _, rfl, .inl (hds d List.mem_cons_self)⟩
  | @pointed ds es hds _ _ =>
    cases ds with
    | nil => exact ⟨'.', _, rfl, .inr rfl⟩
    | cons d ds => exact ⟨d, _, rfl, .inl (hds d List.mem_cons_self)⟩

namespace Number

/-- Nothing is stripped from a text that has no character to be skipped. -/
theorem strip_eq_self {skipped : Char → Bool} {cs : List Char} (h : ∀ c ∈ cs, skipped c = false) :
    strip skipped cs = cs := by
  have hdrop : ∀ ds : List Char, (∀ d ∈ ds, skipped d = false) → ds.dropWhile skipped = ds := by
    intro ds hds
    cases ds with
    | nil => rfl
    | cons d ds => simp [List.dropWhile, hds d List.mem_cons_self]
  unfold strip
  rw [hdrop cs h, hdrop cs.reverse (fun d hd => h d (List.mem_reverse.mp hd)), List.reverse_reverse]

/-- A text without underscores is read as it is. -/
theorem dropUnderscores_eq_self {previous : Char} {cs : List Char} (hprevious : previous ≠ '_')
    (h : ∀ c ∈ cs, c ≠ '_') : dropUnderscores previous cs = some cs := by
  induction cs generalizing previous with
  | nil => simp [dropUnderscores, hprevious]
  | cons c cs ih =>
    have hc := h c List.mem_cons_self
    have hcs := ih hc fun d hd => h d (List.mem_cons_of_mem _ hd)
    simp [dropUnderscores, hc, hprevious, hcs]

/-- What a numeral ends in can be read as an exponent. -/
theorem exponent?_exponent {exponent : List Char} (h : Exponent exponent) :
    ∃ e, exponent? exponent = some e := by
  cases h with
  | none => exact ⟨0, rfl⟩
  | @some mark ds hmark hds hne =>
    have hall : ds.all isAsciiDigit = true := List.all_eq_true.mpr hds
    cases hmark with
    | signed hc hs => rcases hs with rfl | rfl <;> simpa [exponent?, hc, hne] using hall
    | plain hc =>
      cases ds with
      | nil => exact absurd rfl hne
      | cons d ds =>
        have hd : isAsciiDigit d = true := hds d List.mem_cons_self
        have hminus : d ≠ '-' := by
          rintro rfl
          exact absurd hd (by decide)
        have hplus : d ≠ '+' := by
          rintro rfl
          exact absurd hd (by decide)
        simpa [exponent?, hc, hminus, hplus] using hall

/-- A numeral denotes a decimal. -/
theorem unsignedDecimal?_numeral {cs : List Char} (h : Numeral cs) :
    ∃ digits scale, unsignedDecimal? cs = some (ofDecimal digits scale) := by
  obtain ⟨base, exponent, hbase, hexponent, rfl⟩ := h
  obtain ⟨e, he⟩ := exponent?_exponent hexponent
  have hstart : Lexeme.startsWithDigit exponent = false ∧ ∀ rest, exponent ≠ '.' :: rest := by
    cases hexponent with
    | none => exact ⟨rfl, by simp⟩
    | some hmark _ _ =>
      cases hmark with
      | plain hc | signed hc _ =>
        rcases hc with rfl | rfl <;> simp [Lexeme.startsWithDigit, isAsciiDigit]
  unfold unsignedDecimal?
  cases hbase with
  | whole hds hne =>
    rw [hds.takeWhile_append hstart.1, hds.dropWhile_append hstart.1]
    split
    rename_i fraction rest hsplit
    have hparts : fraction = [] ∧ rest = exponent := by
      split at hsplit
      · exact absurd rfl (hstart.2 _)
      · simpa [eq_comm] using hsplit
    obtain ⟨rfl, rfl⟩ := hparts
    exact ⟨digitsValue base, e, by simp [hne, he]⟩
  | @pointed ds es hds hes hne =>
    have hno : Lexeme.startsWithDigit ('.' :: (es ++ exponent)) = false := rfl
    rw [List.append_assoc, List.cons_append, hds.takeWhile_append hno, hds.dropWhile_append hno]
    refine ⟨digitsValue (ds ++ es), e - es.length, ?_⟩
    simp [hes.takeWhile_append hstart.1, hes.dropWhile_append hstart.1, hne, he]

/-- Every numeral can be read. -/
theorem read?_numeral {cs : List Char} (h : Numeral cs) :
    ∃ digits scale, read? (String.ofList cs) = some (ofDecimal digits scale) := by
  obtain ⟨digits, scale, hdecimal⟩ := unsignedDecimal?_numeral h
  have hchars : ∀ c ∈ numeralChars, isNumberBlank c = false ∧ asciiDigit c = c ∧ c ≠ '_' :=
    forall_mem_of_all (by decide)
  have hstrip : strip isNumberBlank cs = cs :=
    strip_eq_self fun c hc => (hchars c (h.mem_chars c hc)).1
  have hascii : cs.map asciiDigit = cs := by
    have hmap : cs.map asciiDigit = cs.map id :=
      List.map_congr_left fun c hc => (hchars c (h.mem_chars c hc)).2.1
    simpa using hmap
  have hunderscores : dropUnderscores ' ' cs = some cs :=
    dropUnderscores_eq_self (by decide) fun c hc => (hchars c (h.mem_chars c hc)).2.2
  refine ⟨digits, scale, ?_⟩
  unfold read?
  rw [String.toList_ofList, hstrip, hascii, hunderscores]
  obtain ⟨c, rest, rfl, hc⟩ := h.first
  -- The first character rules out a sign and the words.
  have hfirst : c ≠ '-' ∧ c ≠ '+' ∧ c.toLower ≠ 'i' ∧ c.toLower ≠ 'n' := by
    have hall : ∀ d ∈ '.' :: "0123456789".toList,
        d ≠ '-' ∧ d ≠ '+' ∧ d.toLower ≠ 'i' ∧ d.toLower ≠ 'n' :=
      forall_mem_of_all (by decide)
    rcases hc with hc | rfl
    · exact hall c (List.mem_cons_of_mem _ (mem_of_isAsciiDigit hc))
    · exact hall '.' List.mem_cons_self
  obtain ⟨hminus, hplus, hi, hn⟩ := hfirst
  have hword : ∀ word : String, word.toList.head? ≠ some c.toLower →
      String.ofList ((c :: rest).map Char.toLower) ≠ word := by
    rintro _ hne rfl
    exact hne (by simp)
  have hinf := hword "inf" (by simpa using hi.symm)
  have hinfinity := hword "infinity" (by simpa using hi.symm)
  have hnan := hword "nan" (by simpa using hn.symm)
  have hsigned : signed? (c :: rest) = unsigned? (c :: rest) := by
    unfold signed?
    split <;> simp_all
  rw [Option.bind_some, hsigned]
  unfold unsigned?
  simp only [hinf, hinfinity, hnan, or_self, ↓reduceIte, hdecimal]

end Number

end Formulary
