import Formulary.Proofs.Magnitude

/-!
# Integers that are doubles

An integer that lies between plus and minus `2^53` is a double exactly: the double that stands for
it lies where the integer lies (`exists_ofInt?_exact`).  Its mantissa is shifted, and rounding cuts
nothing off but zeros.  The same is true of every integer, however large, at whose place a double
lies (`exists_ofInt?_of_place`).  In the other direction, a double is whole exactly if it lies where
an integer lies (`whole?_eq_some_iff`).
-/

set_option autoImplicit false

namespace Formulary.Number

open Float.Model
open Float.Model.UnpackedFloat

/-! ## Rounding without loss -/

/-- Shifting out zeros loses nothing. -/
theorem shiftRight_exact (c k : Nat) :
    ExtendedMantissa.mk (c * 2 ^ k) false false >>> k = ⟨c, false, false⟩ := by
  induction k generalizing c with
  | zero =>
    rw [Nat.pow_zero, Nat.mul_one]
    rfl
  | succ k ih =>
    show (ExtendedMantissa.mk (c * 2 ^ (k + 1)) false false >>> k).shiftRightOne = _
    rw [Nat.pow_succ, Nat.mul_comm (2 ^ k), ← Nat.mul_assoc, ih]
    simp [ExtendedMantissa.shiftRightOne]

/-- Finite doubles with equal mantissas and exponents are equal, whatever proves that they are
positive. -/
theorem finite_congr (sign : Sign) {m m' : Nat} {e e' : Int} (hm : m = m') (he : e = e') (h : 0 < m)
    (h' : 0 < m') :
    UnpackedFloat.finite sign m e h = .finite sign m' e' h' := by
  subst hm he
  rfl

section FullMantissa

variable {c : Nat} (hc : c.log2 = 52)
include hc

/-- A mantissa of 53 digits is positive. -/
theorem pos_of_log2 : 0 < c := by
  apply Nat.pos_of_ne_zero
  rintro rfl
  simp at hc

/-- A full mantissa with zeros behind it is only shifted. -/
theorem shiftToTargetExponent_exact (k : Nat) {e : Int} (he : -1074 ≤ e + k) :
    shiftToTargetExponent Format.binary64 (c * 2 ^ k) e .exact = (⟨c, false, false⟩, e + k) := by
  have haim : Format.binary64.targetExponent (totalExponent (c * 2 ^ k) e) = e + k := by
    show aim (c * 2 ^ k) e = e + k
    rw [aim, log2_mul_twoTo (Nat.ne_of_gt (pos_of_log2 hc))]
    omega
  have hshift : (e + k - e).toNat = k := by omega
  unfold shiftToTargetExponent shiftToExponent
  dsimp only
  rw [haim, hshift]
  exact Prod.ext (shiftRight_exact c k) rfl

/-- A mantissa of 53 digits with zeros behind it is rounded to itself. -/
theorem roundWithAccuracy_exact (sign : Sign) (k : Nat) {e : Int} (he : -1074 ≤ e + k) :
    roundWithAccuracy Format.binary64 sign (c * 2 ^ k) e .exact =
      .finite sign c (e + k) (pos_of_log2 hc) := by
  have hagain : shiftToTargetExponent Format.binary64 c (e + k) .exact =
      (⟨c, false, false⟩, e + k) := by
    simpa using shiftToTargetExponent_exact hc 0 (show -1074 ≤ e + k + (0 : Nat) by omega)
  have hrounded : (ExtendedMantissa.mk c false false).roundedMantissa = c := rfl
  unfold roundWithAccuracy
  rw [shiftToTargetExponent_exact hc k he]
  dsimp only
  rw [hrounded, hagain]
  exact dif_neg (Nat.ne_of_gt (pos_of_log2 hc))

/-- A double with a full mantissa is packed without loss. -/
theorem unpack_pack_exact (sign : Sign) {e : Int} (hlow : -1074 ≤ e) (hhigh : e ≤ 971)
    (hpos : 0 < c) :
    (Float.Model.pack (.finite sign c e hpos)).unpack = .finite sign c e hpos := by
  obtain ⟨hmin, hmax⟩ := (Nat.log2_eq_iff (Nat.ne_of_gt hpos)).mp hc
  let mantissa := BitVec.ofNat 52 (c - 2 ^ 52)
  let exponent := BitVec.ofNat 11 (e + 1075).toNat
  have hmantissa : (1#1 ++ mantissa).toNat = c := by
    rw [toNat_implicit, BitVec.toNat_ofNat, Nat.mod_eq_of_lt (by omega)]
    exact Nat.add_sub_of_le hmin
  have hexponent : exponent.toNat = (e + 1075).toNat := by
    rw [BitVec.toNat_ofNat]
    exact Nat.mod_eq_of_lt (by omega)
  have hsame : ∀ h : 0 < (1#1 ++ mantissa).toNat, UnpackedFloat.finite sign c e hpos =
      .finite sign (1#1 ++ mantissa).toNat ((exponent.toNat : Int) - 1075) h := by
    intro h
    exact finite_congr sign hmantissa.symm (by omega) hpos h
  rw [hsame (implicit_pos mantissa)]
  show UnpackedFloat.unpack Format.binary64 (UnpackedFloat.pack Format.binary64 _) = _
  rw [pack_normal _ _ _ (by omega), unpack_packComponents]
  have hspecial : exponent ≠ -1#_ := by
    intro heq
    have hones : exponent.toNat = 2047 := congrArg BitVec.toNat heq
    omega
  have hnormal : exponent ≠ 0#_ := by
    intro heq
    have hzeros : exponent.toNat = 0 := congrArg BitVec.toNat heq
    omega
  unfold ofFields
  rw [if_neg hspecial, if_neg hnormal]

end FullMantissa

/-! ## Integers of at most 53 digits -/

section Small

variable {n : Nat} (hn : n ≠ 0) (hlt : n < 2 ^ 53)
include hn hlt

/-- A mantissa that is filled up with zeros has 53 digits. -/
theorem log2_filled : (n * 2 ^ (52 - n.log2)).log2 = 52 := by
  have hlog : n.log2 ≤ 52 := log2_le_of_lt hlt
  rw [log2_mul_twoTo hn]
  omega

/-- A natural number of at most 53 digits is a double. -/
theorem ofNat_exact : UnpackedFloat.ofNat Format.binary64 n =
    .finite .positive (n * 2 ^ (52 - n.log2)) (n.log2 - 52) (pos_of_log2 (log2_filled hn hlt)) := by
  have hlog : n.log2 ≤ 52 := log2_le_of_lt hlt
  have hfill : (0 - Format.binary64.targetExponent (totalExponent n 0)).toNat = 52 - n.log2 := by
    show (0 - aim n 0).toNat = _
    unfold aim
    omega
  have hpositive : compare (n : Int) 0 = .gt := Int.compare_eq_gt.mpr (by omega)
  have hexponent : 0 - ((52 - n.log2 : Nat) : Int) = n.log2 - 52 := by omega
  have hround := roundWithAccuracy_exact (log2_filled hn hlt) .positive 0
    (show -1074 ≤ (n.log2 : Int) - 52 + (0 : Nat) by omega)
  rw [Nat.pow_zero, Nat.mul_one] at hround
  unfold UnpackedFloat.ofNat UnpackedFloat.ofInt UnpackedFloat.normalize
  rw [hpositive]
  dsimp only
  rw [Int.toNat_natCast]
  unfold UnpackedFloat.round decreaseExponent
  dsimp only
  rw [hfill, Nat.shiftLeft_eq, hexponent, hround]
  exact finite_congr _ rfl (Int.add_zero _) _ _

/-- The double of a small integer has the mantissa of the integer, filled up with zeros. -/
theorem unpack_ofScientific_exact : (Float.ofScientific n false 0).toModel.unpack =
    .finite .positive (n * 2 ^ (52 - n.log2)) (n.log2 - 52) (pos_of_log2 (log2_filled hn hlt)) := by
  have hlog : n.log2 ≤ 52 := log2_le_of_lt hlt
  have hfull := log2_filled hn hlt
  have htoNat : n.toUInt64.toNat = n := UInt64.toNat_ofNat_of_lt (Nat.lt_trans hlt (by decide))
  have hwhole : n.toUInt64.toFloat.toModel.unpack =
      .finite .positive (n * 2 ^ (52 - n.log2)) (n.log2 - 52) (pos_of_log2 hfull) := by
    show (Float.Model.pack (UnpackedFloat.ofNat Format.binary64 n.toUInt64.toNat)).unpack = _
    rw [htoNat, ofNat_exact hn hlt]
    exact unpack_pack_exact hfull _ (by omega) (by omega) _
  have hone : (Float.ofBits 0x3FF0000000000000).toModel.unpack =
      .finite .positive (2 ^ 52) (-52) (Nat.two_pow_pos 52) := rfl
  have hexponent : (n.log2 : Int) - 52 + -52 + (52 : Nat) = n.log2 - 52 := by omega
  unfold Float.ofScientific
  rw [dif_pos ⟨hlt, by decide⟩]
  show (Float.Model.pack (UnpackedFloat.mul Format.binary64 n.toUInt64.toFloat.toModel.unpack
    (Float.ofBits 0x3FF0000000000000).toModel.unpack)).unpack = _
  rw [hwhole, hone, mul_finite]
  show (Float.Model.pack (roundWithAccuracy Format.binary64 .positive _ _ _)).unpack = _
  rw [roundWithAccuracy_exact hfull .positive 52 (by omega)]
  rw [finite_congr _ rfl hexponent _ (pos_of_log2 hfull)]
  exact unpack_pack_exact hfull _ (by omega) (by omega) _

end Small

/-- The double of a small natural number lies where the number lies. -/
theorem parts_ofScientific_exact {n : Nat} (h : n ≤ twoTo 53) :
    ∃ m q, parts (Float.ofScientific n false 0) = .finite false m q ∧
      m * twoTo (q + 1074).toNat = n * unitsPerOne := by
  by_cases hzero : n = 0
  · subst hzero
    refine ⟨0, -1074, by decide +kernel, ?_⟩
    rw [Nat.zero_mul, Nat.zero_mul]
  by_cases hlt : n < 2 ^ 53
  · have hlog : n.log2 ≤ 52 := log2_le_of_lt hlt
    refine ⟨n * 2 ^ (52 - n.log2), n.log2 - 52, ?_, ?_⟩
    · rw [parts_eq, unpack_ofScientific_exact hzero hlt]
      rfl
    · have hexponent : 52 - n.log2 + ((n.log2 : Int) - 52 + 1074).toNat = 1074 := by omega
      show n * twoTo (52 - n.log2) * twoTo _ = n * twoTo 1074
      rw [Nat.mul_assoc, ← twoTo_add, hexponent]
  · obtain rfl : n = 2 ^ 53 := Nat.le_antisymm h (Nat.le_of_not_lt hlt)
    refine ⟨twoTo 52, 1, by decide +kernel, ?_⟩
    have hexponent : ((1 : Int) + 1074).toNat = 1 + 1074 := rfl
    have hpower : 2 ^ 53 = twoTo 52 * twoTo 1 := rfl
    rw [hexponent, hpower, twoTo_add, ← Nat.mul_assoc, unitsPerOne]

/-- An integer lies where a double lies if its magnitude does. -/
theorem exists_ofInt?_of_parts {n : Int} {m : Nat} {q : Int}
    (hparts : parts (Float.ofScientific n.natAbs false 0) = .finite false m q)
    (hunits : m * twoTo (q + 1074).toNat = n.natAbs * unitsPerOne) :
    ∃ x, ofInt? n = some x ∧ place x = some (placeOfInt n) := by
  have hfinite : isFinite (Float.ofScientific n.natAbs false 0) = true := by
    unfold isFinite
    rw [hparts]
  unfold ofInt? placeOfInt
  dsimp only
  rw [if_pos hfinite]
  refine ⟨_, rfl, ?_⟩
  by_cases hnegative : n < 0
  · have hneg : parts (-Float.ofScientific n.natAbs false 0) = .finite true m q := by
      rw [parts_neg _ (by rw [hparts]; nofun), hparts]
      rfl
    have habs : n = -(n.natAbs : Int) := by omega
    rw [if_pos hnegative, place, hneg]
    show some (Place.units (-((m * twoTo (q + 1074).toNat : Nat) : Int))) = _
    rw [hunits, Int.natCast_mul, ← Int.neg_mul, ← habs]
  · have habs : n = (n.natAbs : Int) := by omega
    rw [if_neg hnegative, place, hparts]
    show some (Place.units ((m * twoTo (q + 1074).toNat : Nat) : Int)) = _
    rw [hunits, Int.natCast_mul, ← habs]

/-- Every integer between plus and minus `2^53` has a double, which lies where the integer lies. -/
theorem exists_ofInt?_exact {n : Int} (h : n.natAbs ≤ twoTo 53) :
    ∃ x, ofInt? n = some x ∧ place x = some (placeOfInt n) := by
  obtain ⟨m, q, hparts, hunits⟩ := parts_ofScientific_exact h
  exact exists_ofInt?_of_parts hparts hunits

/-! ## Larger integers -/

/-- The double of a full mantissa with zeros behind it has that mantissa. -/
theorem parts_ofScientific_shifted {c j : Nat} (hc : c.log2 = 52) (hj : j ≤ 971)
    (hlarge : 2 ^ 53 ≤ c * 2 ^ j) :
    parts (Float.ofScientific (c * 2 ^ j) false 0) = .finite false c j := by
  have hzero : c * 2 ^ j ≠ 0 := by omega
  have hshifted : c * 2 ^ j * 2 ^ 53 = c * 2 ^ (j + 53) := by rw [Nat.mul_assoc, ← Nat.pow_add]
  have hexponent : (-53 : Int) + (j + 53 : Nat) = j := by omega
  have hround := roundWithAccuracy_exact hc .positive (j + 53)
    (show -1074 ≤ (-53 : Int) + (j + 53 : Nat) by omega)
  rw [finite_congr _ rfl hexponent _ (pos_of_log2 hc)] at hround
  unfold Float.ofScientific
  rw [dif_neg (by omega), parts_eq]
  show partsOf (Float.Model.pack (UnpackedFloat.ofScientific Format.binary64 (c * 2 ^ j)
    (Int.ofNat 0))).unpack = _
  rw [ofScientific_eq_round hzero, hshifted, hround, unpack_pack_exact hc _ (by omega) (by omega)]
  rfl

/-- A large integer that is a mantissa with zeros behind it is a full mantissa with zeros behind
it. -/
theorem exists_full_mantissa {n m k u : Nat} (hn : 2 ^ 53 ≤ n) (hm : m < 2 ^ 53)
    (h : m * twoTo k = n * twoTo u) :
    ∃ c j, c.log2 = 52 ∧ n = c * 2 ^ j ∧ j + u ≤ k := by
  have hdigits : u ≤ k := by
    by_contra hless
    have hle : n * twoTo u ≤ m * twoTo u := h ▸ Nat.mul_le_mul_left m (twoTo_le (by omega))
    have := Nat.le_of_mul_le_mul_right hle (twoTo_pos u)
    omega
  obtain ⟨d, rfl⟩ := Nat.exists_eq_add_of_le' hdigits
  have hzeros : n = m * 2 ^ d := by
    rw [twoTo_add, ← Nat.mul_assoc] at h
    exact (Nat.eq_of_mul_eq_mul_right (twoTo_pos u) h).symm
  have hmzero : m ≠ 0 := by
    rintro rfl
    omega
  have hlog : 53 ≤ m.log2 + d := by
    rw [← log2_mul_twoTo hmzero, ← hzeros]
    exact le_log2_of_le hn
  refine ⟨m * 2 ^ (52 - m.log2), d - (52 - m.log2), log2_filled hmzero hm, ?_, by omega⟩
  have hsplit : 52 - m.log2 + (d - (52 - m.log2)) = d := by omega
  rw [hzeros, Nat.mul_assoc, ← Nat.pow_add, hsplit]

/-- An integer at whose place a double lies has a double that lies there. -/
theorem exists_ofInt?_of_place {x : Float} {n : Int} (h : place x = some (placeOfInt n)) :
    ∃ y, ofInt? n = some y ∧ place y = some (placeOfInt n) := by
  rcases Nat.lt_or_ge (twoTo 53) n.natAbs with hlarge | hsmall
  · unfold place at h
    cases hparts : parts x with
    | nan => rw [hparts] at h; cases h
    | infinite negative => rw [hparts] at h; cases negative <;> cases h
    | finite negative m q =>
      rw [hparts] at h
      obtain ⟨hm, hq⟩ := parts_finite_le hparts
      have hunits : m * twoTo (q + 1074).toNat = n.natAbs * unitsPerOne := by
        have habs := congrArg Int.natAbs (Place.units.inj (Option.some.inj h))
        rw [natAbs_signed, Int.natAbs_mul, Int.natAbs_natCast] at habs
        exact habs
      have hbound : m < 2 ^ 53 := Nat.lt_of_le_of_lt hm (by decide)
      obtain ⟨c, j, hc, hn, hj⟩ := exists_full_mantissa (Nat.le_of_lt hlarge) hbound hunits
      have hfull := parts_ofScientific_shifted hc (by omega) (hn ▸ Nat.le_of_lt hlarge)
      rw [← hn] at hfull
      refine exists_ofInt?_of_parts hfull ?_
      have hexponent : ((j : Int) + 1074).toNat = j + 1074 := by omega
      rw [hexponent, twoTo_add, ← Nat.mul_assoc, ← unitsPerOne, hn]
      rfl
  · exact exists_ofInt?_exact hsmall

/-! ## Doubles that are integers -/

/-- Different integers lie at different places. -/
theorem placeOfInt_inj {m n : Int} : placeOfInt m = placeOfInt n ↔ m = n := by
  have hunits : (unitsPerOne : Int) ≠ 0 := Int.natCast_ne_zero.mpr (Nat.ne_of_gt (twoTo_pos 1074))
  refine ⟨fun h => ?_, fun h => h ▸ rfl⟩
  exact Int.eq_of_mul_eq_mul_right hunits (Place.units.inj h)

/-- The exponent of a finite double is not below that of the smallest ones. -/
theorem parts_finite_ge {x : Float} {negative : Bool} {m : Nat} {q : Int}
    (h : parts x = .finite negative m q) : -1074 ≤ q := by
  unfold parts at h
  dsimp only at h
  split at h
  · split at h <;> cases h
  · split at h
    · obtain ⟨-, -, rfl⟩ := Parts.finite.inj h
      exact Int.le_refl _
    · obtain ⟨-, -, rfl⟩ := Parts.finite.inj h
      omega

/-- A factor can be taken out from under a sign. -/
theorem signed_mul (negative : Bool) (m n : Nat) :
    signed negative (m * n) = signed negative m * n := by
  cases negative with
  | true =>
    show -((m * n : Nat) : Int) = -(m : Int) * n
    rw [Int.natCast_mul, Int.neg_mul]
  | false => exact Int.natCast_mul m n

/-- A double is an integer exactly if it lies where the integer lies. -/
theorem whole?_eq_some_iff {x : Float} {n : Int} :
    whole? x = some n ↔ place x = some (placeOfInt n) := by
  unfold whole? place placeOfInt
  cases hparts : parts x with
  | nan => exact ⟨nofun, nofun⟩
  | infinite negative => cases negative <;> exact ⟨nofun, nofun⟩
  | finite negative m q =>
    have hlow := parts_finite_ge hparts
    have hunits : (unitsPerOne : Int) ≠ 0 := Int.natCast_ne_zero.mpr (Nat.ne_of_gt (twoTo_pos 1074))
    simp only [Option.some.injEq, Place.units.injEq]
    by_cases hq : 0 ≤ q
    · have hsplit : (q + 1074).toNat = q.toNat + 1074 := by omega
      rw [if_pos hq, hsplit, twoTo_add, ← Nat.mul_assoc, signed_mul negative (m * twoTo q.toNat), ←
        unitsPerOne, Int.mul_eq_mul_right_iff hunits, Option.some.injEq]
    · -- Below the point there are `d` digits, which must all be zero.
      obtain ⟨d, hd⟩ : ∃ d, (-q).toNat = d := ⟨_, rfl⟩
      obtain ⟨k, hk⟩ : ∃ k, (q + 1074).toNat = k := ⟨_, rfl⟩
      have hone : unitsPerOne = twoTo d * twoTo k := by
        rw [← twoTo_add, unitsPerOne]
        congr 1
        omega
      have hpositive : ∀ j, (twoTo j : Int) ≠ 0 :=
        fun j => Int.natCast_ne_zero.mpr (Nat.ne_of_gt (twoTo_pos j))
      rw [if_neg hq, hd, hk, hone, Int.natCast_mul, ← Int.mul_assoc, signed_mul negative m,
        Int.mul_eq_mul_right_iff (hpositive k)]
      by_cases hmod : m % twoTo d = 0
      · have hm : m / twoTo d * twoTo d = m := Nat.div_mul_cancel (Nat.dvd_of_mod_eq_zero hmod)
        rw [if_pos hmod, Option.some.injEq, ← Int.mul_eq_mul_right_iff (hpositive d),
          ← signed_mul, hm]
      · rw [if_neg hmod]
        refine ⟨nofun, fun h => absurd ?_ hmod⟩
        have habs := congrArg Int.natAbs h
        rw [natAbs_signed, Int.natAbs_mul, Int.natAbs_natCast] at habs
        rw [habs]
        exact Nat.mul_mod_left _ _

end Formulary.Number
