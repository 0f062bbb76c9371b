import Formulary.Proofs.Double
import Mathlib.Algebra.Order.Ring.Int

/-!
# The range of the numbers

Every finite double that is whole lies between plus and minus `largest`, the largest double
(`natAbs_whole?_le`), and every integer in between has a double.  So have some integers beyond,
which are rounded to `largest`: all up to `overflow`, half a step behind it (`ofInt?_eq_none_iff`).
This is a fact about rounding: it divides by a power of two and adds at most one, so the exponent of
the result is known up to one, and next to the largest double exactly.
-/

set_option autoImplicit false

namespace Formulary.Number

open Float.Model
open Float.Model.UnpackedFloat

/-- The largest finite double. -/
def largest : Nat := (twoTo 53 - 1) * twoTo 971

/-- The least natural number that no double is near: it lies half-way between the largest double and
the power of two behind it. -/
def overflow : Nat := (twoTo 54 - 1) * twoTo 970

/-! ## Whole numbers -/

/-- The mantissa and the exponent of a finite double are bounded. -/
theorem parts_finite_le {x : Float} {negative : Bool} {m : Nat} {q : Int}
    (h : parts x = .finite negative m q) : m ≤ twoTo 53 - 1 ∧ q ≤ 971 := by
  unfold parts at h
  dsimp only at h
  have hfraction : x.toBits.toNat % twoTo 52 < 2 ^ 52 := Nat.mod_lt _ (Nat.two_pow_pos 52)
  have hexponent : x.toBits.toNat / twoTo 52 % twoTo 11 < 2 ^ 11 :=
    Nat.mod_lt _ (Nat.two_pow_pos 11)
  have hunit : twoTo 52 = 2 ^ 52 := rfl
  have hlimit : twoTo 53 = 2 ^ 53 := rfl
  split at h
  · split at h <;> cases h
  · split at h
    · obtain ⟨-, rfl, rfl⟩ := Parts.finite.inj h
      omega
    · obtain ⟨-, rfl, rfl⟩ := Parts.finite.inj h
      omega

/-- A power of two is positive. -/
theorem twoTo_pos (n : Nat) : 0 < twoTo n :=
  Nat.two_pow_pos n

/-- Powers of two are in the order of their exponents. -/
theorem twoTo_le {m n : Nat} (h : m ≤ n) : twoTo m ≤ twoTo n :=
  Nat.pow_le_pow_right (by decide) h

/-- The power of two of a sum is the product of the powers. -/
theorem twoTo_add (m n : Nat) : twoTo (m + n) = twoTo m * twoTo n :=
  Nat.pow_add 2 m n

/-- A sign does not change the amount. -/
theorem natAbs_signed (negative : Bool) (n : Nat) : (signed negative n).natAbs = n := by
  cases negative <;> simp [signed]

/-- A double that is whole is at most the largest one. -/
theorem natAbs_whole?_le {x : Float} {n : Int} (h : whole? x = some n) : n.natAbs ≤ largest := by
  unfold whole? at h
  cases hparts : parts x with
  | nan => rw [hparts] at h; cases h
  | infinite negative => rw [hparts] at h; cases h
  | finite negative m q =>
    obtain ⟨hm, hq⟩ := parts_finite_le hparts
    rw [hparts] at h
    dsimp only at h
    split at h
    · obtain rfl := Option.some.inj h
      rw [natAbs_signed]
      exact Nat.mul_le_mul hm (twoTo_le (by omega))
    · split at h
      · obtain rfl := Option.some.inj h
        rw [natAbs_signed]
        calc m / twoTo (-q).toNat
          _ ≤ m := Nat.div_le_self _ _
          _ ≤ twoTo 53 - 1 := hm
          _ ≤ largest := Nat.le_mul_of_pos_right _ (twoTo_pos 971)
      · cases h

/-! ## Rounding -/

/-- Shifting a mantissa to the right divides it by a power of two. -/
theorem mantissa_shiftRight (em : ExtendedMantissa) (k : Nat) :
    (em >>> k).mantissa = em.mantissa / 2 ^ k := by
  induction k with
  | zero => exact (Nat.div_one _).symm
  | succ k ih =>
    show (em >>> k).mantissa / 2 = _
    rw [ih, Nat.div_div_eq_div_mul, Nat.pow_succ]

/-- The digit that decides about rounding is the first one that is cut off. -/
theorem roundBit_shiftRight (em : ExtendedMantissa) (k : Nat) :
    (em >>> (k + 1)).roundBit = (em.mantissa / 2 ^ k % 2 != 0) := by
  show ((em >>> k).mantissa % 2 != 0) = _
  rw [mantissa_shiftRight]

/-- Rounding never makes a mantissa smaller. -/
theorem roundedMantissa_ge (em : ExtendedMantissa) : em.mantissa ≤ em.roundedMantissa := by
  obtain ⟨m, round, sticky⟩ := em
  cases round <;> cases sticky <;>
    simp only [ExtendedMantissa.roundedMantissa, ExtendedMantissa.accuracy,
      Accuracy.roundToNearestEven] <;>
    omega

/-- Rounding makes a mantissa larger by one at most. -/
theorem roundedMantissa_le (em : ExtendedMantissa) : em.roundedMantissa ≤ em.mantissa + 1 := by
  obtain ⟨m, round, sticky⟩ := em
  cases round <;> cases sticky <;>
    simp only [ExtendedMantissa.roundedMantissa, ExtendedMantissa.accuracy,
      Accuracy.roundToNearestEven] <;>
    omega

/-- Without a round bit, a mantissa is rounded to itself. -/
theorem roundedMantissa_of_not_roundBit {em : ExtendedMantissa} (h : em.roundBit = false) :
    em.roundedMantissa = em.mantissa := by
  obtain ⟨m, round, sticky⟩ := em
  obtain rfl : round = false := h
  cases sticky <;> rfl

/-- An odd mantissa is rounded up even if what is cut off is a half. -/
theorem roundedMantissa_of_odd {em : ExtendedMantissa} (hround : em.roundBit = true)
    (hodd : em.mantissa % 2 = 1) :
    em.roundedMantissa = em.mantissa + 1 := by
  obtain ⟨m, round, sticky⟩ := em
  obtain rfl : round = true := hround
  cases sticky with
  | false => exact congrArg (m + ·) hodd
  | true => rfl

/-- The exponent that rounding aims at. -/
def aim (m : Nat) (e : Int) : Int :=
  max (m.log2 + 1 + e - 53) (-1074)

/-- Shifting to the exponent that is aimed at divides the mantissa accordingly, and never lowers the
exponent. -/
theorem shiftToTargetExponent_eq (m : Nat) (e : Int) (accuracy : Accuracy) :
    (shiftToTargetExponent Format.binary64 m e accuracy).2 = max e (aim m e) ∧
    (shiftToTargetExponent Format.binary64 m e accuracy).1.mantissa =
      m / 2 ^ (aim m e - e).toNat := by
  have haim : Format.binary64.targetExponent (totalExponent m e) = aim m e := rfl
  unfold shiftToTargetExponent shiftToExponent
  rw [haim]
  refine ⟨by dsimp only; omega, ?_⟩
  dsimp only
  rw [mantissa_shiftRight]
  cases accuracy with
  | exact => rfl
  | inexact order => cases order <;> rfl

/-- A number below a power of two has a logarithm below its exponent. -/
theorem log2_le_of_lt {n k : Nat} (h : n < twoTo (k + 1)) : n.log2 ≤ k := by
  by_cases hn : n = 0
  · rw [hn, Nat.log2_zero]
    exact Nat.zero_le _
  · exact Nat.le_of_lt_succ ((Nat.log2_lt hn).mpr h)

/-- A number from a power of two on has a logarithm from its exponent on. -/
theorem le_log2_of_le {n k : Nat} (h : twoTo k ≤ n) : k ≤ n.log2 :=
  (Nat.le_log2 (Nat.ne_of_gt (Nat.lt_of_lt_of_le (twoTo_pos k) h))).mpr h

/-- What is left of a mantissa fits. -/
theorem div_aim_lt (m : Nat) (e : Int) : m / 2 ^ (aim m e - e).toNat < 2 ^ 53 := by
  have hlog : m.log2 + 1 ≤ 53 + (aim m e - e).toNat := by
    unfold aim
    omega
  rw [Nat.div_lt_iff_lt_mul (Nat.two_pow_pos _), ← Nat.pow_add]
  exact Nat.lt_of_lt_of_le Nat.lt_log2_self (Nat.pow_le_pow_right (by decide) hlog)

/-- An unpacked double that is zero, or has a mantissa that fits and an exponent of at most a
bound. -/
def AtMost (bound : Int) : UnpackedFloat → Prop
  | .zero _ => True
  | .finite _ m e _ => m < 2 ^ 53 ∧ e ≤ bound
  | _ => False

/-- Rounding aims at an exponent and exceeds it by at most one; if the rounded mantissa stays below
its limit, it does not exceed it. -/
theorem atMost_round (sign : Sign) (m : Nat) (e : Int) (accuracy : Accuracy) {bound : Int}
    (h : max e (aim m e) + 1 ≤ bound ∨
      ((shiftToTargetExponent Format.binary64 m e accuracy).1.roundedMantissa < 2 ^ 53 ∧
        max e (aim m e) ≤ bound)) :
    AtMost bound (roundWithAccuracy Format.binary64 sign m e accuracy) := by
  unfold roundWithAccuracy
  obtain ⟨hexponent, hmantissa⟩ := shiftToTargetExponent_eq m e accuracy
  generalize shiftToTargetExponent Format.binary64 m e accuracy = first at h hexponent hmantissa
  have hrounded := roundedMantissa_le first.1
  have hfits := div_aim_lt m e
  obtain ⟨hfinal, hlast⟩ := shiftToTargetExponent_eq first.1.roundedMantissa first.2 .exact
  have hfits' := div_aim_lt first.1.roundedMantissa first.2
  dsimp only
  generalize shiftToTargetExponent Format.binary64 first.1.roundedMantissa first.2 .exact = last
    at hfinal hlast
  by_cases hzero : last.1.mantissa = 0
  · rw [dif_pos hzero]
    trivial
  · rw [dif_neg hzero]
    refine ⟨hlast ▸ hfits', ?_⟩
    rw [hfinal, aim, hexponent]
    rw [hmantissa] at hrounded
    have hfloor : -1074 ≤ aim m e := by unfold aim; omega
    rcases h with h | ⟨hsmall, h⟩
    · have hlog : first.1.roundedMantissa.log2 ≤ 53 := by
        refine log2_le_of_lt ?_
        show first.1.roundedMantissa < 2 ^ 54
        omega
      omega
    · have hlog : first.1.roundedMantissa.log2 ≤ 52 := log2_le_of_lt hsmall
      omega

/-- An unpacked double with an exponent that is too large to be packed. -/
def Beyond : UnpackedFloat → Prop
  | .finite _ _ e _ => 971 < e
  | _ => False

/-- Rounding does not fall short of the exponent that it aims at, and exceeds it if the rounded
mantissa reaches its limit. -/
theorem beyond_round (sign : Sign) (m : Nat) (e : Int) (accuracy : Accuracy)
    (hzero : (shiftToTargetExponent Format.binary64 m e accuracy).1.roundedMantissa ≠ 0)
    (h : 971 < max e (aim m e) ∨
      (2 ^ 53 ≤ (shiftToTargetExponent Format.binary64 m e accuracy).1.roundedMantissa ∧
        971 ≤ max e (aim m e))) :
    Beyond (roundWithAccuracy Format.binary64 sign m e accuracy) := by
  unfold roundWithAccuracy
  obtain ⟨hexponent, -⟩ := shiftToTargetExponent_eq m e accuracy
  generalize shiftToTargetExponent Format.binary64 m e accuracy = first at hzero h hexponent
  obtain ⟨hfinal, hlast⟩ := shiftToTargetExponent_eq first.1.roundedMantissa first.2 .exact
  dsimp only
  generalize shiftToTargetExponent Format.binary64 first.1.roundedMantissa first.2 .exact = last
    at hfinal hlast
  -- The leading digit of the rounded mantissa is not cut off.
  have hleading : 0 < last.1.mantissa := by
    rw [hlast]
    apply Nat.div_pos _ (Nat.two_pow_pos _)
    refine Nat.le_trans (Nat.pow_le_pow_right (by decide) ?_) (Nat.log2_self_le hzero)
    unfold aim
    omega
  have haim : first.1.roundedMantissa.log2 + 1 + first.2 - 53 ≤
      aim first.1.roundedMantissa first.2 := by
    unfold aim
    omega
  rw [dif_neg (Nat.ne_of_gt hleading)]
  show 971 < last.2
  rcases h with h | ⟨hfull, h⟩
  · omega
  · have hlog : 53 ≤ first.1.roundedMantissa.log2 := le_log2_of_le hfull
    omega

/-! ## Packing -/

/-- Fields below the highest exponent make a double with an exponent of at most the bound. -/
theorem atMost_ofFields {bound : Int} (hlow : -1074 ≤ bound) (sign : Sign) {exponent : BitVec 11}
    (hspecial : exponent ≠ -1#_) (hexponent : (exponent.toNat : Int) - 1075 ≤ bound)
    (mantissa : BitVec 52) : AtMost bound (ofFields sign exponent mantissa) := by
  have hlt := mantissa.isLt
  unfold ofFields
  rw [if_neg hspecial]
  by_cases hsubnormal : exponent = 0#_
  · rw [if_pos hsubnormal]
    by_cases hfraction : mantissa = 0#_
    · rw [dif_pos hfraction]
      trivial
    · rw [dif_neg hfraction, hsubnormal]
      exact ⟨by omega, hlow⟩
  · rw [if_neg hsubnormal]
    refine ⟨?_, hexponent⟩
    have hunit : twoTo 52 = 2 ^ 52 := rfl
    rw [toNat_implicit]
    omega

/-- Packing keeps a double in range. -/
theorem atMost_pack {bound : Int} (hlow : -1074 ≤ bound) (hhigh : bound ≤ 971) {x : UnpackedFloat}
    (hx : AtMost bound x) : AtMost bound (Float.Model.pack x).unpack := by
  show AtMost bound (UnpackedFloat.unpack Format.binary64 (UnpackedFloat.pack Format.binary64 x))
  cases x with
  | notANumber => exact hx.elim
  | infinity sign => exact hx.elim
  | zero sign =>
    show AtMost bound
      (UnpackedFloat.unpack Format.binary64 (packComponents Format.binary64 sign 0#11 0#52))
    rw [unpack_packComponents]
    exact atMost_ofFields hlow sign (by decide) (Int.le_trans (by decide) hlow) _
  | finite sign m e hm =>
    have he : e ≤ bound := hx.2
    have hbiased : (e + Format.binary64.exponentBias +
        Format.binary64.mantissaBitsWithoutImplicit).toNat = (e + 1075).toNat := by
      show (e + 1023 + 52).toNat = (e + 1075).toNat
      omega
    unfold UnpackedFloat.pack
    dsimp only
    rw [hbiased]
    rw [if_neg (by show ¬ 2048 ≤ (e + 1075).toNat + 1; omega)]
    split
    · rw [unpack_packComponents]
      have hvalue : (BitVec.ofNat 11 (e + 1075).toNat).toNat = (e + 1075).toNat := by
        rw [BitVec.toNat_ofNat]
        exact Nat.mod_eq_of_lt (by omega)
      refine atMost_ofFields hlow sign ?_ ?_ _
      · intro hspecial
        have hones : (BitVec.ofNat 11 (e + 1075).toNat).toNat = 2047 :=
          congrArg BitVec.toNat hspecial
        omega
      · rw [hvalue]
        omega
    · rw [unpack_packComponents]
      exact atMost_ofFields hlow sign (by decide) (Int.le_trans (by decide) hlow) _

/-- A double whose exponent is in range is finite. -/
theorem isFinite_of_atMost {x : Float} (h : AtMost 971 x.toModel.unpack) :
    isFinite x = true := by
  rw [isFinite, parts_eq]
  cases hx : x.toModel.unpack with
  | zero sign => rfl
  | finite sign m e hm => rfl
  | infinity sign => rw [hx] at h; exact h.elim
  | notANumber => rw [hx] at h; exact h.elim

/-! ## Integers as doubles -/

/-- A factor that is a power of two adds its exponent to the logarithm. -/
theorem log2_mul_twoTo {n : Nat} (hn : n ≠ 0) (k : Nat) : (n * 2 ^ k).log2 = n.log2 + k := by
  have hpos := Nat.two_pow_pos k
  rw [Nat.log2_eq_iff (Nat.mul_ne_zero hn (Nat.ne_of_gt hpos)), Nat.add_right_comm, Nat.pow_add,
    Nat.pow_add]
  exact ⟨Nat.mul_le_mul_right _ (Nat.log2_self_le hn),
    Nat.mul_lt_mul_of_pos_right Nat.lt_log2_self hpos⟩

/-- An integer that has no more digits than a mantissa is only shifted. -/
theorem atMost_ofNat {n : Nat} (hn : n < 2 ^ 53) :
    AtMost 1 (UnpackedFloat.ofNat Format.binary64 n) := by
  have hlog : n.log2 ≤ 52 := log2_le_of_lt hn
  unfold UnpackedFloat.ofNat UnpackedFloat.ofInt UnpackedFloat.normalize
  split
  · rename_i hlt
    have hneg := Int.compare_eq_lt.mp hlt
    omega
  · trivial
  · rename_i hgt
    have hzero : n ≠ 0 := by
      have hpos := Int.compare_eq_gt.mp hgt
      omega
    rw [Int.toNat_natCast]
    unfold UnpackedFloat.round decreaseExponent
    dsimp only
    generalize (0 - Format.binary64.targetExponent (totalExponent n 0)).toNat = k
    apply atMost_round
    left
    rw [Nat.shiftLeft_eq, aim, log2_mul_twoTo hzero]
    omega

/-- The product of finite doubles is rounded once. -/
theorem mul_finite (spec : Format) (sign sign' : Sign) (m m' : Nat) (e e' : Int) (hm : 0 < m)
    (hm' : 0 < m') :
    UnpackedFloat.mul spec (.finite sign m e hm) (.finite sign' m' e' hm') =
      roundWithAccuracy spec (sign * sign') (m * m') (e + e') .exact :=
  rfl

/-- A double that is not large stays in range when it is multiplied by one. -/
theorem atMost_mul_one {x : UnpackedFloat} (hx : AtMost 1 x) (hpos : 0 < 2 ^ 52) :
    AtMost 971 (UnpackedFloat.mul Format.binary64 x (.finite .positive (2 ^ 52) (-52) hpos)) := by
  cases x with
  | notANumber => exact hx.elim
  | infinity sign => exact hx.elim
  | zero sign => trivial
  | finite sign m e hm =>
    obtain ⟨hfits, he⟩ := hx
    have hlog : m.log2 ≤ 52 := log2_le_of_lt hfits
    rw [mul_finite]
    apply atMost_round
    left
    rw [aim, log2_mul_twoTo (Nat.ne_of_gt hm)]
    omega

/-- The double of an integer that has no more digits than a mantissa is a product with one. -/
theorem isFinite_ofScientific_small {n : Nat} (hn : n < 2 ^ 53) :
    isFinite (Float.ofScientific n false 0) = true := by
  have htoNat : n.toUInt64.toNat = n := UInt64.toNat_ofNat_of_lt (Nat.lt_trans hn (by decide))
  have hwhole : AtMost 1 n.toUInt64.toFloat.toModel.unpack := by
    refine atMost_pack (by decide) (by decide) ?_
    show AtMost 1 (UnpackedFloat.ofNat Format.binary64 n.toUInt64.toNat)
    rw [htoNat]
    exact atMost_ofNat hn
  have hone : (Float.ofBits 0x3FF0000000000000).toModel.unpack =
      .finite .positive (2 ^ 52) (-52) (Nat.two_pow_pos 52) := rfl
  unfold Float.ofScientific
  rw [dif_pos ⟨hn, by decide⟩]
  refine isFinite_of_atMost (atMost_pack (x := UnpackedFloat.mul _ _ _) (by decide) (by decide) ?_)
  exact hone ▸ atMost_mul_one hwhole _

/-- The double of a natural number comes from rounding it with 53 digits behind the point. -/
theorem ofScientific_eq_round {n : Nat} (hn : n ≠ 0) :
    UnpackedFloat.ofScientific Format.binary64 n (Int.ofNat 0) =
      roundWithAccuracy Format.binary64 .positive (n * 2 ^ 53) (-53) .exact := by
  unfold UnpackedFloat.ofScientific
  rw [dif_neg hn, if_neg (by decide), if_neg (by show ¬ (0 : Int) < -(2 ^ 11 + n.log2); omega),
    if_pos (by decide), mul_finite, Nat.shiftLeft_eq]
  show roundWithAccuracy _ _ (n * 2 ^ 53 * 1) _ _ = _
  rw [Nat.mul_one]
  rfl

/-- A mantissa of 54 digits is rounded to 53 of them, unless all of its digits are ones. -/
theorem roundedMantissa_lt_iff {em : ExtendedMantissa} {t : Nat} (hmantissa : em.mantissa = t / 2)
    (hround : em.roundBit = (t % 2 != 0)) (ht : t < 2 ^ 54) :
    em.roundedMantissa < 2 ^ 53 ↔ t < 2 ^ 54 - 1 := by
  have hle := roundedMantissa_le em
  constructor
  · intro hlt
    by_contra hones
    have hup := @roundedMantissa_of_odd em (by rw [hround, bne_iff_ne]; omega) (by omega)
    omega
  · intro hlt
    by_cases hlast : t / 2 = 2 ^ 53 - 1
    · have hdown := @roundedMantissa_of_not_roundBit em (by rw [hround, bne_eq_false_iff_eq]; omega)
      omega
    · omega

/-- A natural number of a given length is rounded within the mantissa if and only if it is below the
half-way point between the largest mantissa and the power of two behind it. -/
theorem roundedMantissa_shiftRight {n a : Nat} (hn : n < twoTo (a + 54)) :
    (ExtendedMantissa.mk (n * 2 ^ 53) false false >>> (a + 54)).roundedMantissa < 2 ^ 53 ↔
      n < (twoTo 54 - 1) * twoTo a := by
  have hcancel : ∀ k, n * 2 ^ 53 / 2 ^ (k + 53) = n / 2 ^ k := by
    intro k
    rw [Nat.pow_add, Nat.mul_div_mul_right _ _ (Nat.two_pow_pos 53)]
  have hhalf : n / 2 ^ (a + 1) = n / 2 ^ a / 2 := by rw [Nat.div_div_eq_div_mul, Nat.pow_succ]
  have hmantissa := mantissa_shiftRight ⟨n * 2 ^ 53, false, false⟩ (a + 1 + 53)
  have hround := roundBit_shiftRight ⟨n * 2 ^ 53, false, false⟩ (a + 53)
  rw [hcancel, hhalf] at hmantissa
  rw [hcancel] at hround
  have hdigits : n / 2 ^ a < 2 ^ 54 := by
    rw [Nat.div_lt_iff_lt_mul (Nat.two_pow_pos a), ← Nat.pow_add, Nat.add_comm]
    exact hn
  rw [roundedMantissa_lt_iff hmantissa hround hdigits]
  exact Nat.div_lt_iff_lt_mul (Nat.two_pow_pos a)

/-- An integer of 1024 digits is cut down to 53 of them, and these are rounded to 54 exactly from
the limit on. -/
theorem roundedMantissa_large {n : Nat} (hlog : n.log2 = 1023) (hn : n ≠ 0) :
    (shiftToTargetExponent Format.binary64 (n * 2 ^ 53) (-53) .exact).1.roundedMantissa < 2 ^ 53 ↔
    n < overflow := by
  have haim : Format.binary64.targetExponent (totalExponent (n * 2 ^ 53) (-53)) = 971 := by
    show aim (n * 2 ^ 53) (-53) = 971
    rw [aim, log2_mul_twoTo hn, hlog]
    decide
  have hshift : (shiftToTargetExponent Format.binary64 (n * 2 ^ 53) (-53) .exact).1 =
      ExtendedMantissa.mk (n * 2 ^ 53) false false >>> (970 + 54) := by
    unfold shiftToTargetExponent shiftToExponent
    dsimp only
    rw [haim]
    rfl
  rw [hshift]
  apply roundedMantissa_shiftRight
  have hlt : n < twoTo (n.log2 + 1) := Nat.lt_log2_self
  rw [hlog] at hlt
  exact hlt

/-- The double of a larger integer is rounded. -/
theorem isFinite_ofScientific_large {n : Nat} (hn : 2 ^ 53 ≤ n) (hlt : n < overflow) :
    isFinite (Float.ofScientific n false 0) = true := by
  have hzero : n ≠ 0 := by omega
  have hlog : n.log2 ≤ 1023 := by
    have hoverflow : overflow ≤ twoTo (1023 + 1) := by
      rw [show 1023 + 1 = 54 + 970 from rfl, twoTo_add, overflow]
      exact Nat.mul_le_mul_right _ (Nat.sub_le _ _)
    exact log2_le_of_lt (Nat.lt_of_lt_of_le hlt hoverflow)
  have hlog' : (n * 2 ^ 53).log2 = n.log2 + 53 := log2_mul_twoTo hzero 53
  unfold Float.ofScientific
  rw [dif_neg (by omega)]
  refine isFinite_of_atMost (atMost_pack (by decide) (by decide) ?_)
  show AtMost 971 (UnpackedFloat.ofScientific Format.binary64 n (Int.ofNat 0))
  rw [ofScientific_eq_round hzero]
  apply atMost_round
  rcases Nat.lt_or_ge n.log2 1023 with hbelow | habove
  · left
    unfold aim
    omega
  · right
    refine ⟨(roundedMantissa_large (Nat.le_antisymm hlog habove) hzero).mpr hlt, ?_⟩
    unfold aim
    omega

/-- A double with an exponent that is too large is packed as an infinity. -/
theorem unpack_pack_beyond {x : UnpackedFloat} (h : Beyond x) :
    ∃ sign, (Float.Model.pack x).unpack = .infinity sign := by
  cases x with
  | finite sign m e hm =>
    have he : 971 < e := h
    refine ⟨sign, ?_⟩
    show UnpackedFloat.unpack Format.binary64 (UnpackedFloat.pack Format.binary64 _) = _
    unfold UnpackedFloat.pack
    dsimp only
    rw [if_pos (by show 2048 ≤ (e + 1023 + 52).toNat + 1; omega)]
    cases sign <;> rfl
  | _ => exact h.elim

/-- The double of an integer from the limit on is infinite. -/
theorem isFinite_ofScientific_overflow {n : Nat} (h : overflow ≤ n) :
    isFinite (Float.ofScientific n false 0) = false := by
  have hlarge : twoTo 1023 ≤ overflow := by
    rw [show 1023 = 53 + 970 from rfl, twoTo_add, overflow]
    exact Nat.mul_le_mul_right _ (by decide)
  have hlarge' : twoTo 1023 ≤ n := Nat.le_trans hlarge h
  have hmany : 2 ^ 53 ≤ n := Nat.le_trans (twoTo_le (show 53 ≤ 1023 by decide)) hlarge'
  have hzero : n ≠ 0 := by omega
  have hlog : 1023 ≤ n.log2 := le_log2_of_le hlarge'
  have hlog' : (n * 2 ^ 53).log2 = n.log2 + 53 := log2_mul_twoTo hzero 53
  have haim : aim (n * 2 ^ 53) (-53) = n.log2 - 52 := by
    unfold aim
    omega
  have hbeyond : Beyond (UnpackedFloat.ofScientific Format.binary64 n (Int.ofNat 0)) := by
    rw [ofScientific_eq_round hzero]
    apply beyond_round
    · have hmantissa := (shiftToTargetExponent_eq (n * 2 ^ 53) (-53) .exact).2
      have hge :=
        roundedMantissa_ge (shiftToTargetExponent Format.binary64 (n * 2 ^ 53) (-53) .exact).1
      have hpos : 0 < n * 2 ^ 53 / 2 ^ (aim (n * 2 ^ 53) (-53) - -53).toNat := by
        apply Nat.div_pos _ (Nat.two_pow_pos _)
        refine Nat.le_trans (Nat.pow_le_pow_right (by decide) ?_)
          (Nat.log2_self_le (Nat.mul_ne_zero hzero (by decide)))
        omega
      omega
    · -- The exponent is too large already, or it becomes so as rounding carries into it.
      rcases Nat.lt_or_ge 1023 n.log2 with habove | hlast
      · left
        omega
      · right
        refine ⟨Nat.le_of_not_lt fun hlt => ?_, by omega⟩
        have hbelow := (roundedMantissa_large (Nat.le_antisymm hlast hlog) hzero).mp hlt
        omega
  obtain ⟨sign, hunpack⟩ := unpack_pack_beyond hbeyond
  have hparts : parts (Float.ofScientific n false 0) = .infinite (isMinus sign) := by
    unfold Float.ofScientific
    rw [dif_neg (by omega), parts_eq]
    show partsOf
      (Float.Model.pack (UnpackedFloat.ofScientific Format.binary64 n (Int.ofNat 0))).unpack = _
    rw [hunpack]
    rfl
  rw [isFinite, hparts]

/-- The integers that have no double are those from the limit on, in both directions. -/
theorem ofInt?_eq_none_iff (n : Int) : ofInt? n = none ↔ overflow ≤ n.natAbs := by
  unfold ofInt?
  dsimp only
  constructor
  · intro hnone
    by_contra hlt
    have hfinite : isFinite (Float.ofScientific n.natAbs false 0) = true := by
      rcases Nat.lt_or_ge n.natAbs (2 ^ 53) with hsmall | hlarge
      · exact isFinite_ofScientific_small hsmall
      · exact isFinite_ofScientific_large hlarge (Nat.lt_of_not_le hlt)
    rw [if_pos hfinite] at hnone
    cases hnone
  · intro hover
    rw [isFinite_ofScientific_overflow hover]
    rfl

/-- Every integer below the limit has a double. -/
theorem ofInt?_of_lt_overflow {n : Int} (h : n.natAbs < overflow) : ∃ x, ofInt? n = some x := by
  rw [← Option.ne_none_iff_exists']
  intro hnone
  exact absurd ((ofInt?_eq_none_iff n).mp hnone) (Nat.not_le.mpr h)

/-- The largest finite double is below the numbers that overflow. -/
theorem largest_lt_overflow : largest < overflow := by
  rw [largest, overflow, show 971 = 1 + 970 from rfl, twoTo_add, ← Nat.mul_assoc]
  exact Nat.mul_lt_mul_of_pos_right (by decide) (twoTo_pos 970)

/-- Every integer up to the largest double has a double. -/
theorem ofInt?_of_natAbs_le {n : Int} (h : n.natAbs ≤ largest) : ∃ x, ofInt? n = some x :=
  ofInt?_of_lt_overflow (Nat.lt_of_le_of_lt h largest_lt_overflow)

end Formulary.Number
