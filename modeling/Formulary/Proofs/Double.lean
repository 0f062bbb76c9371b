import Formulary.Number.Reading

/-!
# Doubles and their signs

A double is unpacked into a sign, a mantissa and an exponent.  `Number.parts` reads the same off its
bits (`parts_eq`), so that negation changes the sign and nothing else (`parts_neg`), and what a
decimal denotes is never negative and always a number (`nonnegative_ofDecimal`).
-/

set_option autoImplicit false

namespace Formulary.Number

open Float.Model
open Float.Model.UnpackedFloat

/-! ## Unpacking -/

/-- The sign that has been packed into a double is unpacked from it. -/
theorem unpackSign_packComponents {spec : Format} (sign : Sign)
    (exponent : BitVec spec.exponentBits) (mantissa : BitVec spec.mantissaBitsWithoutImplicit) :
    unpackSign (packComponents spec sign exponent mantissa) = sign.toBitVec := by
  apply BitVec.eq_of_getLsbD_eq
  intro i hi
  obtain rfl : i = 0 := by omega
  delta unpackSign
  simp [packComponents, BitVec.getLsbD_append, BitVec.getElem_append]

/-- A sign is the sign of its bit. -/
theorem ofBitVec_toBitVec (sign : Sign) : Sign.ofBitVec sign.toBitVec = sign := by
  cases sign <;> rfl

/-- The exponent of a double is in its eleven bits above the mantissa. -/
theorem toNat_unpackExponent (b : BitVec Format.binary64.numBits) :
    (unpackExponent b).toNat = b.toNat / twoTo 52 % twoTo 11 := by
  simp [unpackExponent, BitVec.extractLsb_toNat, Nat.shiftRight_eq_div_pow, twoTo]

/-- The mantissa of a double is in its lowest 52 bits. -/
theorem toNat_unpackMantissa (b : BitVec Format.binary64.numBits) :
    (unpackMantissa b).toNat = b.toNat % twoTo 52 := by
  simp [unpackMantissa, BitVec.extractLsb_toNat, twoTo]

/-- A double is negative if and only if its highest bit is set. -/
theorem ofBitVec_unpackSign (b : BitVec Format.binary64.numBits) :
    Sign.ofBitVec (unpackSign b) = if twoTo 63 ≤ b.toNat then .negative else .positive := by
  have hsign : (unpackSign b).toNat = b.toNat / twoTo 63 % 2 := by
    delta unpackSign
    simp [BitVec.extractLsb_toNat, Nat.shiftRight_eq_div_pow, twoTo]
  have hlt : b.toNat < 2 * twoTo 63 := b.isLt
  have hpos : 0 < twoTo 63 := by decide
  unfold Sign.ofBitVec
  by_cases hbits : twoTo 63 ≤ b.toNat
  · have hdiv : b.toNat / twoTo 63 = 1 := Nat.div_eq_of_lt_le (by omega) (by omega)
    have hne : unpackSign b ≠ 0#1 := by
      intro hzero
      rw [hzero, hdiv] at hsign
      simp at hsign
    simp [hne, hbits]
  · have hdiv : b.toNat / twoTo 63 = 0 := Nat.div_eq_of_lt (by omega)
    have heq : unpackSign b = 0#1 := by
      apply BitVec.eq_of_toNat_eq
      rw [hsign, hdiv]
      rfl
    simp [heq, hbits]

/-- Whether a sign is the negative one. -/
def isMinus : Sign → Bool
  | .negative => true
  | .positive => false

/-- What an unpacked double is, in the terms of this library. -/
def partsOf : UnpackedFloat → Parts
  | .notANumber => .nan
  | .infinity sign => .infinite (isMinus sign)
  | .zero sign => .finite (isMinus sign) 0 (-1074)
  | .finite sign mantissa exponent _ => .finite (isMinus sign) mantissa exponent

/-- The sign of a double is the negative one if and only if its highest bit is set. -/
theorem isMinus_unpackSign (b : BitVec Format.binary64.numBits) :
    isMinus (Sign.ofBitVec (unpackSign b)) = decide (twoTo 63 ≤ b.toNat) := by
  rw [ofBitVec_unpackSign]
  by_cases hbits : twoTo 63 ≤ b.toNat <;> simp [hbits, isMinus]

/-- The implicit leading bit adds 2 to the power of 52 to a mantissa. -/
theorem toNat_implicit (mantissa : BitVec 52) :
    (1#1 ++ mantissa).toNat = twoTo 52 + mantissa.toNat := by
  rw [BitVec.toNat_append, ← Nat.shiftLeft_add_eq_or_of_lt mantissa.isLt]
  rfl

/-- A mantissa with its implicit leading bit is positive. -/
theorem implicit_pos (mantissa : BitVec 52) : 0 < (1#1 ++ mantissa).toNat := by
  rw [toNat_implicit]
  exact Nat.add_pos_left (Nat.two_pow_pos 52) _

/-- The unpacked double whose fields are the given ones. -/
def ofFields (sign : Sign) (exponent : BitVec 11) (mantissa : BitVec 52) : UnpackedFloat :=
  if exponent = -1#_ then
    if mantissa = 0#_ then .infinity sign else .notANumber
  else if exponent = 0#_ then
    if h : mantissa = 0#_ then .zero sign
    else .finite sign mantissa.toNat ((exponent.toNat : Int) - 1075 + 1)
      (Nat.pos_of_ne_zero fun hzero => h (BitVec.eq_of_toNat_eq hzero))
  else .finite sign (1#1 ++ mantissa).toNat ((exponent.toNat : Int) - 1075)
    (implicit_pos mantissa)

/-- A double is unpacked to what its three fields stand for. -/
theorem unpack_eq (b : BitVec Format.binary64.numBits) : UnpackedFloat.unpack Format.binary64 b =
    ofFields (Sign.ofBitVec (unpackSign b)) (unpackExponent b) (unpackMantissa b) :=
  rfl

/-- The fields that have been packed into a double are unpacked from it. -/
theorem unpack_packComponents (sign : Sign) (exponent : BitVec 11) (mantissa : BitVec 52) :
    UnpackedFloat.unpack Format.binary64 (packComponents Format.binary64 sign exponent mantissa) =
      ofFields sign exponent mantissa := by
  rw [unpack_eq, unpackSign_packComponents, ofBitVec_toBitVec, unpackExponent_packComponents,
    unpackMantissa_packComponents]

/-- What a double is, by its fields: an infinity or no number at the highest exponent, a subnormal
number at the lowest one, and a number with the implicit leading bit in between. -/
theorem partsOf_ofFields (sign : Sign) (exponent : BitVec 11) (mantissa : BitVec 52) :
    partsOf (ofFields sign exponent mantissa) =
      if exponent.toNat = 2047 then
        if mantissa.toNat = 0 then .infinite (isMinus sign) else .nan
      else if exponent.toNat = 0 then .finite (isMinus sign) mantissa.toNat (-1074)
      else .finite (isMinus sign) (twoTo 52 + mantissa.toNat) ((exponent.toNat : Int) - 1075) := by
  have hones : exponent = -1#_ ↔ exponent.toNat = 2047 := BitVec.toNat_inj.symm
  have hzero : exponent = 0#_ ↔ exponent.toNat = 0 := BitVec.toNat_inj.symm
  have hempty : mantissa = 0#_ ↔ mantissa.toNat = 0 := BitVec.toNat_inj.symm
  unfold ofFields
  by_cases hspecial : exponent.toNat = 2047
  · rw [if_pos hspecial, if_pos (hones.mpr hspecial)]
    by_cases hfraction : mantissa.toNat = 0
    · rw [if_pos hfraction, if_pos (hempty.mpr hfraction)]
      rfl
    · rw [if_neg hfraction, if_neg (mt hempty.mp hfraction)]
      rfl
  · rw [if_neg hspecial, if_neg (mt hones.mp hspecial)]
    by_cases hsubnormal : exponent.toNat = 0
    · rw [if_pos hsubnormal, if_pos (hzero.mpr hsubnormal)]
      by_cases hfraction : mantissa.toNat = 0
      · rw [dif_pos (hempty.mpr hfraction), hfraction]
        rfl
      · rw [dif_neg (mt hempty.mp hfraction)]
        show Parts.finite (isMinus sign) mantissa.toNat ((exponent.toNat : Int) - 1075 + 1) = _
        rw [hsubnormal]
        rfl
    · rw [if_neg hsubnormal, if_neg (mt hzero.mp hsubnormal), ← toNat_implicit]
      rfl

/-- The parts of a double are read off its unpacked form. -/
theorem parts_eq (x : Float) : parts x = partsOf x.toModel.unpack := by
  let b : BitVec Format.binary64.numBits := x.toModel.toBits.toBitVec
  have hbits : x.toBits.toNat = b.toNat := rfl
  have hunpack : x.toModel.unpack =
      ofFields (Sign.ofBitVec (unpackSign b)) (unpackExponent b) (unpackMantissa b) := rfl
  rw [hunpack, partsOf_ofFields, toNat_unpackExponent, toNat_unpackMantissa, isMinus_unpackSign,
    ← hbits]
  rfl

/-! ## Negation -/

/-- A subnormal double is packed into its mantissa. -/
theorem pack_subnormal (sign : Sign) (mantissa : BitVec 52) (hpos : 0 < mantissa.toNat) :
    UnpackedFloat.pack Format.binary64 (.finite sign mantissa.toNat (-1074) hpos) =
      packComponents Format.binary64 sign 0#11 mantissa := by
  have hlog : mantissa.toNat.log2 < 52 := (Nat.log2_lt (Nat.ne_of_gt hpos)).mpr mantissa.isLt
  unfold UnpackedFloat.pack
  simp only
  rw [if_neg (by decide), if_neg]
  · rw [BitVec.ofNat_toNat, BitVec.setWidth_eq]
  · show ¬ mantissa.toNat.log2 + 1 = 53
    omega

/-- A normal double is packed into its exponent and its mantissa without the leading bit. -/
theorem pack_normal (sign : Sign) (exponent : BitVec 11) (mantissa : BitVec 52)
    (hexponent : exponent.toNat < 2047) (hpos : 0 < (1#1 ++ mantissa).toNat) :
    UnpackedFloat.pack Format.binary64
        (.finite sign (1#1 ++ mantissa).toNat ((exponent.toNat : Int) - 1075) hpos) =
      packComponents Format.binary64 sign exponent mantissa := by
  have himplicit : (1#1 ++ mantissa).toNat = 2 ^ 52 + mantissa.toNat := toNat_implicit mantissa
  have hlt := mantissa.isLt
  have hlog : (1#1 ++ mantissa).toNat.log2 = 52 := by
    rw [Nat.log2_eq_iff (Nat.ne_of_gt hpos), himplicit]
    omega
  have hbiased : ((exponent.toNat : Int) - 1075 + Format.binary64.exponentBias +
      Format.binary64.mantissaBitsWithoutImplicit).toNat = exponent.toNat := by
    show ((exponent.toNat : Int) - 1075 + 1023 + 52).toNat = exponent.toNat
    omega
  unfold UnpackedFloat.pack
  simp only [hbiased, hlog]
  rw [if_neg, if_pos (show 52 + 1 = Format.binary64.mantissaBits from rfl)]
  · rw [BitVec.ofNat_toNat, BitVec.setWidth_eq]
    congr 1
    apply BitVec.eq_of_toNat_eq
    rw [BitVec.toNat_ofNat, himplicit]
    show (2 ^ 52 + mantissa.toNat) % 2 ^ 52 = mantissa.toNat
    omega
  · show ¬ 2048 ≤ exponent.toNat + 1
    omega

/-- Packing puts the fields of a number back in their places. -/
theorem pack_ofFields (sign : Sign) (exponent : BitVec 11) (mantissa : BitVec 52)
    (hnan : ofFields sign exponent mantissa ≠ .notANumber) :
    UnpackedFloat.pack Format.binary64 (ofFields sign exponent mantissa) =
      packComponents Format.binary64 sign exponent mantissa := by
  unfold ofFields at hnan ⊢
  by_cases hspecial : exponent = -1#_
  · rw [if_pos hspecial] at hnan ⊢
    by_cases hfraction : mantissa = 0#_
    · rw [if_pos hfraction, hspecial, hfraction]
      rfl
    · rw [if_neg hfraction] at hnan
      exact absurd rfl hnan
  · rw [if_neg hspecial]
    by_cases hsubnormal : exponent = 0#_
    · rw [if_pos hsubnormal]
      by_cases hfraction : mantissa = 0#_
      · rw [dif_pos hfraction, hsubnormal, hfraction]
        rfl
      · rw [dif_neg hfraction, hsubnormal]
        exact pack_subnormal _ mantissa _
    · rw [if_neg hsubnormal]
      refine pack_normal _ exponent mantissa ?_ _
      have hlt := exponent.isLt
      have hne : exponent.toNat ≠ 2047 := fun h => hspecial (BitVec.eq_of_toNat_eq h)
      omega

/-- To negate an unpacked double is to negate its sign field. -/
theorem neg_ofFields (sign : Sign) (exponent : BitVec 11) (mantissa : BitVec 52) :
    (ofFields sign exponent mantissa).neg = ofFields (-sign) exponent mantissa := by
  unfold ofFields
  by_cases hspecial : exponent = -1#_
  · rw [if_pos hspecial, if_pos hspecial]
    by_cases hfraction : mantissa = 0#_
    · rw [if_pos hfraction, if_pos hfraction]
      rfl
    · rw [if_neg hfraction, if_neg hfraction]
      rfl
  · rw [if_neg hspecial, if_neg hspecial]
    by_cases hsubnormal : exponent = 0#_
    · rw [if_pos hsubnormal, if_pos hsubnormal]
      by_cases hfraction : mantissa = 0#_
      · rw [dif_pos hfraction, dif_pos hfraction]
        rfl
      · rw [dif_neg hfraction, dif_neg hfraction]
        rfl
    · rw [if_neg hsubnormal, if_neg hsubnormal]
      rfl

/-- Negation of a double that is a number negates what it is unpacked to. -/
theorem unpack_neg (x : Float) (hnan : x.toModel.unpack ≠ .notANumber) :
    (-x).toModel.unpack = x.toModel.unpack.neg := by
  have hneg : x.toModel.unpack.neg ≠ .notANumber := by
    cases hx : x.toModel.unpack with
    | notANumber => exact absurd hx hnan
    | _ => exact fun h => UnpackedFloat.noConfusion h
  have hfields : x.toModel.unpack.neg = ofFields _ _ _ :=
    (congrArg UnpackedFloat.neg (unpack_eq x.toModel.toBits.toBitVec)).trans (neg_ofFields _ _ _)
  rw [hfields] at hneg ⊢
  calc (-x).toModel.unpack
    _ = UnpackedFloat.unpack Format.binary64
        (UnpackedFloat.pack Format.binary64 x.toModel.unpack.neg) := rfl
    _ = _ := by rw [hfields, pack_ofFields _ _ _ hneg, unpack_packComponents]

/-- The parts of a number with the other sign. -/
def Parts.negated : Parts → Parts
  | .nan => .nan
  | .infinite negative => .infinite !negative
  | .finite negative mantissa exponent => .finite (!negative) mantissa exponent

/-- Negation changes the sign of a number and nothing else. -/
theorem parts_neg (x : Float) (h : parts x ≠ .nan) : parts (-x) = (parts x).negated := by
  have hnan : x.toModel.unpack ≠ .notANumber := by
    intro hunpack
    rw [parts_eq, hunpack] at h
    exact h rfl
  rw [parts_eq, parts_eq, unpack_neg x hnan]
  cases x.toModel.unpack with
  | notANumber => rfl
  | infinity sign => cases sign <;> rfl
  | zero sign => cases sign <;> rfl
  | finite sign _ _ _ => cases sign <;> rfl

/-! ## What decimals denote -/

/-- An unpacked double that is a number with the positive sign. -/
def Positive : UnpackedFloat → Prop
  | .notANumber => False
  | .infinity sign => sign = .positive
  | .zero sign => sign = .positive
  | .finite sign _ _ _ => sign = .positive

/-- A mantissa with an exponent and the positive sign is a number with the positive sign, also if
the mantissa is zero. -/
theorem positive_ofMantissa (mantissa : Nat) (exponent : Int) :
    Positive (if h : mantissa = 0 then .zero .positive
      else .finite .positive mantissa exponent (Nat.pos_of_ne_zero h)) := by
  by_cases h : mantissa = 0
  · rw [dif_pos h]
    rfl
  · rw [dif_neg h]
    rfl

/-- What is rounded with the positive sign keeps it. -/
theorem positive_round (spec : Format) (mantissa : Nat) (exponent : Int) (accuracy : Accuracy) :
    Positive (roundWithAccuracy spec .positive mantissa exponent accuracy) :=
  positive_ofMantissa _ _

/-- A product of a positive double and a positive finite one is positive. -/
theorem positive_mul (spec : Format) {x : UnpackedFloat} (hx : Positive x) (mantissa : Nat)
    (exponent : Int) (hpos : 0 < mantissa) :
    Positive (mul spec x (.finite .positive mantissa exponent hpos)) := by
  cases x with
  | notANumber => exact hx.elim
  | infinity sign | zero sign =>
    obtain rfl : sign = .positive := hx
    rfl
  | finite sign m e hm =>
    obtain rfl : sign = .positive := hx
    exact positive_round spec _ _ _

/-- The quotient of a number with the positive sign by a positive finite one has the positive
sign. -/
theorem positive_div (spec : Format) {x : UnpackedFloat} (hx : Positive x) (mantissa : Nat)
    (exponent : Int) (hpos : 0 < mantissa) :
    Positive (div spec x (.finite .positive mantissa exponent hpos)) := by
  cases x with
  | notANumber => exact hx.elim
  | infinity sign | zero sign =>
    obtain rfl : sign = .positive := hx
    rfl
  | finite sign m e hm =>
    obtain rfl : sign = .positive := hx
    exact positive_round spec _ _ _

/-- Fields with the positive sign that encode no NaN unpack to a positive double. -/
theorem positive_unpack {exponent : BitVec 11} {mantissa : BitVec 52}
    (hnumber : exponent = -1#_ → mantissa = 0#_) :
    Positive (UnpackedFloat.unpack Format.binary64
      (packComponents Format.binary64 .positive exponent mantissa)) := by
  rw [unpack_packComponents]
  unfold ofFields
  by_cases hspecial : exponent = -1#_
  · rw [if_pos hspecial, if_pos (hnumber hspecial)]
    rfl
  · rw [if_neg hspecial]
    by_cases hsubnormal : exponent = 0#_
    · rw [if_pos hsubnormal]
      by_cases hfraction : mantissa = 0#_
      · rw [dif_pos hfraction]
        rfl
      · rw [dif_neg hfraction]
        rfl
    · rw [if_neg hsubnormal]
      rfl

/-- Packing a positive double gives a positive one. -/
theorem positive_pack {x : UnpackedFloat} (hx : Positive x) :
    Positive (Float.Model.pack x).unpack := by
  show Positive (UnpackedFloat.unpack Format.binary64 (UnpackedFloat.pack Format.binary64 x))
  have hzero : (0#11) ≠ -1#_ := by decide
  cases x with
  | notANumber => exact hx.elim
  | infinity sign =>
    obtain rfl : sign = .positive := hx
    exact positive_unpack fun _ => rfl
  | zero sign =>
    obtain rfl : sign = .positive := hx
    exact positive_unpack fun _ => rfl
  | finite sign m e hm =>
    obtain rfl : sign = .positive := hx
    unfold UnpackedFloat.pack
    simp only
    generalize (e + Format.binary64.exponentBias +
      Format.binary64.mantissaBitsWithoutImplicit).toNat = biased
    split
    · exact positive_unpack fun _ => rfl
    · rename_i hsmall
      split
      · refine positive_unpack fun hspecial => ?_
        have htoNat := congrArg BitVec.toNat hspecial
        have hlt : biased + 1 < 2048 := Nat.lt_of_not_le hsmall
        have hvalue : biased % 2048 = 2047 := htoNat
        omega
      · exact positive_unpack fun hspecial => absurd hspecial hzero

/-- Whether an unpacked double is positive and finite. -/
def isPositiveFinite : UnpackedFloat → Bool
  | .finite .positive _ _ _ => true
  | _ => false

/-- A positive finite double has the positive sign, a positive mantissa and an exponent. -/
theorem isPositiveFinite_iff {x : UnpackedFloat} (h : isPositiveFinite x = true) :
    ∃ m e hm, x = .finite .positive m e hm := by
  cases x with
  | finite sign m e hm =>
    cases sign with
    | positive => exact ⟨m, e, hm, rfl⟩
    | negative => cases h
  | _ => cases h

/-- The powers of ten in the table are positive and finite. -/
theorem positive_powerOfTen (e : Fin 23) :
    isPositiveFinite (Float.exactlyRepresentablePowersOfTen[e]).toModel.unpack = true := by
  revert e
  decide +kernel

/-- A natural number is rounded to a double with the positive sign. -/
theorem positive_ofNat (spec : Format) (n : Nat) : Positive (UnpackedFloat.ofNat spec n) := by
  unfold UnpackedFloat.ofNat UnpackedFloat.ofInt UnpackedFloat.normalize
  split
  · rename_i hlt
    have hneg := Int.compare_eq_lt.mp hlt
    omega
  · rfl
  · exact positive_round spec _ _ _

/-- A decimal is rounded to an unpacked double with the positive sign. -/
theorem positive_unpackedOfScientific (spec : Format) (m : Nat) (e : Int) :
    Positive (UnpackedFloat.ofScientific spec m e) := by
  unfold UnpackedFloat.ofScientific
  by_cases hzero : m = 0
  · rw [dif_pos hzero]
    rfl
  · rw [dif_neg hzero]
    refine iteInduction (fun _ => rfl) fun _ => ?_
    refine iteInduction (fun _ => rfl) fun _ => ?_
    refine iteInduction (fun _ => ?_) fun _ => ?_
    · exact positive_mul spec (show Positive (.finite .positive _ _ _) from rfl) _ _ _
    · exact positive_div spec (show Positive (.finite .positive _ _ _) from rfl) _ _ _

/-- A decimal in scientific form denotes a positive double. -/
theorem positive_ofScientific (m : Nat) (s : Bool) (e : Nat) :
    Positive (Float.ofScientific m s e).toModel.unpack := by
  unfold Float.ofScientific
  split
  · rename_i h
    have hwhole : Positive m.toUInt64.toFloat.toModel.unpack := positive_pack (positive_ofNat _ _)
    obtain ⟨m', e', hm', hpower⟩ := isPositiveFinite_iff (positive_powerOfTen ⟨e, by omega⟩)
    simp only
    split
    · refine positive_pack (x := UnpackedFloat.div _ _ _) ?_
      exact hpower ▸ positive_div _ hwhole m' e' hm'
    · refine positive_pack (x := UnpackedFloat.mul _ _ _) ?_
      exact hpower ▸ positive_mul _ hwhole m' e' hm'
  · exact positive_pack (positive_unpackedOfScientific _ _ _)

/-- The double of a decimal is a number with the positive sign. -/
theorem positive_ofDecimal (digits : Nat) (scale : Int) :
    Positive (ofDecimal digits scale).toModel.unpack := by
  have hall := positive_ofScientific
  unfold ofDecimal
  -- The powers of ten must not be computed.
  generalize Float.ofScientific = convert at hall
  simp only
  split
  · exact hall ..
  split
  · exact hall ..
  split
  · exact hall ..
  split
  · exact hall ..
  · exact hall ..

/-- What a decimal denotes is a number, and it is not negative. -/
theorem nonnegative_ofDecimal (digits : Nat) (scale : Int) :
    isNegative (ofDecimal digits scale) = false ∧ isNaN (ofDecimal digits scale) = false := by
  have hpositive := positive_ofDecimal digits scale
  unfold isNegative isNaN
  rw [parts_eq]
  generalize (ofDecimal digits scale).toModel.unpack = x at hpositive
  cases x with
  | notANumber => exact hpositive.elim
  | infinity sign | zero sign | finite sign =>
    obtain rfl : sign = .positive := hpositive
    exact ⟨rfl, rfl⟩

end Formulary.Number
