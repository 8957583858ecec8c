/-
# The signs of machine numbers

A machine number is a sign, an exponent and a mantissa in one word, or *packed*, and
the operations work on numbers that are *unpacked*.  Three facts about this pair
are all that the texts of constants need:

* unpacking and packing a number, its sign replaced or not, changes the sign only;
* the product with one is the number itself, since its mantissa has only to be
  shifted back;
* what is computed from numbers without a sign by products, quotients and reading
  decimals has no sign.
-/

import Mathlib
import CircuitExpr.Double
import CircuitExpr.Proofs.LexerRuns

namespace CircuitExpr
namespace Double

open Float.Model (UnpackedFloat Format)
open Float.Model.UnpackedFloat

/-! ### Packing and unpacking -/

/-- The same number with another sign. -/
def withSign (s : Sign) : UnpackedFloat → UnpackedFloat
  | .notANumber => .notANumber
  | .infinity _ => .infinity s
  | .zero _ => .zero s
  | .finite _ m e h => .finite s m e h

/-- The sign bit of packed components is the sign. -/
theorem unpackSign_packComponents (s : Sign) (e : BitVec 11) (m : BitVec 52) :
    unpackSign (packComponents Format.binary64 s e m) = s.toBitVec := by
  have h : (s.toBitVec ++ e ++ m).getLsbD 63 = s.toBitVec.getLsbD 0 := by
    rw [BitVec.getLsbD_append, if_neg (by decide), BitVec.getLsbD_append, if_neg (by decide)]
  ext i hi
  obtain rfl : i = 0 := by omega
  simp only [unpackSign, Nat.reduceAdd, Nat.reduceSub, packComponents, BitVec.cast_eq,
    BitVec.getElem_extract, Nat.add_zero]
  exact h

/-- A sign is read back from its bit. -/
theorem ofBitVec_toBitVec (s : Sign) : Sign.ofBitVec s.toBitVec = s := by
  cases s <;> rfl

/-- Packing the components of a number with another sign gives the number with this sign. -/
theorem unpack_packComponents (s : Sign) (b : BitVec 64) :
    unpack Format.binary64
        (packComponents Format.binary64 s (unpackExponent b) (unpackMantissa b)) =
      withSign s (unpack Format.binary64 b) := by
  unfold unpack
  simp only [unpackMantissa_packComponents, unpackExponent_packComponents,
    unpackSign_packComponents, ofBitVec_toBitVec]
  split
  · split <;> rfl
  · split
    · split <;> rfl
    · rfl

/-- The leading bit of a normal mantissa adds `2 ^ 52`. -/
theorem toNat_one_append (v : BitVec 52) : (1#1 ++ v).toNat = 2 ^ 52 + v.toNat := by
  rw [BitVec.toNat_append, ← Nat.shiftLeft_add_eq_or_of_lt v.isLt]
  rfl

/-- A mantissa with its leading bit has 53 digits. -/
theorem log2_one_append (v : BitVec 52) : (1#1 ++ v).toNat.log2 = 52 := by
  have hm := toNat_one_append v
  have hlt : v.toNat < 2 ^ 52 := v.isLt
  rw [Nat.log2_eq_iff (by omega)]
  omega

/-- A number with the least exponent is packed without its leading bit. -/
theorem pack_subnormal (s : Sign) (v : BitVec 52) (hv : 0 < v.toNat) :
    pack Format.binary64 (.finite s v.toNat (-1074) hv) =
      packComponents Format.binary64 s 0#11 v := by
  have hlt : v.toNat < 2 ^ 52 := v.isLt
  have hlog : v.toNat.log2 < 52 := (Nat.log2_lt (Nat.ne_of_gt hv)).mpr hlt
  have hbits : ¬v.toNat.log2 + 1 = Format.binary64.mantissaBits := by
    rw [show Format.binary64.mantissaBits = 53 from rfl]
    omega
  have hexponent : ¬2 ^ 11 ≤
      ((-1074 : Int) + (Format.binary64.exponentBias : Nat) + (52 : Nat)).toNat + 1 := by
    decide
  simp only [pack]
  rw [if_neg hexponent, if_neg hbits, BitVec.ofNat_toNat, BitVec.setWidth_eq]

/-- Any other number loses its leading bit, and its exponent is shifted. -/
theorem pack_normal (s : Sign) (e : BitVec 11) (v : BitVec 52) (he : e.toNat < 2047)
    (h : 0 < (1#1 ++ v).toNat) :
    pack Format.binary64 (.finite s (1#1 ++ v).toNat ((e.toNat : Int) - 1075) h) =
      packComponents Format.binary64 s e v := by
  have hm := toNat_one_append v
  have hlt : v.toNat < 2 ^ 52 := v.isLt
  have hbits : (1#1 ++ v).toNat.log2 + 1 = Format.binary64.mantissaBits := by
    rw [log2_one_append]
    rfl
  have hbiased : (((e.toNat : Int) - 1075) + (Format.binary64.exponentBias : Nat) +
      (52 : Nat)).toNat = e.toNat := by
    rw [show Format.binary64.exponentBias = 1023 from rfl]
    omega
  have hexponent : ¬2 ^ 11 ≤ e.toNat + 1 := by omega
  have hmantissa : BitVec.ofNat 52 (1#1 ++ v).toNat = v := by
    apply BitVec.eq_of_toNat_eq
    rw [BitVec.toNat_ofNat, hm]
    omega
  simp only [pack]
  rw [hbiased, if_neg hexponent, if_pos hbits, hmantissa, BitVec.ofNat_toNat, BitVec.setWidth_eq]

/-- **Packing what was unpacked, with any sign, keeps exponent and mantissa.** -/
theorem pack_withSign (s : Sign) (b : BitVec 64)
    (h : unpack Format.binary64 b ≠ .notANumber) :
    pack Format.binary64 (withSign s (unpack Format.binary64 b)) =
      packComponents Format.binary64 s (unpackExponent b) (unpackMantissa b) := by
  unfold unpack at h ⊢
  simp only at h ⊢
  split at h
  · rename_i he
    split at h
    · rename_i hm
      rw [if_pos he, if_pos hm, he, hm]
      rfl
    · exact absurd rfl h
  · rename_i he
    rw [if_neg he]
    split
    · rename_i he0
      split
      · rename_i hm
        rw [he0, hm]
        rfl
      · rename_i hm
        rw [he0]
        exact pack_subnormal s _ _
    · have hlt : (@unpackExponent Format.binary64 b).toNat < 2047 := by
        have hb := (@unpackExponent Format.binary64 b).isLt
        have hne : (@unpackExponent Format.binary64 b).toNat ≠ 2047 :=
          fun h => he (BitVec.eq_of_toNat_eq h)
        have : 2 ^ Format.binary64.exponentBits = 2048 := rfl
        omega
      exact pack_normal s _ _ hlt _

/-- The sign that is written into the bits is that of the unpacked number. -/
theorem withSign_unpackSign (b : BitVec 64) :
    withSign (.ofBitVec (@unpackSign Format.binary64 b)) (unpack Format.binary64 b) =
      unpack Format.binary64 b := by
  unfold unpack
  simp only
  split
  · split <;> rfl
  · split
    · split <;> rfl
    · rfl

/-- The sign that is set last counts. -/
theorem withSign_withSign (s t : Sign) (u : UnpackedFloat) :
    withSign s (withSign t u) = withSign s u := by
  cases u <;> rfl

/-- A bit is read back from its sign. -/
theorem toBitVec_ofBitVec : ∀ v : BitVec 1, (Sign.ofBitVec v).toBitVec = v := by
  decide

/-- The bits of a number are those of its parts. -/
theorem packComponents_unpack (b : BitVec 64) :
    packComponents Format.binary64 (.ofBitVec (@unpackSign Format.binary64 b))
      (unpackExponent b) (unpackMantissa b) = b := by
  have hb : packComponents Format.binary64 (.ofBitVec (@unpackSign Format.binary64 b))
      (unpackExponent b) (unpackMantissa b) =
      (b.extractLsb 63 63 ++ b.extractLsb 62 52 ++ b.extractLsb 51 0 : BitVec (1 + 11 + 52)) := by
    rw [packComponents, toBitVec_ofBitVec]
    rfl
  refine hb.trans ?_
  apply BitVec.eq_of_getLsbD_eq
  intro i hi
  rw [BitVec.getLsbD_append, BitVec.getLsbD_append]
  split
  · simp [*]
  · split
    · have h : i - 52 ≤ 10 := by omega
      have h' : 52 + (i - 52) = i := by omega
      simp [h, h']
    · have h : i = 63 := by omega
      subst h
      simp

/-- **A number is unpacked and packed again without a loss.** -/
theorem pack_unpack (b : BitVec 64) (h : unpack Format.binary64 b ≠ .notANumber) :
    pack Format.binary64 (unpack Format.binary64 b) = b := by
  rw [← withSign_unpackSign b, pack_withSign _ b h, packComponents_unpack]

/-- A defined number is packed as it was unpacked. -/
theorem ofModel_pack_unpack (x : Float) (h : x.isNaN = false) :
    Float.ofModel (.pack x.toModel.unpack) = x := by
  obtain ⟨⟨bits, hvalid⟩⟩ := x
  have hne : unpack Format.binary64 bits.toBitVec ≠ .notANumber := by
    intro hnan
    have : UnpackedFloat.isNaN (unpack Format.binary64 bits.toBitVec) = false := h
    rw [hnan] at this
    cases this
  have hbits :
      UInt64.ofBitVec (pack Format.binary64 (unpack Format.binary64 bits.toBitVec)) = bits := by
    rw [pack_unpack _ hne]
  simp only [Float.Model.unpack, Float.Model.pack, hbits]

/-! ### The product with one -/

/-- The mantissa and exponent are those to which the format rounds. -/
structure Canonical (m : Nat) (e : Int) : Prop where
  /-- The number is not zero. -/
  pos : 0 < m
  /-- The exponent is the one the format asks for. -/
  target : Format.binary64.targetExponent (Float.Model.totalExponent m e) = e

/-- An unpacked number has the exponent that its mantissa asks for. -/
theorem canonical_of_unpack {b : BitVec 64} {s : Sign} {m : Nat} {e : Int} {h : 0 < m}
    (hb : unpack Format.binary64 b = .finite s m e h) : Canonical m e := by
  refine ⟨h, ?_⟩
  have htarget (t : Int) : Format.binary64.targetExponent t = max (t - 53) (-1074) := rfl
  rw [htarget, Float.Model.totalExponent]
  unfold unpack at hb
  simp only at hb
  split at hb
  · split at hb <;> cases hb
  · split at hb
    · rename_i he0
      split at hb
      · cases hb
      · rename_i hm
        injection hb with _ hm he
        have hexponent : e = -1074 := by
          rw [← he, he0]
          rfl
        have hlt : m < 2 ^ 52 := hm ▸ (@unpackMantissa Format.binary64 b).isLt
        have hlog := (Nat.log2_lt (Nat.ne_of_gt h)).mpr hlt
        omega
    · rename_i he0
      injection hb with _ hm he
      have hlog : m.log2 = 52 := hm ▸ log2_one_append _
      have hpos : (@unpackExponent Format.binary64 b).toNat ≠ 0 :=
        fun h => he0 (BitVec.eq_of_toNat_eq h)
      have hbias : (Format.binary64.exponentBias : Int) = 1023 := rfl
      have hbits : (Format.binary64.mantissaBitsWithoutImplicit : Int) = 52 := rfl
      omega

/-- Shifting an even mantissa by one loses nothing. -/
theorem shiftRightOne_double (m : Nat) :
    ExtendedMantissa.shiftRightOne ⟨2 * m, false, false⟩ = ⟨m, false, false⟩ := by
  simp [ExtendedMantissa.shiftRightOne]

/-- Shifting a multiple of a power of two by its exponent loses nothing. -/
theorem shiftRight_exact (m n : Nat) :
    (⟨m * 2 ^ n, false, false⟩ : ExtendedMantissa) >>> n = ⟨m, false, false⟩ := by
  show n.repeat _ _ = _
  induction n generalizing m with
  | zero => rw [Nat.pow_zero, Nat.mul_one, Nat.repeat]
  | succ n ih =>
    have hpow : m * 2 ^ (n + 1) = m * 2 * 2 ^ n := by
      rw [Nat.pow_succ, Nat.mul_comm (2 ^ n) 2, Nat.mul_assoc]
    rw [Nat.repeat, hpow, ih (m * 2), Nat.mul_comm m 2, shiftRightOne_double]

/-- A power of two as a factor adds its exponent to the number of digits. -/
theorem log2_mul_two_pow {m : Nat} (h : 0 < m) (n : Nat) : (m * 2 ^ n).log2 = m.log2 + n := by
  induction n with
  | zero => rw [Nat.pow_zero, Nat.mul_one, Nat.add_zero]
  | succ n ih =>
    have hpos : m * 2 ^ n ≠ 0 := Nat.ne_of_gt (Nat.mul_pos h (Nat.two_pow_pos n))
    rw [Nat.pow_succ, ← Nat.mul_assoc, Nat.mul_comm _ 2, Nat.log2_two_mul hpos, ih, Nat.add_assoc]

/-- A number with zeros after its mantissa is rounded to the number. -/
theorem roundWithAccuracy_exact {m : Nat} {e : Int} (h : Canonical m e) (s : Sign) (n : Nat) :
    roundWithAccuracy Format.binary64 s (m * 2 ^ n) (e - n) .exact = .finite s m e h.pos := by
  have hfirst : shiftToTargetExponent Format.binary64 (m * 2 ^ n) (e - n) .exact =
      (⟨m, false, false⟩, e) := by
    have htotal : Float.Model.totalExponent (m * 2 ^ n) (e - n) =
        Float.Model.totalExponent m e := by
      simp only [Float.Model.totalExponent, log2_mul_two_pow h.pos]
      omega
    have hn : (e - (e - (n : Int))).toNat = n := by omega
    simp only [shiftToTargetExponent, shiftToExponent, htotal, h.target, hn,
      ExtendedMantissa.ofMantissaAndAccuracy, shiftRight_exact, Int.sub_add_cancel]
  have hsecond : shiftToTargetExponent Format.binary64 m e .exact = (⟨m, false, false⟩, e) := by
    have hzero : (e - e).toNat = 0 := by omega
    have hshift := shiftRight_exact m 0
    rw [Nat.pow_zero, Nat.mul_one] at hshift
    simp only [shiftToTargetExponent, shiftToExponent, h.target, hzero,
      ExtendedMantissa.ofMantissaAndAccuracy, hshift]
    rw [Int.natCast_zero, Int.add_zero]
  unfold roundWithAccuracy
  simp only [hfirst, ExtendedMantissa.roundedMantissa, ExtendedMantissa.accuracy,
    Accuracy.roundToNearestEven, hsecond]
  rw [dif_neg (Nat.ne_of_gt h.pos)]

/-- One has the mantissa `2 ^ 52`. -/
theorem unpack_one : (1 : Float).toModel.unpack = .finite .positive (2 ^ 52) (-52) (by decide) := by
  rfl

/-- A positive factor keeps the sign. -/
theorem mul_positive (s : Sign) : s * .positive = s := by
  cases s <;> rfl

/-- **The product of a finite number with one is the number.** -/
theorem float_mul_one (x : Float) (hnan : x.isNaN = false) (hinf : x.isInf = false) :
    x * 1 = x := by
  have hmul : UnpackedFloat.mul Format.binary64 x.toModel.unpack (1 : Float).toModel.unpack =
      x.toModel.unpack := by
    rw [unpack_one]
    have hnan : UnpackedFloat.isNaN x.toModel.unpack = false := hnan
    have hinf : UnpackedFloat.isInf x.toModel.unpack = false := hinf
    cases hu : x.toModel.unpack with
    | notANumber =>
      rw [hu] at hnan
      cases hnan
    | infinity s =>
      rw [hu] at hinf
      cases hinf
    | zero s => simp only [UnpackedFloat.mul, mul_positive]
    | finite s m e h =>
      simp only [UnpackedFloat.mul, mul_positive]
      exact roundWithAccuracy_exact (canonical_of_unpack hu) s 52
  calc x * 1 = .ofModel (.pack (UnpackedFloat.mul Format.binary64 x.toModel.unpack
        (1 : Float).toModel.unpack)) := rfl
    _ = x := by rw [hmul, ofModel_pack_unpack x hnan]

/-! ### Numbers without a sign -/

/-- The sign of the number, if it has one, is positive. -/
def Positive (u : UnpackedFloat) : Prop := withSign .positive u = u

/-- The sign bit is not set. -/
def Unsigned (x : Float) : Prop := @unpackSign Format.binary64 x.toBits.toBitVec = 0#1

instance (x : Float) : Decidable (Unsigned x) := inferInstanceAs (Decidable (_ = _))

/-- What has no sign is positive when it is unpacked. -/
theorem Unsigned.unpack {x : Float} (h : Unsigned x) : Positive x.toModel.unpack := by
  have hsign := withSign_unpackSign x.toBits.toBitVec
  rw [h] at hsign
  exact hsign

/-- Packing a number with a sign writes this sign, whatever the number rounds to. -/
theorem exists_pack_withSign (s : Sign) (u : UnpackedFloat) (h : u ≠ .notANumber) :
    ∃ e m, pack Format.binary64 (withSign s u) = packComponents Format.binary64 s e m := by
  cases u with
  | notANumber => exact absurd rfl h
  | infinity => exact ⟨_, _, rfl⟩
  | zero => exact ⟨_, _, rfl⟩
  | finite _ m e hm =>
    simp only [withSign, pack]
    split
    · exact ⟨_, _, rfl⟩
    · split <;> exact ⟨_, _, rfl⟩

/-- A positive number has no sign when it is packed. -/
theorem unsigned_pack {u : UnpackedFloat} (h : Positive u) : Unsigned (.ofModel (.pack u)) := by
  have hpack : ∃ e m, pack Format.binary64 u = packComponents Format.binary64 .positive e m := by
    by_cases hnan : u = .notANumber
    · rw [hnan]
      exact ⟨_, _, rfl⟩
    · rw [← h]
      exact exists_pack_withSign .positive u hnan
  obtain ⟨e, m, hpack⟩ := hpack
  show unpackSign (pack Format.binary64 u) = 0#1
  rw [hpack, unpackSign_packComponents]
  rfl

/-- Rounding keeps the sign. -/
theorem positive_roundWithAccuracy (m : Nat) (e : Int) (a : Accuracy) :
    Positive (roundWithAccuracy Format.binary64 .positive m e a) := by
  unfold roundWithAccuracy
  simp only
  split <;> rfl

/-- The product of positive numbers is positive. -/
theorem Positive.mul {u v : UnpackedFloat} (hu : Positive u) (hv : Positive v) :
    Positive (UnpackedFloat.mul Format.binary64 u v) := by
  unfold Positive at hu hv
  rw [← hu, ← hv]
  cases u <;> cases v <;> first | rfl | exact positive_roundWithAccuracy _ _ _

/-- The quotient of positive numbers is positive. -/
theorem Positive.div {u v : UnpackedFloat} (hu : Positive u) (hv : Positive v) :
    Positive (UnpackedFloat.div Format.binary64 u v) := by
  unfold Positive at hu hv
  rw [← hu, ← hv]
  cases u <;> cases v <;> first | rfl | exact positive_roundWithAccuracy _ _ _

/-- The product of numbers without a sign has none. -/
theorem Unsigned.mul {x y : Float} (hx : Unsigned x) (hy : Unsigned y) : Unsigned (x * y) :=
  unsigned_pack (hx.unpack.mul hy.unpack)

/-- The quotient of numbers without a sign has none. -/
theorem Unsigned.div {x y : Float} (hx : Unsigned x) (hy : Unsigned y) : Unsigned (x / y) :=
  unsigned_pack (hx.unpack.div hy.unpack)

/-- A natural number has no sign. -/
theorem unsigned_ofUInt64 (n : UInt64) : Unsigned n.toFloat := by
  refine unsigned_pack ?_
  unfold UnpackedFloat.ofUInt64 UnpackedFloat.ofNat UnpackedFloat.ofInt UnpackedFloat.normalize
  split
  · rename_i h
    have := Int.compare_eq_lt.mp h
    omega
  · rfl
  · exact positive_roundWithAccuracy _ _ _

/-- The powers of ten that are exact have no sign. -/
theorem unsigned_powersOfTen : ∀ i : Fin 23,
    Unsigned (Float.exactlyRepresentablePowersOfTen[i]) := by
  decide

/-- A decimal number is positive. -/
theorem positive_ofScientific (m : Nat) (e : Int) :
    Positive (UnpackedFloat.ofScientific Format.binary64 m e) := by
  unfold UnpackedFloat.ofScientific
  split
  · rfl
  · split
    · rfl
    · split
      · rfl
      · split
        · exact Positive.mul rfl rfl
        · exact Positive.div rfl rfl

/-- A decimal number is read without a sign. -/
theorem unsigned_ofScientific (m : Nat) (s : Bool) (e : Nat) :
    Unsigned (Float.ofScientific m s e) := by
  unfold Float.ofScientific
  split
  · rename_i h
    have hpower := unsigned_powersOfTen ⟨e, Nat.lt_succ_of_le h.2⟩
    simp only
    split
    · exact (unsigned_ofUInt64 _).div hpower
    · exact (unsigned_ofUInt64 _).mul hpower
  · exact unsigned_pack (positive_ofScientific _ _)

/-! ### Numbers that are defined -/

/-- The unpacked number is finite and not zero. -/
def Regular : UnpackedFloat → Bool
  | .finite .. => true
  | _ => false

/-- Packed components are a number unless the exponent is full and the mantissa is not zero. -/
theorem isNaN_packComponents {s : Sign} {e : BitVec 11} {m : BitVec 52}
    (h : e ≠ -1#11 ∨ m = 0#52) :
    (unpack Format.binary64 (packComponents Format.binary64 s e m)).isNaN = false := by
  unfold unpack
  simp only [unpackMantissa_packComponents, unpackExponent_packComponents]
  split
  · rename_i he
    rw [if_pos (h.resolve_left (absurd he))]
    rfl
  · split
    · split <;> rfl
    · rfl

/-- Packing a number gives a number. -/
theorem isNaN_pack {u : UnpackedFloat} (h : u.isNaN = false) :
    (Float.ofModel (.pack u)).isNaN = false := by
  show UnpackedFloat.isNaN (unpack Format.binary64 (pack Format.binary64 u)) = false
  cases u with
  | notANumber => cases h
  | infinity s => exact isNaN_packComponents (.inr rfl)
  | zero s => exact isNaN_packComponents (.inr rfl)
  | finite s m e hm =>
    simp only [pack]
    split
    · exact isNaN_packComponents (.inr rfl)
    · rename_i hlt
      split
      · refine isNaN_packComponents (.inl fun he => ?_)
        have := congrArg BitVec.toNat he
        rw [BitVec.toNat_ofNat, Nat.mod_eq_of_lt (by omega)] at this
        have hmax : (-1#11).toNat = 2047 := rfl
        have hpow : 2 ^ Format.binary64.exponentBits = 2048 := rfl
        omega
      · exact isNaN_packComponents (.inl (by decide))

/-- Rounding yields a number. -/
theorem isNaN_roundWithAccuracy (s : Sign) (m : Nat) (e : Int) (a : Accuracy) :
    (roundWithAccuracy Format.binary64 s m e a).isNaN = false := by
  unfold roundWithAccuracy
  simp only
  split <;> rfl

/-- The product of a number with a regular one is a number. -/
theorem isNaN_mul {u v : UnpackedFloat} (hu : u.isNaN = false) (hv : Regular v = true) :
    (UnpackedFloat.mul Format.binary64 u v).isNaN = false := by
  cases v with
  | finite => cases u <;> first | exact hu | rfl | exact isNaN_roundWithAccuracy _ _ _ _
  | _ => cases hv

/-- The quotient of a number by a regular one is a number. -/
theorem isNaN_div {u v : UnpackedFloat} (hu : u.isNaN = false) (hv : Regular v = true) :
    (UnpackedFloat.div Format.binary64 u v).isNaN = false := by
  cases v with
  | finite => cases u <;> first | exact hu | rfl | exact isNaN_roundWithAccuracy _ _ _ _
  | _ => cases hv

/-- The powers of ten that are exact are regular. -/
theorem regular_powersOfTen : ∀ i : Fin 23,
    Regular (Float.exactlyRepresentablePowersOfTen[i]).toModel.unpack = true := by
  decide

/-- A natural number is a number. -/
theorem isNaN_ofUInt64 (n : UInt64) : n.toFloat.isNaN = false := by
  refine isNaN_pack ?_
  unfold UnpackedFloat.ofUInt64 UnpackedFloat.ofNat UnpackedFloat.ofInt UnpackedFloat.normalize
  split
  · exact isNaN_roundWithAccuracy _ _ _ _
  · rfl
  · exact isNaN_roundWithAccuracy _ _ _ _

/-- A decimal number is a number. -/
theorem isNaN_unpacked_ofScientific (m : Nat) (e : Int) :
    (UnpackedFloat.ofScientific Format.binary64 m e).isNaN = false := by
  unfold UnpackedFloat.ofScientific
  split
  · rfl
  · split
    · rfl
    · split
      · rfl
      · split
        · exact isNaN_mul rfl rfl
        · exact isNaN_div rfl rfl

/-- A decimal number is read as a number. -/
theorem isNaN_ofScientific (m : Nat) (s : Bool) (e : Nat) :
    (Float.ofScientific m s e).isNaN = false := by
  unfold Float.ofScientific
  split
  · rename_i h
    have hpower := regular_powersOfTen ⟨e, Nat.lt_succ_of_le h.2⟩
    simp only
    split
    · exact isNaN_pack (isNaN_div (isNaN_ofUInt64 _) hpower)
    · exact isNaN_pack (isNaN_mul (isNaN_ofUInt64 _) hpower)
  · exact isNaN_pack (isNaN_unpacked_ofScientific _ _)

/-! ### Signs of numbers as constants -/

/-- The number is undefined or has no sign. -/
def NoSign (c : Double) : Prop := c.isNaN = true ∨ c.isNegative = false

/-- Whether the first bit is set says whether the sign is negative. -/
theorem isNegative_bits (b : UInt64) :
    (b >>> 63 == 1) = decide (@unpackSign Format.binary64 b.toBitVec = 1#1) := by
  have hsign : (@unpackSign Format.binary64 b.toBitVec).toNat = b.toNat / 2 ^ 63 := by
    have := b.toNat_lt
    simp [unpackSign, BitVec.extractLsb, Nat.shiftRight_eq_div_pow]
    omega
  have hshift : (b >>> 63).toNat = b.toNat / 2 ^ 63 := by
    simp [UInt64.toNat_shiftRight, Nat.shiftRight_eq_div_pow]
  rw [Bool.eq_iff_iff, beq_iff_eq, decide_eq_true_iff, ← UInt64.toNat_inj, ← BitVec.toNat_inj,
    hsign, hshift]
  rfl

/-- The sign of a defined result is its sign bit. -/
theorem isNegative_defined {x : Float} (h : x.isNaN = false) :
    (defined x h).isNegative = false ↔ Unsigned x := by
  have hbit : ∀ v : BitVec 1, decide (v = 1#1) = false ↔ v = 0#1 := by decide
  show (x.toBits >>> 63 == 1) = false ↔ _
  rw [isNegative_bits, hbit]
  rfl

/-- A number that is defined stays so as a constant. -/
theorem ofFloat_eq_defined {x : Float} (h : x.isNaN = false) : ofFloat x = defined x h := by
  unfold ofFloat
  split
  · rename_i hnan
    rw [h] at hnan
    cases hnan
  · rfl

/-- A number without a sign has none as a constant. -/
theorem noSign_ofFloat {x : Float} (h : Unsigned x) : NoSign (ofFloat x) := by
  unfold ofFloat
  split
  · exact .inl rfl
  · exact .inr ((isNegative_defined _).mpr h)

/-- A decimal number as a constant has no sign. -/
theorem noSign_ofDecimal (m : Nat) (e : Int) : NoSign (Scalar.ofDecimal m e : Double) :=
  noSign_ofFloat (unsigned_ofScientific _ _ _)

/-- The constant one has no sign. -/
theorem noSign_one : NoSign (1 : Double) := noSign_ofFloat (unsigned_ofScientific 1 false 0)

/-- The product of two constants without a sign has none. -/
theorem NoSign.mul {c d : Double} (hc : NoSign c) (hd : NoSign d) : NoSign (c * d) := by
  cases c with
  | undefined s => exact .inl rfl
  | defined x hx =>
    cases d with
    | undefined s => exact .inl rfl
    | defined y hy =>
      have hx' : Unsigned x := (isNegative_defined hx).mp (hc.resolve_left Bool.false_ne_true)
      have hy' : Unsigned y := (isNegative_defined hy).mp (hd.resolve_left Bool.false_ne_true)
      exact noSign_ofFloat (hx'.mul hy')

/-- The product of a finite constant with one is the constant. -/
theorem mul_one_of_finite {c : Double} (hnan : c.isNaN = false) (hinf : c.isInf = false) :
    c * 1 = c := by
  cases c with
  | undefined s => cases hnan
  | defined x hx =>
    have hone : (1 : Double) = defined 1 (by decide) := ofFloat_eq_defined _
    have hmul : Float.mul x 1 = x := float_mul_one x hx hinf
    rw [hone]
    show ofFloat (Float.mul x 1) = _
    rw [hmul, ofFloat_eq_defined hx]

/-! ### The value of a number in a text -/

/-- A decimal number as a constant is defined. -/
theorem isNaN_ofDecimal (m : Nat) (e : Int) : (Scalar.ofDecimal m e : Double).isNaN = false := by
  have h : (Scalar.ofDecimal m e : Double) =
      defined _ (isNaN_ofScientific m (decide (e < 0)) e.natAbs) :=
    ofFloat_eq_defined _
  rw [h]
  rfl

/-- The scale of a suffix is regular. -/
theorem regular_scale (suffix : List Char) :
    Regular (Suffix.scale suffix : Double).toFloat.toModel.unpack = true := by
  unfold Suffix.scale Suffix.scaleLower
  split <;> decide +kernel

/-- The scale of a suffix has no sign. -/
theorem noSign_scale (suffix : List Char) : NoSign (Suffix.scale suffix : Double) := by
  unfold Suffix.scale Suffix.scaleLower
  split <;> first | exact noSign_ofDecimal _ _ | exact noSign_one

/-- The product of a defined number with a regular one is defined. -/
theorem isNaN_mul_of_regular {c d : Double} (hc : c.isNaN = false)
    (hd : Regular d.toFloat.toModel.unpack = true) : (c * d).isNaN = false := by
  cases c with
  | undefined s => cases hc
  | defined x hx =>
    cases d with
    | undefined s =>
      have hs : ∀ s, Regular (undefined s).toFloat.toModel.unpack = false := by decide
      rw [hs] at hd
      cases hd
    | defined y hy =>
      have hxy : (Float.mul x y).isNaN = false := isNaN_pack (isNaN_mul hx hd)
      have h : defined x hx * defined y hy = defined _ hxy := ofFloat_eq_defined hxy
      rw [h]
      rfl

/-- **A number in a text is defined and has no sign.** -/
theorem numberValue?_eq_some {cs : List Char} {c : Double}
    (h : Lexer.numberValue? cs = some c) : c.isNaN = false ∧ c.isNegative = false := by
  simp only [Lexer.numberValue?, Lexer.mantissa?, Option.map_map, Option.map_eq_some_iff,
    Function.comp_apply] at h
  obtain ⟨d, -, rfl⟩ := h
  have hnan := isNaN_mul_of_regular (isNaN_ofDecimal d.significand d.exponent)
    (regular_scale (Lexer.splitNumber cs).suffix)
  have hsign := (noSign_ofDecimal d.significand d.exponent).mul
    (noSign_scale (Lexer.splitNumber cs).suffix)
  exact ⟨hnan, hsign.resolve_left (by simp [hnan])⟩

end Double
end CircuitExpr
