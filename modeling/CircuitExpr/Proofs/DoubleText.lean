/-
# The text of a constant

The text of a finite constant is a minus sign, if it has a sign, and then digits,
with or without a point and more digits: no exponent and no suffix.  So the lexer
reads it as a number, whose value is the one that its digits are read as.

That these digits are read as the constant again is taken as an assumption,
`ReadsBack`, where it is needed; everything else about the text is shown here.
-/

import Mathlib
import CircuitExpr.Double.Text
import CircuitExpr.Proofs.DoubleSigns
import CircuitExpr.Proofs.RoundTrip

namespace CircuitExpr

open Lexer

/-! ### Digits with a point -/

/-- Digits, at least one, and then nothing or a point with digits. -/
def IsPlainDecimal (cs : List Char) : Prop :=
  ∃ whole point, cs = whole ++ point ∧ whole ≠ [] ∧ (∀ c ∈ whole, c.isDigit = true) ∧ IsPoint point

/-- Digits with a point set by an exponent are plain. -/
theorem isPlainDecimal_positional {digits : List Char} (hne : digits ≠ [])
    (hdigits : ∀ c ∈ digits, c.isDigit = true) (exponent : Int) :
    IsPlainDecimal (Decimal.positional "" digits exponent).toList := by
  have hzeros (n : Nat) (c : Char) (hc : c ∈ Decimal.zeros n) : c.isDigit = true := by
    rw [(List.mem_replicate.mp hc).2]
    decide
  unfold Decimal.positional
  split
  · refine ⟨digits ++ Decimal.zeros exponent.toNat, [], ?_, ?_, ?_, .nil⟩
    · simp
    · simp [hne]
    · intro c hc
      rcases List.mem_append.mp hc with hc | hc
      · exact hdigits c hc
      · exact hzeros _ c hc
  · -- zeros in front are enough for a digit before the point
    simp only
    generalize hplaces : (-exponent).toNat = places
    generalize hpadded : Decimal.zeros (places + 1 - digits.length) ++ digits = padded
    have hpos := List.length_pos_iff.mpr hne
    have hlength : places < padded.length := by
      rw [← hpadded, List.length_append, Decimal.zeros, List.length_replicate]
      omega
    have hall (c : Char) (hc : c ∈ padded) : c.isDigit = true := by
      rw [← hpadded] at hc
      rcases List.mem_append.mp hc with hc | hc
      · exact hzeros _ c hc
      · exact hdigits c hc
    refine ⟨padded.take (padded.length - places),
      '.' :: padded.drop (padded.length - places), by simp, ?_, ?_, .digits _ ?_⟩
    · intro hnil
      have := congrArg List.length hnil
      rw [List.length_take, List.length_nil] at this
      omega
    · exact fun c hc => hall c (List.mem_of_mem_take hc)
    · exact fun c hc => hall c (List.mem_of_mem_drop hc)

/-- **Decimals are written with digits and a point only.** -/
theorem isPlainDecimal_write (d : Decimal) :
    IsPlainDecimal (Decimal.write Decimal.Style.plain d).toList := by
  unfold Decimal.write
  exact isPlainDecimal_positional Nat.toDigits_ne_nil
    (fun c hc => Nat.isDigit_of_mem_toDigits (by decide) (by decide) hc) _

/-- The lexer takes all of it as the digits of a number. -/
theorem IsPlainDecimal.splitNumber {cs : List Char} (h : IsPlainDecimal cs) :
    Lexer.splitNumber cs = ⟨cs, [], []⟩ := by
  obtain ⟨whole, point, rfl, -, hwhole, hpoint⟩ := h
  have hnone : ∀ c ∈ ([] : List Char), Text.isAlphabetic c = true :=
    List.forall_mem_nil _
  have hsplit := splitNumber_of_parts hwhole hpoint .nil hnone delimited_nil
  simpa using hsplit

/-- A plain number that can be read is a number for the lexer. -/
theorem IsPlainDecimal.isNumber {cs : List Char} (h : IsPlainDecimal cs)
    (hread : (Decimal.read? cs).isSome = true) : IsNumber cs := by
  have hsplit := h.splitNumber
  obtain ⟨whole, point, rfl, hne, hwhole, -⟩ := h
  cases whole with
  | nil => exact absurd rfl hne
  | cons c whole =>
    refine ⟨c, whole ++ point, rfl, ?_, by rw [hsplit], by rw [hsplit]; exact hread⟩
    simp [startsNumber, hwhole c List.mem_cons_self]

namespace Double

open Float.Model (UnpackedFloat Format)
open Float.Model.UnpackedFloat

/-! ### Magnitudes -/

/-- The text of the magnitude of a number. -/
def magnitudeText : UnpackedFloat → String
  | .notANumber => Decimal.Style.plain.nan
  | .infinity _ => "inf"
  | .zero _ => Decimal.write Decimal.Style.plain ⟨0, 0⟩
  | .finite _ m q _ => Decimal.write Decimal.Style.plain (Decimal.shortest m q).trim

/-- The text of a number is its sign and the text of its magnitude. -/
theorem text_eq (c : Double) :
    Numeral.text c = signText c ++ magnitudeText c.toFloat.toModel.unpack := by
  show write Decimal.Style.plain c = _
  unfold write writeWith magnitudeText
  cases c.toFloat.toModel.unpack <;> rfl

/-- The text of the magnitude does not depend on the sign. -/
theorem magnitudeText_withSign (s : Sign) (u : UnpackedFloat) :
    magnitudeText (withSign s u) = magnitudeText u := by
  cases u <;> rfl

/-- The absolute value of a number is the number with a positive sign. -/
theorem float_abs_eq (x : Float) :
    x.abs = .ofModel (.pack (withSign .positive x.toModel.unpack)) := by
  have habs (u : UnpackedFloat) : u.abs = withSign .positive u := by
    cases u <;> rfl
  show Float.ofModel (.pack x.toModel.unpack.abs) = _
  rw [habs]

/-- A number that is defined is defined when it is unpacked. -/
theorem unpack_ne_of_isNaN {x : Float} (h : x.isNaN = false) :
    x.toModel.unpack ≠ .notANumber := by
  intro hnan
  have h : UnpackedFloat.isNaN x.toModel.unpack = false := h
  rw [hnan] at h
  cases h

/-- The absolute value unpacks to the number with a positive sign. -/
theorem unpack_abs {x : Float} (h : x.isNaN = false) :
    x.abs.toModel.unpack = withSign .positive x.toModel.unpack := by
  have hpack := pack_withSign .positive x.toModel.toBits.toBitVec (unpack_ne_of_isNaN h)
  rw [float_abs_eq]
  show unpack Format.binary64 (pack Format.binary64 (withSign .positive (unpack Format.binary64
    x.toModel.toBits.toBitVec))) = _
  rw [hpack, unpack_packComponents]
  rfl

/-- An absolute value has no sign. -/
theorem unsigned_abs (x : Float) : Unsigned x.abs := by
  rw [float_abs_eq]
  exact unsigned_pack (withSign_withSign _ _ _)

/-- The absolute value of a defined number is defined. -/
theorem isNaN_abs {x : Float} (h : x.isNaN = false) : x.abs.isNaN = false := by
  have hne := unpack_ne_of_isNaN h
  show UnpackedFloat.isNaN x.abs.toModel.unpack = false
  rw [unpack_abs h]
  cases hu : x.toModel.unpack with
  | notANumber => exact absurd hu hne
  | _ => rfl

/-- The absolute value of an infinite number is infinite, and of no other. -/
theorem isInf_abs {x : Float} (h : x.isNaN = false) : x.abs.isInf = x.isInf := by
  show UnpackedFloat.isInf x.abs.toModel.unpack = UnpackedFloat.isInf x.toModel.unpack
  rw [unpack_abs h]
  cases x.toModel.unpack <;> rfl

/-- A number without a sign is its own magnitude. -/
theorem float_abs_of_unsigned {x : Float} (h : x.isNaN = false) (hx : Unsigned x) : x.abs = x := by
  rw [float_abs_eq, hx.unpack, ofModel_pack_unpack x h]

variable {c : Double}

/-- An absolute value is not negative. -/
theorem isNegative_abs (hnan : c.isNaN = false) : c.abs.isNegative = false := by
  cases c with
  | undefined s => cases hnan
  | defined x hx =>
    show (ofFloat x.abs).isNegative = false
    rw [ofFloat_eq_defined (isNaN_abs hx)]
    exact (isNegative_defined _).mpr (unsigned_abs x)

/-- A number that is not negative is its absolute value. -/
theorem abs_of_not_isNegative (hnan : c.isNaN = false) (hc : c.isNegative = false) :
    c.abs = c := by
  cases c with
  | undefined s => cases hnan
  | defined x hx =>
    show ofFloat x.abs = _
    rw [float_abs_of_unsigned hx ((isNegative_defined hx).mp hc), ofFloat_eq_defined hx]

/-- The absolute value of a finite number is finite. -/
theorem finite_abs (hnan : c.isNaN = false) (hinf : c.isInf = false) :
    c.abs.isNaN = false ∧ c.abs.isInf = false := by
  cases c with
  | undefined s => cases hnan
  | defined x hx =>
    have habs : (defined x hx).abs = defined x.abs (isNaN_abs hx) :=
      ofFloat_eq_defined (isNaN_abs hx)
    rw [habs]
    exact ⟨rfl, (isInf_abs hx).trans hinf⟩

/-- **The text of a number with a sign is a minus sign and the text of its magnitude.** -/
theorem text_of_isNegative (hnan : c.isNaN = false) (hc : c.isNegative = true) :
    Numeral.text c = "-" ++ Numeral.text c.abs := by
  rw [text_eq c, text_eq c.abs]
  cases c with
  | undefined s => cases hnan
  | defined x hx =>
    have habs : (defined x hx).abs = defined x.abs (isNaN_abs hx) :=
      ofFloat_eq_defined (isNaN_abs hx)
    have hneg := isNegative_abs hnan
    rw [habs] at hneg ⊢
    have hsign : signText (defined x hx) = "-" := by
      simp [signText, isNaN, hc]
    have hsign' : signText (defined x.abs (isNaN_abs hx)) = "" := by
      simp [signText, hneg]
    rw [hsign, hsign', String.empty_append]
    simp only [toFloat, unpack_abs hx, magnitudeText_withSign]

/-- The text of a finite number without a sign consists of digits and a point. -/
theorem isPlainDecimal_text (hnan : c.isNaN = false) (hinf : c.isInf = false)
    (hc : c.isNegative = false) : IsPlainDecimal (Numeral.text c).toList := by
  rw [text_eq]
  cases c with
  | undefined s => cases hnan
  | defined x hx =>
    have hsign : signText (defined x hx) = "" := by
      simp [signText, hc]
    have hinf : UnpackedFloat.isInf x.toModel.unpack = false := hinf
    have hne := unpack_ne_of_isNaN hx
    rw [hsign, String.empty_append]
    simp only [toFloat]
    cases hu : x.toModel.unpack with
    | notANumber => exact absurd hu hne
    | infinity s =>
      rw [hu] at hinf
      cases hinf
    | zero s => exact isPlainDecimal_write _
    | finite s m e h => exact isPlainDecimal_write _

/-- The decimal text of the constant is read as the constant. -/
def ReadsBack (c : Double) : Prop :=
  Lexer.mantissa? (Numeral.text c).toList = some c

/-- The text of a constant without a sign yields the constant. -/
theorem yields_magnitude (constant? : String → Option Double) (hnan : c.isNaN = false)
    (hinf : c.isInf = false)
    (hc : c.isNegative = false) (hread : ReadsBack c) :
    Yields Delimited (Numeral.text c).toList (fun (ts after : List (Token Double)) =>
      Expr.Grammar.Primary constant? ts (.constant c) after) := by
  have hplain := isPlainDecimal_text hnan hinf hc
  have hsome : (Decimal.read? (Numeral.text c).toList).isSome = true := by
    unfold ReadsBack mantissa? at hread
    exact Option.isSome_map ▸ Option.isSome_iff_exists.mpr ⟨c, hread⟩
  have hvalue : numberValue? (Numeral.text c).toList = some c := by
    have hscale : (Suffix.scale [] : Double) = 1 := rfl
    rw [numberValue?, hplain.splitNumber]
    simp only [hscale]
    rw [hread, Option.map_some, mul_one_of_finite hnan hinf]
  refine (yields_number (hplain.isNumber hsome) hvalue).mono ?_
  rintro _ after ⟨offset, rfl⟩
  exact .number _ _ _ _

/-- **The text of a finite constant is read as its normal form.** -/
theorem yields_constant (constant? : String → Option Double) (hnan : c.isNaN = false)
    (hinf : c.isInf = false) (hread : ReadsBack c.abs) :
    Expr.YieldsOperand constant? (Numeral.text c).toList (Expr.normalise (.constant c)) := by
  cases hc : c.isNegative with
  | false =>
    have hnormal : Expr.normalise (.constant c) = .constant c :=
      if_neg (by simp [Scalar.isNegative, hc])
    rw [abs_of_not_isNegative hnan hc] at hread
    rw [hnormal]
    exact (yields_magnitude constant? hnan hinf hc hread).mono fun _ _ => .primary
  | true =>
    have hnormal : Expr.normalise (.constant c) = .unary .minus (.constant c.abs) := if_pos hc
    have hfinite := finite_abs hnan hinf
    have h := yields_minus.before
      (yields_magnitude constant? hfinite.1 hfinite.2 (isNegative_abs hnan) hread)
    rw [hnormal, text_of_isNegative hnan hc, String.toList_append]
    refine h.mono ?_
    rintro _ after ⟨_, hsign, h⟩
    exact .sign hsign (.primary h)

end Double
end CircuitExpr
