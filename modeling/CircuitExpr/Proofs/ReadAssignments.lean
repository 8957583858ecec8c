/-
# Assignments are read as they are written

The text of a variable, an equality sign and the text of a number are read as an assignment
of this number to this variable.  No name has an equality sign, so the text is split where
it was put together; what stands on the left yields the variable, and what stands on the
right yields the number or, if it has a sign, a minus before its magnitude, which the
evaluator puts together again.  Blanks at the ends of both sides are passed over.
-/

import Mathlib
import CircuitExpr.Assignment
import CircuitExpr.Backend.Real
import CircuitExpr.Proofs.LongestTokens
import CircuitExpr.Proofs.ParsedTrees
import CircuitExpr.Proofs.Respacing
import CircuitExpr.Vocabulary.Builtin

namespace CircuitExpr

/-! ### The sign of a number -/

namespace Double

open Float.Model (UnpackedFloat Format)
open Float.Model.UnpackedFloat

/-- The other sign of a number without a sign is the sign that can be set. -/
theorem neg_withSign_positive (u : UnpackedFloat) :
    (withSign .positive u).neg = withSign .negative u := by
  cases u <;> rfl

/-- A number whose sign bit is set is its magnitude with the other sign. -/
theorem float_neg_abs {x : Float} (h : x.isNaN = false)
    (hx : @unpackSign Format.binary64 x.toBits.toBitVec = 1#1) : -x.abs = x := by
  have hsign := withSign_unpackSign x.toBits.toBitVec
  rw [hx] at hsign
  calc -x.abs = .ofModel (.pack x.abs.toModel.unpack.neg) := rfl
    _ = .ofModel (.pack (withSign .negative x.toModel.unpack)) := by
      rw [unpack_abs h, neg_withSign_positive]
    _ = .ofModel (.pack x.toModel.unpack) := congrArg (fun u => Float.ofModel (.pack u)) hsign
    _ = x := ofModel_pack_unpack x h

/-- **A number with a sign is its magnitude with the other sign.** -/
theorem neg_abs_of_isNegative {c : Double} (hnan : c.isNaN = false) (hc : c.isNegative = true) :
    -c.abs = c := by
  cases c with
  | undefined s => cases hnan
  | defined x hx =>
    have hbit : @unpackSign Format.binary64 x.toBits.toBitVec = 1#1 := by
      have hc : (x.toBits >>> 63 == 1) = true := hc
      rw [isNegative_bits] at hc
      exact of_decide_eq_true hc
    have hneg : -x.abs = x := float_neg_abs hx hbit
    show (ofFloat x.abs).neg = _
    rw [ofFloat_eq_defined (isNaN_abs hx)]
    show ofFloat (-x.abs) = _
    rw [hneg, ofFloat_eq_defined hx]

end Double

/-! ### Where the text is split -/

namespace Lexer

/-- No equals sign stands in the digits of a number. -/
theorem IsMantissa.equals_not_mem {cs : List Char} (h : IsMantissa cs) : '=' ∉ cs := by
  have hdigits {ds : List Char} (hds : ∀ d ∈ ds, d.isDigit = true) : '=' ∉ ds := fun hmem => by
    cases hds '=' hmem
  obtain ⟨whole, point, exponent, rfl, hwhole, hpoint, hexponent, -⟩ := h
  have hpoint : '=' ∉ point := by
    cases hpoint with
    | nil => exact List.not_mem_nil
    | digits ds hds => exact List.not_mem_cons_of_ne_of_not_mem (by decide) (hdigits hds)
  have hexponent : '=' ∉ exponent := by
    cases hexponent with
    | nil => exact List.not_mem_nil
    | digits mark sign ds hmark hsign _ hds =>
      have hsign : '=' ∉ sign := by cases hsign <;> decide
      refine List.not_mem_cons_of_ne_of_not_mem ?_ (List.not_mem_append hsign (hdigits hds))
      rintro rfl
      cases hmark
  exact List.not_mem_append (List.not_mem_append (hdigits hwhole) hpoint) hexponent

/-- No name has an equality sign. -/
theorem IsName.equals_not_mem {w : String} (h : IsName w) : '=' ∉ w.toList := by
  obtain ⟨c, cs, hw, hstart, hcs⟩ | ⟨c, cs, hw, hstart, hrest, -⟩ := h
  · rw [hw]
    refine List.not_mem_cons_of_ne_of_not_mem ?_ fun hmem => ?_
    · rintro rfl
      cases hstart
    · cases hcs '=' hmem
  · have happend := splitNumber_append w.toList
    rw [hrest, List.append_nil] at happend
    rw [← happend]
    refine List.not_mem_append ?_ fun hmem => ?_
    · rw [hw]
      exact (isMantissa_splitNumber hstart).equals_not_mem
    · exact ne_of_isAlphabetic (of_mem_takeWhile hmem) (by decide) (by decide) rfl

end Lexer

open Lexer

/-- No equals sign stands among blanks. -/
theorem equals_not_mem_of_isBlank {bs : List Char} (h : ∀ b ∈ bs, Text.isBlank b = true) :
    '=' ∉ bs := fun hmem => absurd (h '=' hmem) (by decide)

/-- No text of a variable that can be read has an equality sign. -/
theorem Variable.Printable.equals_not_mem {ρ : Type} {constant? : String → Option ρ} {v : Variable}
    (h : v.Printable constant?) : '=' ∉ v.text.toList := by
  obtain ⟨kind, name, reference⟩ := v
  have hword {w : List Char} (hw : IsWord w) : '=' ∉ w := by
    have hname : IsName (String.ofList w) := .inl (by rwa [String.toList_ofList])
    simpa using hname.equals_not_mem
  cases kind with
  | voltage =>
    obtain ⟨hname, hreference⟩ := h
    have hname := hname.equals_not_mem
    cases reference with
    | none => simpa [text] using hname
    | some reference =>
      have hreference := (hreference reference rfl).equals_not_mem
      simp [text, hname, hreference]
  | current =>
    have hname := h.1.equals_not_mem
    simpa [text] using hname
  | property =>
    obtain ⟨hname, property, rfl, hproperty⟩ := h
    have hname := hname.equals_not_mem
    have hproperty := hproperty.equals_not_mem
    simp [text, hname, hproperty]
  | named => exact hword h.1

namespace Assignment

/-- A text is split at its first equality sign. -/
theorem split?_of_not_mem {left : List Char} (h : '=' ∉ left) (right : List Char) :
    split? (String.ofList (left ++ '=' :: right)) =
      some (String.ofList left, String.ofList right) := by
  have hleft : ∀ c ∈ left, (c != '=') = true := fun c hc =>
    bne_iff_ne.mpr (ne_of_mem_of_not_mem hc h)
  have hright : StartsNot (· != '=') ('=' :: right) := startsNot_cons.mpr rfl
  simp only [split?, String.toList_ofList, takeWhile_append_of_startsNot hleft hright,
    dropWhile_append_of_startsNot hleft hright]

end Assignment

/-! ### What is read on both sides -/

/-- A text that yields an operand is read as it, also with blanks around it. -/
theorem Expr.parse_of_blanks {ρ : Type} [Scalar ρ] {constant? : String → Option ρ}
    {before cs after : List Char} {x : Expr ρ} (h : YieldsOperand constant? cs x)
    (hbefore : ∀ b ∈ before, Text.isBlank b = true) (hafter : ∀ b ∈ after, Text.isBlank b = true) :
    Expr.parse constant? (String.ofList (before ++ (cs ++ after))) = .ok x := by
  have hapart : Apart after := fun b hb => by simp [hafter b (List.mem_of_mem_head? hb)]
  obtain ⟨ts, offset, hts, hscan⟩ := h (0 + utf8Length before) after hapart.delimited
  have hend := scanFrom_blanks (ρ := ρ) hafter offset []
  rw [List.append_nil, scanFrom_nil] at hend
  rw [← scanFrom_blanks hbefore, hend] at hscan
  have hofText : Tokens.ofText (String.ofList (before ++ (cs ++ after))) =
      .ok (⟨ts, offset + utf8Length after⟩ : Tokens ρ) := by
    rw [Tokens.ofText, scan, String.toList_ofList, hscan, Scan.prepend, List.append_nil]
  have hsigned := hts []
  rw [List.append_nil] at hsigned
  exact (Parser.parse_eq_ok_iff constant? _ x).mpr ⟨_, hofText, .of_signed hsigned⟩

namespace Assignment

variable {w : Vocabulary Double} {fudge x : Double}

/-- The normal form of a finite constant is evaluated to the constant. -/
theorem readValue_of_parse {text : String} (hnan : x.isNaN = false)
    (h : Expr.parse w.constant? text = .ok (Expr.normalise (.constant x))) :
    readValue ⟨w, .real fudge⟩ text = .ok x := by
  cases hx : x.isNegative with
  | false =>
    have hnormal : Expr.normalise (.constant x) = .constant x :=
      if_neg (by simp [Scalar.isNegative, hx])
    rw [readValue, h, hnormal]
    rfl
  | true =>
    have hnormal : Expr.normalise (.constant x) = .unary .minus (.constant x.abs) := if_pos hx
    rw [readValue, h, hnormal]
    show Except.ok (-x.abs) = _
    rw [Double.neg_abs_of_isNegative hnan hx]

end Assignment

/-- **Assignments are read as they are written.**  Take real values, any names of functions
and constants, a variable whose text can be read as a variable, and a finite number whose
digits are read back.  The text of the variable, an equality sign and the text of the
number, with any blanks around the two texts, are read as this variable and this number, its
sign included. -/
theorem assignment_roundTrip (w : Vocabulary Double) (fudge : Double) {v : Variable}
    (hv : v.Printable w.constant?) {x : Double} (hnan : x.isNaN = false) (hinf : x.isInf = false)
    (hread : Double.ReadsBack x.abs) (b₁ b₂ b₃ b₄ : String)
    (hblank : ∀ b ∈ [b₁, b₂, b₃, b₄], ∀ c ∈ b.toList, Text.isBlank c = true) :
    Assignment.read ⟨w, .real fudge⟩ (b₁ ++ v.text ++ b₂ ++ "=" ++ b₃ ++ Numeral.text x ++ b₄) =
      .ok (v, x) := by
  simp only [List.forall_mem_cons, List.not_mem_nil, false_implies, implies_true, and_true]
    at hblank
  obtain ⟨h₁, h₂, h₃, h₄⟩ := hblank
  have hleft : '=' ∉ b₁.toList ++ (v.text.toList ++ b₂.toList) :=
    List.not_mem_append (equals_not_mem_of_isBlank h₁)
      (List.not_mem_append hv.equals_not_mem (equals_not_mem_of_isBlank h₂))
  have hsplit := Assignment.split?_of_not_mem hleft
    (b₃.toList ++ ((Numeral.text x).toList ++ b₄.toList))
  have htext : String.ofList (b₁.toList ++ (v.text.toList ++ b₂.toList) ++
      '=' :: (b₃.toList ++ ((Numeral.text x).toList ++ b₄.toList))) =
      b₁ ++ v.text ++ b₂ ++ "=" ++ b₃ ++ Numeral.text x ++ b₄ := by
    rw [← String.toList_inj]
    simp
  have hvariable := Expr.parse_of_blanks (Expr.yields_variable hv) h₁ h₂
  have hnumber := Expr.parse_of_blanks
    (Double.yields_constant w.constant? hnan hinf hread) h₃ h₄
  rw [← htext, Assignment.read, hsplit]
  simp only [Assignment.readVariable, hvariable]
  rw [Assignment.readValue_of_parse hnan hnumber]
  rfl

/-- A node with a number for a name, and a negative number. -/
theorem suffixedNode_roundTrip :
    Assignment.read ⟨.builtin, .real 0⟩ " V(1.5meg) =\t-2.5" =
      .ok (.voltage "1.5meg", -Double.ofDecimal 25 (-1)) := by
  have hname : Lexer.IsName "1.5meg" := by
    refine .inr ⟨'1', ['.', '5', 'm', 'e', 'g'], rfl, rfl, ?_, ?_⟩ <;> decide +kernel
  have htext : Numeral.text (-Double.ofDecimal 25 (-1)) = "-2.5" := by decide +kernel
  have hblank : ∀ b ∈ [" ", " ", "\t", ""], ∀ c ∈ b.toList, Text.isBlank c = true := by
    simpa using (by decide : Text.isBlank ' ' = true ∧ Text.isBlank '\t' = true)
  have h := assignment_roundTrip .builtin 0 (v := .voltage "1.5meg") ⟨hname, nofun⟩
    (x := -Double.ofDecimal 25 (-1)) (by decide +kernel) (by decide +kernel)
    (by unfold Double.ReadsBack; decide +kernel) " " " " "\t" "" hblank
  have hwhole : " " ++ (Variable.voltage "1.5meg").text ++ " " ++ "=" ++ "\t" ++ "-2.5" ++ "" =
      " V(1.5meg) =\t-2.5" := by decide
  rwa [htext, hwhole] at h

end CircuitExpr
