/-
# Names in another case

Functions are looked up by the small form of their name, so capitals and small letters of
ASCII do not matter: names that differ in nothing else have one small form
(`Text.lowercase_eq`).  The form of a capital sigma depends on what stands around it, but
not on its case.

Trees that differ only in the case of the names that they call (`Expr.CaseAlike`) are
therefore built into one evaluator, or into none (`build_eq_ok_iff`).
-/

import Mathlib
import CircuitExpr.Proofs.MatchedTrees
import CircuitExpr.Proofs.SteadyHosts

namespace CircuitExpr

/-! ### Texts -/

namespace Text

/-- The texts differ at most in the case of their ASCII letters. -/
def CaseVariant (a b : String) : Prop :=
  a.toList.map Char.toLower = b.toList.map Char.toLower

instance (a b : String) : Decidable (CaseVariant a b) :=
  inferInstanceAs (Decidable (_ = _))

/-- A name is a variant of itself. -/
theorem CaseVariant.refl (a : String) : CaseVariant a a := rfl

/-- Names are variants of each other in either direction. -/
theorem CaseVariant.symm {a b : String} (h : CaseVariant a b) : CaseVariant b a := Eq.symm h

/-- Only capitals of ASCII have a small letter in ASCII. -/
theorem toLower_eq_self {c : Char} (h : ¬(65 ≤ c.toNat ∧ c.toNat ≤ 90)) : c.toLower = c := by
  unfold Char.toLower
  exact dif_neg h

/-- What does not look at the case of an ASCII letter looks at the case of no character. -/
theorem apply_toLower {β : Type} {f : Char → β}
    (hf : ∀ n < 26, f (Char.ofNat (65 + n)).toLower = f (Char.ofNat (65 + n))) (c : Char) :
    f c.toLower = f c := by
  by_cases h : 65 ≤ c.toNat ∧ c.toNat ≤ 90
  · have hc := hf (c.toNat - 65) (by omega)
    rwa [show 65 + (c.toNat - 65) = c.toNat by omega, Char.ofNat_toNat] at hc
  · rw [toLower_eq_self h]

/-- A letter has the same small letter as its ASCII small letter. -/
theorem lowerChar_toLower (c : Char) : lowerChar c.toLower = lowerChar c :=
  apply_toLower (by decide +kernel) c

/-- Making ASCII letters small makes no capital sigma, and removes none. -/
theorem sigma_toLower (c : Char) : (c.toLower == 'Σ') = (c == 'Σ') :=
  apply_toLower (f := (· == 'Σ')) (by decide +kernel) c

/-- Letters with case stay such when they are made small. -/
theorem cased_toLower (c : Char) : casedRanges.contains c.toLower = casedRanges.contains c :=
  apply_toLower (by decide +kernel) c

/-- No letter of ASCII is set aside. -/
theorem caseIgnorable_letter {c : Char}
    (h : 65 ≤ c.toNat ∧ c.toNat ≤ 90 ∨ 97 ≤ c.toNat ∧ c.toNat ≤ 122) :
    caseIgnorableRanges.contains c = false := by
  have hranges : ∀ r ∈ caseIgnorableRanges, r.2 < 65 ∨ 90 < r.1 ∧ r.2 < 97 ∨ 122 < r.1 := by
    decide +kernel
  rw [← Bool.not_eq_true, CharRanges.contains_iff]
  rintro ⟨r, hr, hfirst, hlast⟩
  have hr := hranges r hr
  omega

/-- Characters that a final sigma disregards stay such when they are made small. -/
theorem caseIgnorable_toLower (c : Char) :
    caseIgnorableRanges.contains c.toLower = caseIgnorableRanges.contains c := by
  by_cases h : 65 ≤ c.toNat ∧ c.toNat ≤ 90
  · have hall : ∀ n < 26, (Char.ofNat (65 + n)).toLower.toNat = 97 + n := by decide +kernel
    have hlower := hall (c.toNat - 65) (by omega)
    rw [show 65 + (c.toNat - 65) = c.toNat by omega, Char.ofNat_toNat] at hlower
    rw [caseIgnorable_letter (.inl h), caseIgnorable_letter (.inr (by omega))]
  · rw [toLower_eq_self h]

/-- What starts with a letter with case goes on doing so. -/
theorem startsCased_map_toLower (cs : List Char) :
    startsCased (cs.map Char.toLower) = startsCased cs := by
  induction cs with
  | nil => rfl
  | cons c cs ih =>
    have hfirst := caseIgnorable_toLower c
    cases h : caseIgnorableRanges.contains c with
    | true =>
      rw [h] at hfirst
      simpa only [startsCased, List.map_cons, List.dropWhile_cons, hfirst, h, if_true] using ih
    | false =>
      rw [h] at hfirst
      simp only [startsCased, List.map_cons, List.dropWhile_cons, hfirst, h, Bool.false_eq_true,
        if_false]
      exact cased_toLower c

/-- The small letters of a text do not depend on the case of its ASCII letters. -/
theorem lowerAfter_map_toLower (before cs : List Char) :
    lowerAfter (before.map Char.toLower) (cs.map Char.toLower) = lowerAfter before cs := by
  induction cs generalizing before with
  | nil => rfl
  | cons c cs ih =>
    have hrest := ih (c :: before)
    rw [List.map_cons] at hrest
    rw [List.map_cons, lowerAfter, lowerAfter, hrest, sigma_toLower, lowerChar_toLower,
      lowerSigma, lowerSigma, startsCased_map_toLower, startsCased_map_toLower]

/-- **Texts that differ only in the case of ASCII letters have one small form.** -/
theorem lowercase_eq {a b : String} (h : CaseVariant a b) : lowercase a = lowercase b := by
  have hchars : lowerAfter [] a.toList = lowerAfter [] b.toList := by
    rw [← lowerAfter_map_toLower, ← lowerAfter_map_toLower [] b.toList]
    exact congrArg (lowerAfter []) h
  rw [lowercase, lowercase, hchars]

end Text

/-- A function is found under every variant of its name. -/
theorem Vocabulary.function?_eq {ρ : Type} (w : Vocabulary ρ) {name name' : String}
    (h : Text.CaseVariant name name') : w.function? name = w.function? name' := by
  rw [function?, function?, Text.lowercase_eq h]

/-- A function is found under every variant of its name, for the same numbers of arguments. -/
theorem Vocabulary.functionOf?_eq {ρ : Type} (w : Vocabulary ρ) {name name' : String}
    (h : Text.CaseVariant name name') (arity : Nat) :
    w.functionOf? name arity = w.functionOf? name' arity := by
  rw [functionOf?, functionOf?, w.function?_eq h]

/-! ### Trees -/

/-- The trees differ at most in the case of the names that they call. -/
abbrev Expr.CaseAlike {ρ : Type} : Expr ρ → Expr ρ → Prop :=
  Expr.Matches (· = ·) Text.CaseVariant

namespace Evaluator

open CircuitExpr.Expr (CaseAlike)

variable {ρ S α σ : Type} [Scalar ρ] {s : Setting ρ S α} {source? : Variable → Option S}

/-- Errors do not matter for what follows. -/
theorem toOption_bind {ε β γ : Type} (x : Except ε β) (f : β → Except ε γ) :
    (x >>= f).toOption = x.toOption.bind fun a => (f a).toOption := by
  cases x <;> rfl

omit [Scalar ρ] in
/-- A call finds its function, whatever the case of the name; the error tells the case. -/
theorem toOption_callee {name name' : String} (h : Text.CaseVariant name name') (arity : Nat) :
    (callee s name arity).toOption = (callee s name' arity).toOption := by
  unfold callee
  rw [s.vocabulary.functionOf?_eq h]
  cases s.vocabulary.functionOf? name' arity with
  | none => rfl
  | some f => rfl

/-- Whether an exponent is known does not depend on the case of names. -/
theorem fixedExponent?_eq (op : BinaryOp) {y y' : Expr ρ} (h : CaseAlike y y') :
    fixedExponent? op y = fixedExponent? op y' := by
  cases op with
  | pow =>
    obtain ⟨a, b, ha, hb, rfl⟩ | ⟨ha, hb⟩ := h.asConstant?_cases
    · rw [fixedExponent?, fixedExponent?, ha, hb]
    · rw [fixedExponent?, fixedExponent?, ha, hb]
  | _ => rfl

/-- **Trees that differ only in the case of names have one translation, or none.** -/
theorem toOption_translate {e e' : Expr ρ} (h : CaseAlike e e') :
    (translate s source? e).toOption = (translate s source? e').toOption := by
  induction e using Expr.induction generalizing e' with
  | constant c =>
    obtain ⟨rfl⟩ := h
    rfl
  | var v =>
    obtain ⟨⟩ := h
    rfl
  | unary op x ih =>
    obtain ⟨⟩ := h
    rename_i y hxy
    rw [translate, translate, toOption_bind, toOption_bind, ih hxy]
  | binary op x x' ihx ihx' =>
    obtain ⟨⟩ := h
    rename_i y y' hxy hxy'
    rw [translate, translate, fixedExponent?_eq op hxy']
    cases fixedExponent? op y' with
    | some n =>
      simp only [toOption_bind, ihx hxy]
    | none =>
      simp only [toOption_bind, ihx hxy, ihx' hxy']
  | call name xs ih =>
    obtain ⟨⟩ := h
    rename_i name' ys hname hxs
    have hall : (translateAll s source? xs).toOption = (translateAll s source? ys).toOption := by
      -- the hypotheses about the arguments go into the relation that the induction is on
      have himp := Expr.forall₂_imp_of_mem (fun x hx y => ih x hx) hxs
      clear hxs ih
      induction himp with
      | nil => rfl
      | cons hxy _ ih =>
        rw [translateAll, translateAll]
        simp only [toOption_bind, hxy, ih]
    rw [translate, translate, ← hxs.length_eq]
    simp only [toOption_bind, toOption_callee hname, hall]
  | conditional c t f ihc iht ihf =>
    obtain ⟨⟩ := h
    rename_i d u g hc ht hf
    rw [translate, translate]
    simp only [toOption_bind, ihc hc, iht ht, ihf hf]

/-- An outcome is a result if there is one. -/
theorem toOption_eq_some {ε β : Type} {x : Except ε β} {a : β} :
    x.toOption = some a ↔ x = .ok a := by
  cases x <;> simp [Except.toOption]

/-- Trees that differ in the case of names have the same translations. -/
theorem translate_eq_ok_iff {e e' : Expr ρ} (h : CaseAlike e e') {x : Evaluator ρ S α} :
    translate s source? e = .ok x ↔ translate s source? e' = .ok x := by
  rw [← toOption_eq_some, ← toOption_eq_some, toOption_translate h]

/-- **Trees that differ only in the case of names are built into one evaluator,** or both
cannot be built, in any states of a steady host. -/
theorem build_eq_ok_iff {host : Resolver σ S} (hhost : host.Steady source?) {e e' : Expr ρ}
    (h : CaseAlike e e') (state state' : σ) {x : Evaluator ρ S α} :
    (build s host e state).1 = .ok x ↔ (build s host e' state').1 = .ok x := by
  rw [build_eq_translate hhost, build_eq_translate hhost]
  exact translate_eq_ok_iff h

end Evaluator
end CircuitExpr
