/-
# Differentiating again

Some rules of differentiation make comparisons: the derivative of `min(a, b)` is a choice
on `a < b`.  A comparison has no derivatives.  Still a derivative can be differentiated
again, and so as often as wanted (`derive_again`): a comparison that a rule makes is a
condition, a condition is not differentiated, and the operators that fold never move one
to another place.  What else a rule puts into a derivative are operands of the tree, which
have derivatives, constants, and calls of built-in functions, which all have a rule.

In short, having derivatives is hereditary (`hereditary_differentiates`).
-/

import Mathlib
import CircuitExpr.Proofs.ClosedProperties
import CircuitExpr.Proofs.Differentiability

namespace CircuitExpr

open Vocabulary (orZero)

/-- Every built-in function has a rule. -/
theorem Vocabulary.exists_rule {ρ : Type} [Scalar ρ] {f : NamedFunction ρ}
    (hf : f ∈ builtinFunctions) : ∃ rule, f.derivative = some rule := by
  revert f
  simp only [builtinFunctions, roundings, List.cons_append, List.nil_append,
    List.forall_mem_cons]
  and_intros
  all_goals first
    | exact List.forall_mem_nil _
    | exact ⟨_, rfl⟩

namespace Expr

section Recursion

variable {ρ : Type} [Scalar ρ] {wanted : List Variable}

/-- The recursion finds derivatives of the tree. -/
def Differentiates (wanted : List Variable) (e : Expr ρ) : Prop :=
  ∃ m, e.derivatives .builtin wanted = some m

/-- A tree has derivatives if its operands have and it does not block. -/
theorem differentiates_iff {e : Expr ρ} : e.Differentiates wanted ↔
    (∀ x ∈ e.operands, x.Differentiates wanted) ∧
      ¬e.Blocks .builtin (derivatives .builtin wanted) := by
  have hnone (x : Expr ρ) : ¬x.Differentiates wanted ↔ x.derivatives .builtin wanted = none := by
    simp [Differentiates, Option.eq_none_iff_forall_ne_some]
  rw [← not_iff_not, hnone, derivatives_eq, not_and_or, not_not]
  push Not
  simp only [hnone]
  rw [← Derivative.mapM_eq_none_iff]
  cases hds : e.operands.mapM (derivatives .builtin wanted) with
  | none => simp
  | some ds => simp [step_eq_none_iff hds]

/-- Whatever its condition, a choice between trees with derivatives has derivatives. -/
theorem guards_differentiates (c : Expr ρ) : Guards (Differentiates wanted) c := by
  intro t f ht hf
  refine differentiates_iff.mpr ⟨?_, nofun⟩
  exact List.forall_mem_cons.mpr ⟨ht, List.forall_mem_singleton.mpr hf⟩

/-- A call of a function that is found has derivatives if the arguments have. -/
theorem differentiates_call {name : String} {args : List (Expr ρ)} {f : NamedFunction ρ}
    (hf : Vocabulary.builtin.functionOf? name args.length = some f)
    (hargs : ∀ x ∈ args, x.Differentiates wanted) : (call name args).Differentiates wanted := by
  refine differentiates_iff.mpr ⟨hargs, ?_⟩
  rintro (_ | _ | ⟨hrule, -, -⟩)
  obtain ⟨rule, hderivative⟩ :=
    Vocabulary.exists_rule (Vocabulary.builtin_functionOf?_eq_some.mp hf).1
  rw [hf, Option.bind_some, hderivative] at hrule
  cases hrule

/-- **Having derivatives is hereditary.** -/
theorem hereditary_differentiates :
    Hereditary fun e : Expr ρ => e.Differentiates wanted where
  constant c := ⟨.empty, rfl⟩
  operand he hx := (differentiates_iff.mp he).1 _ hx
  minus hx := differentiates_iff.mpr ⟨List.forall_mem_singleton.mpr hx, nofun⟩
  arithmetic {op x y} hop hx hy := by
    refine differentiates_iff.mpr ⟨?_, ?_⟩
    · rw [operands, hop]
      exact List.forall_mem_cons.mpr ⟨hx, List.forall_mem_singleton.mpr hy⟩
    · rintro (_ | ⟨-, -, hquestion⟩)
      rw [← BinaryOp.isBoolean_iff, hop] at hquestion
      cases hquestion
  condition _ := guards_differentiates _
  comparison _ _ := guards_differentiates _
  again {f name args args'} _ hf hlength hargs := by
    obtain ⟨hmem, -, harity⟩ := Vocabulary.builtin_functionOf?_eq_some.mp hf
    refine differentiates_call (Vocabulary.builtin_functionOf?_eq_some.mpr ⟨hmem, ?_, ?_⟩) hargs
    · exact (Vocabulary.lowercase_name hmem).symm
    · exact harity.trans hlength.symm
  builtin h hargs := by
    obtain ⟨f, -, hfind, -⟩ := Vocabulary.functionOf?_of_mem_realSignatures (ρ := ρ) h
    exact differentiates_call hfind hargs

/-- The walk finds derivatives where the recursion does. -/
theorem isSome_derive_iff [Scalar.RespectsKeys ρ] {e : Expr ρ} :
    (e.derive .builtin wanted).isSome = true ↔ e.Differentiates wanted := by
  have halike := derivatives_alike_derive Vocabulary.respectsKeys_builtin wanted e
  rw [Differentiates, ← Option.isSome_iff_exists]
  generalize e.derivatives .builtin wanted = m, e.derive .builtin wanted = m' at halike
  cases halike <;> rfl

end Recursion

/-- The repeated partial derivative by some variables, one after the other. -/
def derivativeAlong {ρ : Type} [Scalar ρ] (wanted : List Variable) :
    List Variable → Expr ρ → Option (Expr ρ)
  | [], e => some e
  | v :: vs, e =>
    (e.derive .builtin wanted).bind fun m => derivativeAlong wanted vs (orZero (m.get? v))

variable {wanted : List Variable}

/-- The derivatives by all variables have derivatives. -/
theorem isSome_derive_of_derive {e : Expr Double} {m : Derivatives Double}
    (hm : e.derive .builtin wanted = some m) (v : Variable) :
    ((orZero (m.get? v)).derive .builtin wanted).isSome = true := by
  have he : e.Differentiates wanted := isSome_derive_iff.mp (Option.isSome_of_eq_some hm)
  exact isSome_derive_iff.mpr (hereditary_differentiates.derive he hm v)

/-- Along any list of variables there is a derivative, and it has derivatives again. -/
theorem exists_derivativeAlong {e : Expr Double} (he : (e.derive .builtin wanted).isSome = true)
    (vs : List Variable) : ∃ d, e.derivativeAlong wanted vs = some d ∧
      (d.derive .builtin wanted).isSome = true := by
  induction vs generalizing e with
  | nil => exact ⟨e, rfl, he⟩
  | cons v vs ih =>
    obtain ⟨m, hm⟩ := Option.isSome_iff_exists.mp he
    obtain ⟨d, hd, hagain⟩ := ih (isSome_derive_of_derive hm v)
    exact ⟨d, by rw [derivativeAlong, hm, Option.bind_some, hd], hagain⟩

/-- **Derivatives can be differentiated again.**  If an expression has derivatives by some
variables, then each of them has derivatives by these variables, and so has each repeated
partial derivative, however often it is taken. -/
theorem derive_again {e : Expr Double} {m : Derivatives Double}
    (hm : e.derive .builtin wanted = some m) :
    (∀ entry ∈ m.entries, (entry.2.derive .builtin wanted).isSome = true) ∧
    ∀ vs, ∃ d, e.derivativeAlong wanted vs = some d ∧ (d.derive .builtin wanted).isSome = true := by
  refine ⟨fun entry hentry => ?_, exists_derivativeAlong (Option.isSome_of_eq_some hm)⟩
  have h := isSome_derive_of_derive hm entry.1
  rwa [OrderedMap.get?_of_mem_entries hentry] at h

/-- A choice on a comparison, with a selection and a product below it. -/
def smallerOrProduct : Expr Double :=
  .conditional (.binary .gt (.var (.named "x")) zero)
    (.call "min" [.var (.named "x"), .var (.named "y")])
    (.binary .mul (.var (.named "x")) (.var (.named "y")))

/-- The example has derivatives. -/
theorem isSome_derive_smallerOrProduct :
    (smallerOrProduct.derive .builtin [.named "x", .named "y"]).isSome = true := by
  have hvar (v : Variable) :
      (Expr.var v : Expr Double).Differentiates [.named "x", .named "y"] := ⟨_, rfl⟩
  refine isSome_derive_iff.mpr (guards_differentiates _ _ _ ?_ ?_)
  · refine hereditary_differentiates.builtin (by decide) ?_
    exact List.forall_mem_cons.mpr ⟨hvar _, List.forall_mem_singleton.mpr (hvar _)⟩
  · exact hereditary_differentiates.arithmetic rfl (hvar _) (hvar _)

/-- Its mixed second derivative exists, with derivatives of its own. -/
theorem derive_again_smallerOrProduct :
    ∃ m, smallerOrProduct.derive .builtin [.named "x", .named "y"] = some m ∧
      (∀ entry ∈ m.entries,
        (entry.2.derive .builtin [.named "x", .named "y"]).isSome = true) ∧
      ∃ d, smallerOrProduct.derivativeAlong [.named "x", .named "y"] [.named "x", .named "y"] =
          some d ∧
        (d.derive .builtin [.named "x", .named "y"]).isSome = true := by
  obtain ⟨m, hm⟩ := Option.isSome_iff_exists.mp isSome_derive_smallerOrProduct
  obtain ⟨hagain, halong⟩ := derive_again hm
  exact ⟨m, hm, hagain, halong _⟩

end Expr
end CircuitExpr
