/-
# Derivatives of what can be built can be built

The rules of differentiation bring in functions of their own: `log` for a power, `trunc`
for a remainder, `cos` for `sin`.  A setting that has all of them supplies what
differentiation asks for (`Setting.Supplies`), and there being buildable is a closed
property of trees.  The built-in vocabulary does, with a backend that offers what the reals
have, as both backends do.  So a tree that can be built has derivatives that can be built,
by every variable (`buildable_derive`).  In particular a derivative has a value wherever
the tree has one, which nothing but this ensures: differentiating looks up neither
variables nor values.
-/

import Mathlib
import CircuitExpr.Backend.Complex
import CircuitExpr.Proofs.ClosedProperties
import CircuitExpr.Proofs.DerivativeMaps
import CircuitExpr.Proofs.TreeValues

namespace CircuitExpr

/-! ### What a backend offers -/

section Offers

variable {ρ α S : Type} [Scalar ρ]

/-- The built-in functions with real values have values in the backend. -/
def Backend.Offers (b : Backend ρ S α) : Prop :=
  ∀ f ∈ (Vocabulary.builtinFunctions : List (NamedFunction ρ)), f.real.isSome = true →
    (b.implementation f).isSome = true

/-- Real values are what they are. -/
theorem Backend.real_offers (fudge : ρ) : (Backend.real fudge : Backend ρ S ρ).Offers :=
  fun f _ h => (isSome_real_implementation fudge f).trans h

/-- A built-in function with real values has complex ones, and none of them are lost where
there is a source of the frequency. -/
theorem Backend.complex_offers (fudge : ρ) (laplace : Option S) :
    (Backend.complex fudge laplace).Offers := by
  have hboth : ∀ f ∈ (Vocabulary.builtinFunctions : List (NamedFunction ρ)),
      f.real.isSome = true → f.complex.isSome = true := by
    simp only [Vocabulary.builtinFunctions, Vocabulary.roundings, List.cons_append,
      List.nil_append, List.forall_mem_cons, List.not_mem_nil, IsEmpty.forall_iff,
      implies_true, and_true]
    and_intros
    all_goals exact id
  intro f hf hreal
  change ((laplace? laplace f.name).or (f.complex.map .plain)).isSome = true
  rw [Option.isSome_or, Option.isSome_map, hboth f hf hreal, Bool.or_true]

/-- The functions that the rules of differentiation bring in are there, with values. -/
def Setting.Supplies (s : Setting ρ S α) : Prop :=
  ∀ name arity, (name, arity) ∈ Vocabulary.realSignatures →
    ∃ f, s.vocabulary.functionOf? name arity = some f ∧ (s.backend.implementation f).isSome = true

/-- A backend that offers the functions of the rules supplies them under the built-in vocabulary.
-/
theorem Backend.Offers.supplies {b : Backend ρ S α} (hb : b.Offers) :
    Setting.Supplies ⟨.builtin, b⟩ := by
  intro name arity h
  obtain ⟨f, hmem, hfind, hreal⟩ := Vocabulary.functionOf?_of_mem_realSignatures (ρ := ρ) h
  exact ⟨f, hfind, hb f hmem hreal⟩

/-- **Being buildable is closed,** where the functions are that differentiation brings in. -/
theorem Expr.closed_buildable {s : Setting ρ S α} (hs : s.Supplies)
    (source? : Variable → Option S) : Closed (Buildable s source?) where
  constant := buildable_constant
  unary := buildable_unary
  binary := buildable_binary
  conditional := buildable_conditional
  argument h := (buildable_call.mp h).2
  again h hname hlength hargs := by
    obtain ⟨hfunction, -⟩ := buildable_call.mp h
    refine buildable_call.mpr ⟨?_, hargs⟩
    rwa [Vocabulary.functionOf?, Vocabulary.function?, hname, hlength]
  builtin h hargs := buildable_call.mpr ⟨hs _ _ h, hargs⟩

/-- **A tree that can be built has derivatives that can be built.** -/
theorem Expr.buildable_derive {b : Backend ρ S α} (hb : b.Offers) {source? : Variable → Option S}
    {wanted : List Variable} {mix : Hasher ρ} {e : Expr ρ}
    (he : Buildable ⟨.builtin, b⟩ source? e) {m : Derivatives ρ}
    (hm : e.deriveWith mix .builtin wanted = some m) : m.Each (Buildable ⟨.builtin, b⟩ source?) :=
  (closed_buildable hb.supplies source?).derive he hm

end Offers

/-! ### Derivatives over exact numbers -/

namespace Expr

variable {K S : Type} [Field K] [LinearOrder K] [FloorRing K] [AnalyticFunctions K]
variable {fudge : K} {source? : Variable → Option S} {wanted : List Variable}

/-- Over exact numbers the walk finds what the recursion finds. -/
theorem derive_eq_derivatives (w : Vocabulary K) (wanted : List Variable) (e : Expr K) :
    e.derive w wanted = e.derivatives w wanted :=
  deriveWith_eq (fun _ _ => Scalar.eq_of_same) _ w wanted e

/-- The derivatives of a tree that can be built can be built. -/
theorem buildable_derivatives {e : Expr K} (he : Buildable ⟨.builtin, .real fudge⟩ source? e)
    {m : Derivatives K} (hm : e.derivatives .builtin wanted = some m) :
    m.Each (Buildable ⟨.builtin, .real fudge⟩ source?) :=
  buildable_derive (Backend.real_offers fudge) he ((derive_eq_derivatives ..).trans hm)

/-- A constant has no derivatives. -/
theorem derive_constant (w : Vocabulary K) (wanted : List Variable) (c : K) :
    (Expr.constant c).derive w wanted = some .empty :=
  derive_eq_derivatives ..

/-- The derivative of a variable that is asked for. -/
theorem derive_variable {w : Vocabulary K} {wanted : List Variable} {v : Variable}
    (hv : v ∈ wanted) : (Expr.var v : Expr K).derive w wanted = some (.single v .one) := by
  rw [derive_eq_derivatives, derivatives, Derivative.step]
  simp [hv]

/-- Only a tree that is no constant has derivatives. -/
theorem asConstant?_eq_none_of_derivatives {w : Vocabulary K} {wanted : List Variable}
    {e : Expr K} {m : Derivatives K} (hm : e.derivatives w wanted = some m) {v : Variable}
    {d : Expr K} (hd : m.get? v = some d) : e.asConstant? = none := by
  cases h : e.asConstant? with
  | none => rfl
  | some c =>
    rw [asConstant?_eq_some.mp h] at hm
    obtain rfl : .empty = m := Option.some.inj hm
    cases hd

end Expr
end CircuitExpr
