/-
# The guard in the derivative of a quotient

The derivative of `f / g` is `f' / g + (-(f g' / (g g)))`, and both of its divisions are
guarded like any other.  At a point where `g` has at least the magnitude of the guard the
quotient itself and `f' / g` are exact.  The divisor `g g` is smaller than `g` where that
is less than one, and below the guard it is moved:

| value `b` of `g` | divisor of `f g'` |
| --- | --- |
| `fudge ≤ b * b` | `b * b` |
| `b * b < fudge ≤ |b|` | `b * b + fudge` |

So the derivative of a quotient that is computed without the guard is the slope of the
quotient only if the square of the divisor, too, is as large as the guard, or if `f g'` is
zero (`derive_quotient`).  A power with exponent minus one has no such gap: its guard
looks at the base.
-/

import Mathlib
import CircuitExpr.Proofs.BuildableDerivatives
import CircuitExpr.Proofs.GuardedValues

namespace CircuitExpr

open CircuitExpr.Expr (Yields Computes)
open Derivatives (Slope)
open Vocabulary (orZero)

variable {K S : Type} [Field K] [LinearOrder K] [FloorRing K] [AnalyticFunctions K]

/-- **The slope of a quotient, as its derivative computes it.** -/
theorem Derivatives.Slope.quotient {w : Vocabulary K} {fudge : K} {p : Point S K}
    {wanted : List Variable} {f g : Expr K} {mf mg : Derivatives K}
    (hmg : g.derivatives w wanted = some mg) {v : Variable} {a b da db : K}
    (hf : Yields ⟨w, .real fudge⟩ p f a) (hg : Yields ⟨w, .real fudge⟩ p g b)
    (hb : fudge ≤ |b|) (hda : Slope (Yields ⟨w, .real fudge⟩ p) mf v da)
    (hdb : Slope (Yields ⟨w, .real fudge⟩ p) mg v db) :
    Slope (Yields ⟨w, .real fudge⟩ p)
      (.sum [mf.map fun d => d / g, mg.map fun d => -(f * d / (g * g))]) v
      (da / b - a * db / guardReal fudge (b * b)) := by
  have hleft := hda.map Yields.valuation (φ := fun t => t / b) (fun d _ hd => hd.div hg hb)
    (by rw [zero_div]; exact Yields.constant 0)
  have hright := hdb.map Yields.valuation (φ := fun t => -(a * t / guardReal fudge (b * b)))
    (f := fun d => -(f * d / (g * g))) (fun d hentry hd => ?_)
    (by rw [mul_zero, zero_div, neg_zero]; exact Yields.constant 0)
  · rw [sub_eq_add_neg]
    exact hleft.sum_two Yields.valuation hright
  · -- where there is a derivative the divisor is a product that does not fold
    have hconstant := Expr.asConstant?_eq_none_of_derivatives hmg hentry
    have hsquare : (g * g).asConstant? = none := by
      change (Expr.mul g g).asConstant? = none
      rw [Expr.mul, hconstant]
      rfl
    exact Yields.valuation.neg ((Yields.valuation.mul hf hd).div_guarded
      (Yields.valuation.mul hg hg) hsquare)

/-- Dividing by the guarded square is dividing by the square just where the guard does not
reach it. -/
theorem sub_div_guardReal_square_iff [IsStrictOrderedRing K] {fudge : K} (hfudge : 0 < fudge)
    {b : K} (hb : b ≠ 0) (t u : K) :
    t - u / guardReal fudge (b * b) = t - u / (b * b) ↔ fudge ≤ b * b ∨ u = 0 := by
  have hpos : 0 < b * b := mul_self_pos.mpr hb
  rw [sub_right_inj]
  by_cases h : fudge ≤ b * b
  · rw [guardReal_of_le (h.trans (le_abs_self _))]
    exact iff_of_true rfl (.inl h)
  · rw [guardReal_of_lt (by rwa [abs_of_pos hpos, ← not_le]) hpos.le,
      div_eq_div_iff (add_pos hpos hfudge).ne' hpos.ne', mul_add, left_eq_add, mul_eq_zero,
      or_iff_left hfudge.ne']
    exact (or_iff_right h).symm

namespace Expr

/-- The derivative of a quotient. -/
theorem derive_quotient_eq {w : Vocabulary K} {wanted : List Variable} {f g : Expr K}
    {mf mg : Derivatives K} (hmf : f.derive w wanted = some mf)
    (hmg : g.derive w wanted = some mg) :
    (Expr.binary .div f g).derive w wanted =
      some (.sum [mf.map fun d => d / g, mg.map fun d => -(f * d / (g * g))]) := by
  rw [derive_eq_derivatives] at hmf hmg ⊢
  rw [derivatives, hmf, hmg]
  rfl

/-- **The derivative of a quotient is exact just where the guard lets the square of the
divisor alone.**  Whenever `f` and `g` have derivatives their quotient has.  At a point
where the value `b` of `g` is at least as large as the guard the quotient is computed
exactly; its derivative computes `da / b - a db / (b b)` with the last divisor guarded,
and this is the slope if `b b` is as large as the guard, or `a db` zero, and else not. -/
theorem derive_quotient [IsStrictOrderedRing K] {w : Vocabulary K} {fudge : K}
    (hfudge : 0 < fudge) {wanted : List Variable} {f g : Expr K} {mf mg : Derivatives K}
    (hmf : f.derive w wanted = some mf) (hmg : g.derive w wanted = some mg) {σ : Type}
    {host : Resolver σ S} {source? : Variable → Option S} (hhost : host.Steady source?) :
    ∃ m, (Expr.binary .div f g).derive w wanted = some m ∧
      ∀ (state : σ) (memory : S → K) (v : Variable) (a b da db : K),
        Computes ⟨w, .real fudge⟩ host state memory f a →
        Computes ⟨w, .real fudge⟩ host state memory g b → fudge ≤ |b| →
        Computes ⟨w, .real fudge⟩ host state memory (orZero (mf.get? v)) da →
        Computes ⟨w, .real fudge⟩ host state memory (orZero (mg.get? v)) db →
        Computes ⟨w, .real fudge⟩ host state memory (.binary .div f g) (a / b) ∧
        Computes ⟨w, .real fudge⟩ host state memory (orZero (m.get? v))
          (da / b - a * db / guardReal fudge (b * b)) ∧
        (da / b - a * db / guardReal fudge (b * b) = da / b - a * db / (b * b) ↔
          fudge ≤ b * b ∨ a * db = 0) := by
  refine ⟨_, derive_quotient_eq hmf hmg, fun state memory v a b da db hf hg hb hda hdb => ?_⟩
  simp only [computes_real_iff hhost] at hf hg hda hdb ⊢
  have hb0 : b ≠ 0 := abs_pos.mp (hfudge.trans_le hb)
  have hquotient := hf.plain_div hg
  rw [guardReal_of_le hb] at hquotient
  rw [derive_eq_derivatives] at hmg
  exact ⟨hquotient, Slope.quotient hmg hf hg hb hda hdb,
    sub_div_guardReal_square_iff hfudge hb0 _ _⟩

/-- The divisor is the variable. -/
theorem derive_b : (Expr.var (.named "b") : Expr ℝ).derive .builtin [.named "b"] =
    some (.single (.named "b") Expr.one) :=
  derive_variable (List.mem_singleton.mpr rfl)

/-- Under a guard of `1/100` the derivative of `1 / b` at `b = 1/2` computes the slope
`-4`. -/
theorem derive_reciprocal :
    ∃ m, (Expr.binary .div (.constant 1) (.var (.named "b"))).derive .builtin [.named "b"] =
        some m ∧
      Computes ⟨.builtin, .real (1 / 100 : ℝ)⟩ (.recording some) [] (fun _ => 1 / 2)
        (orZero (m.get? (.named "b"))) (-4) := by
  have hhost := Resolver.steady_recording (S := Variable) some
  have hfudge : (0 : ℝ) < 1 / 100 := by norm_num
  obtain ⟨m, hm, hslope⟩ := derive_quotient hfudge (derive_constant ..) derive_b hhost
  refine ⟨m, hm, ?_⟩
  have hb : (1 / 100 : ℝ) ≤ |1 / 2| := by norm_num
  obtain ⟨-, hcomputes, hexact⟩ := hslope [] (fun _ => 1 / 2) (.named "b") 1 (1 / 2) 0 1
    ((computes_real_iff hhost).mpr (Yields.constant 1))
    ((computes_real_iff hhost).mpr (Yields.sourced rfl)) hb
    ((computes_real_iff hhost).mpr (Yields.constant 0))
    ((computes_real_iff hhost).mpr (Yields.constant 1))
  rw [hexact.mpr (.inl (by norm_num))] at hcomputes
  norm_num at hcomputes
  exact hcomputes

/-- At `b = 1/20`, which the guard of `1/100` leaves alone, the derivative of `1 / b`
computes `-80` and not the slope. -/
theorem reciprocal_slope_distorted :
    ∃ m, (Expr.binary .div (.constant 1) (.var (.named "b"))).derive .builtin [.named "b"] =
        some m ∧
      (1 / 100 : ℝ) ≤ |1 / 20| ∧
      Computes ⟨.builtin, .real (1 / 100 : ℝ)⟩ (.recording some) [] (fun _ => 1 / 20)
        (.var (.named "b")) (1 / 20) ∧
      Computes ⟨.builtin, .real (1 / 100 : ℝ)⟩ (.recording some) [] (fun _ => 1 / 20)
        (orZero (m.get? (.named "b"))) (-80) ∧
      ¬Computes ⟨.builtin, .real (1 / 100 : ℝ)⟩ (.recording some) [] (fun _ => 1 / 20)
        (orZero (m.get? (.named "b"))) (0 / (1 / 20) - 1 * 1 / (1 / 20 * (1 / 20))) := by
  have hb : (1 / 100 : ℝ) ≤ |1 / 20| := by norm_num
  have hhost := Resolver.steady_recording (S := Variable) some
  have hdone : Slope (Yields ⟨.builtin, .real (1 / 100)⟩ ⟨some, fun _ => 1 / 20⟩)
      (.empty : Derivatives ℝ) (.named "b") 0 := Yields.constant 0
  have hdb : Slope (Yields ⟨.builtin, .real (1 / 100)⟩ ⟨some, fun _ => 1 / 20⟩)
      (.single (.named "b") Expr.one : Derivatives ℝ) (.named "b") 1 := Yields.constant 1
  have hslope := Slope.quotient ((derive_eq_derivatives ..).symm.trans derive_b)
    (Yields.constant 1) (Yields.sourced rfl) hb hdone hdb
  rw [guardReal_of_lt (by norm_num) (by norm_num)] at hslope
  norm_num at hslope
  refine ⟨_, derive_quotient_eq (derive_constant ..) derive_b, hb,
    (computes_real_iff hhost).mpr (Yields.sourced rfl),
    (computes_real_iff hhost).mpr hslope, fun h => ?_⟩
  have heq := Yields.unique hslope ((computes_real_iff hhost).mp h)
  norm_num at heq

end Expr
end CircuitExpr
