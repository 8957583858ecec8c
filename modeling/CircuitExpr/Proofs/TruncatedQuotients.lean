/-
# The quotient behind a remainder

The derivative of `f % g` takes the remainder for `f - trunc(f / g) * g` and treats the
truncated quotient as a constant: it is `f' - trunc(f / g) * g'`.  For real values this is
the remainder that is computed.  For complex values two roundings meet:

| | of the quotient `z` keeps |
| --- | --- |
| `trunc(f / g)` | the real part of `z`, truncated |
| `f % g` | both parts of `z`, truncated |

So the remainder is the one that its derivative takes it for just where the imaginary part
of the quotient is smaller than one (`remainder_quotient`), and otherwise it misses a
multiple of `i g`.
-/

import Mathlib
import CircuitExpr.Proofs.BuildableDerivatives
import CircuitExpr.Proofs.EitherBackend
import CircuitExpr.Proofs.RealEmbedding

namespace CircuitExpr

open CircuitExpr.Complex (ofReal)
open CircuitExpr.Expr (Yields Computes)

section Field

variable {K S : Type} [Field K] [LinearOrder K] [FloorRing K] [AnalyticFunctions K]

/-! ### Truncation -/

/-- What is smaller than one truncates to zero. -/
theorem Exact.trunc_eq_zero_iff [IsStrictOrderedRing K] {x : K} : trunc x = 0 ↔ |x| < 1 := by
  unfold trunc
  split
  · rename_i hx
    rw [Int.cast_eq_zero, Int.ceil_eq_zero_iff, Set.mem_Ioc, abs_of_neg hx, neg_lt]
    exact and_iff_left hx.le
  · rename_i hx
    rw [Int.cast_eq_zero, Int.floor_eq_zero_iff, Set.mem_Ico, abs_of_nonneg (not_lt.mp hx)]
    exact and_iff_right (not_lt.mp hx)

namespace Complex

/-- Zero divided by anything is zero. -/
theorem ofReal_zero_div (z : Complex K) : ofReal 0 / z = ofReal 0 := by
  change (⟨(0 * z.re + 0 * z.im) / z.normSquare, (0 * z.re - 0 * z.im) / z.normSquare⟩ :
    Complex K) = ⟨0, 0⟩
  simp

/-- Dividing by one changes nothing. -/
theorem div_ofReal_one (z : Complex K) : z / ofReal 1 = z := by
  change (⟨(z.re * 1 + z.im * 0) / (1 * 1 + 0 * 0), (z.im * 1 - z.re * 0) / (1 * 1 + 0 * 0)⟩ :
    Complex K) = z
  simp

/-- **A remainder is what the truncated real part of the quotient leaves** just where the
imaginary part truncates to zero. -/
theorem mod_eq_iff [IsStrictOrderedRing K] (z w : Complex K) :
    z % w = z - ofReal (Exact.trunc (z / w).re) * w ↔ |(z / w).im| < 1 := by
  rw [← Exact.trunc_eq_zero_iff]
  change z - w * (z / w).truncate = _ ↔ _
  rw [truncate_eq]
  generalize Exact.trunc (z / w).re = t
  -- what the remainder has more is the truncated imaginary part times the divisor
  have hparts : z - w * ⟨t, Exact.trunc (z / w).im⟩ = z - ofReal t * w ↔
      w.im * Exact.trunc (z / w).im = 0 ∧ w.re * Exact.trunc (z / w).im = 0 := by
    generalize Exact.trunc (z / w).im = u
    change (⟨z.re - (w.re * t - w.im * u), z.im - (w.re * u + w.im * t)⟩ : Complex K) =
      ⟨z.re - (t * w.re - 0 * w.im), z.im - (t * w.im + 0 * w.re)⟩ ↔ _
    rw [mk.injEq, zero_mul, zero_mul, sub_zero, add_zero, mul_comm t, mul_comm t, sub_right_inj,
      sub_right_inj, sub_eq_self, add_eq_right]
  rw [hparts]
  refine ⟨fun ⟨him, hre⟩ => ?_, fun h => by rw [h, mul_zero, mul_zero]; exact ⟨rfl, rfl⟩⟩
  obtain him | hu := mul_eq_zero.mp him
  · obtain hre | hu := mul_eq_zero.mp hre
    · have hzero : (z / w).im = 0 := by
        change (z.im * w.re - z.re * w.im) / _ = 0
        rw [him, hre, mul_zero, mul_zero, sub_zero, zero_div]
      rw [hzero, Exact.trunc_eq_zero_iff, abs_zero]
      exact one_pos
    · exact hu
  · exact hu

end Complex

namespace Expr

/-! ### Quotients and their truncation -/

variable {fudge : K} {laplace : Option S}

/-- A quotient of complex values by a divisor that is left alone. -/
theorem Yields.complex_div {w : Vocabulary K} {p : Point S (Complex K)} {x y : Expr K}
    {u v : Complex K} (hx : Yields ⟨w, .complex fudge laplace⟩ p x u)
    (hy : Yields ⟨w, .complex fudge laplace⟩ p y v) (hv : fudge ≤ v.norm) :
    Yields ⟨w, .complex fudge laplace⟩ p (x / y) (u / v) := by
  have hguard : guardComplex fudge v = v := if_pos (Scalar.le_iff.mpr hv)
  have hplain : Yields ⟨w, .complex fudge laplace⟩ p (.binary .div x y) (u / v) := by
    have h := combine .div (by decide) (by decide) (by decide) hx hy
    change Yields _ p _ (u / guardComplex fudge v) at h
    rwa [hguard] at h
  have hzero {c : K} (hc : x.asConstant? = some c) (h0 : Scalar.eq c 0 = true) :
      Yields ⟨w, .complex fudge laplace⟩ p Expr.zero (u / v) := by
    obtain rfl := asConstant?_eq_some.mp hc
    rw [hx.unique (ofReal c), Scalar.eq_iff.mp h0]
    change Yields _ p _ (Complex.ofReal 0 / v)
    rw [Complex.ofReal_zero_div]
    exact ofReal 0
  change Yields _ p (Expr.div x y) (u / v)
  unfold Expr.div
  split
  · rename_i c d hc hd
    split_ifs with h0 h1
    · obtain rfl := asConstant?_eq_some.mp hc
      obtain rfl := asConstant?_eq_some.mp hd
      rw [hx.unique (ofReal c), hy.unique (ofReal d)]
      change Yields _ p _ (Complex.ofReal c / Complex.ofReal d)
      rw [← Complex.ofReal_div]
      exact ofReal (c / d)
    · exact hzero hc h1
    · exact hplain
  · rename_i c hc _
    split
    · rename_i h0
      exact hzero hc h0
    · exact hplain
  · rename_i d _ hd
    split
    · rename_i h1
      obtain rfl := asConstant?_eq_some.mp hd
      rw [hy.unique (ofReal d), Scalar.eq_iff.mp h1]
      change Yields _ p _ (u / Complex.ofReal 1)
      rwa [Complex.div_ofReal_one]
    · exact hplain
  · exact hplain

/-- The function that truncates, of a complex number the real part. -/
def truncFunction : NamedFunction K := Vocabulary.piecewiseConstant "trunc" Scalar.trunc

/-- The function that truncates is built in. -/
theorem mem_truncFunction : (truncFunction : NamedFunction K) ∈ Vocabulary.builtinFunctions := by
  simp [truncFunction, Vocabulary.builtinFunctions, Vocabulary.roundings]

/-- The function that truncates is found under its name. -/
theorem functionOf?_trunc :
    (Vocabulary.builtin : Vocabulary K).functionOf? "trunc" 1 = some truncFunction :=
  Vocabulary.builtin_functionOf?_eq_some.mpr
    ⟨mem_truncFunction, (Vocabulary.lowercase_name mem_truncFunction).symm, rfl⟩

/-- On real numbers the function truncates. -/
theorem Yields.trunc_real {p : Point S K} {x : Expr K} {a : K}
    (hx : Yields ⟨.builtin, .real fudge⟩ p x a) :
    Yields ⟨.builtin, .real fudge⟩ p (.call "trunc" [x]) (Exact.trunc a) := by
  have hargs : List.Forall₂ (Yields ⟨.builtin, .real fudge⟩ p) [x] [a] := .cons hx .nil
  refine .call (f := truncFunction) (g := .plain (.unary Scalar.trunc)) ?_ ?_ hargs ?_
  · exact functionOf?_trunc
  · rfl
  · rfl

/-- Of a complex value the real part is truncated. -/
theorem Yields.trunc_complex {p : Point S (Complex K)} {x : Expr K} {u : Complex K}
    (hx : Yields ⟨.builtin, .complex fudge laplace⟩ p x u) :
    Yields ⟨.builtin, .complex fudge laplace⟩ p (.call "trunc" [x])
      (Complex.ofReal (Exact.trunc u.re)) := by
  have hname : ¬Backend.IsTimeOperator (truncFunction : NamedFunction K).name :=
    Backend.not_isTimeOperator mem_truncFunction
      (by simp [truncFunction, Vocabulary.piecewiseConstant])
  have hargs : List.Forall₂ (Yields ⟨.builtin, .complex fudge laplace⟩ p) [x] [u] :=
    .cons hx .nil
  refine .call (f := truncFunction)
    (g := .plain (.unary fun z => ⟨Scalar.trunc z.re, 0⟩)) ?_ ?_ hargs ?_
  · exact functionOf?_trunc
  · exact Backend.complex_implementation hname fudge laplace
  · rfl

/-! ### Remainders -/

/-- The derivative of a remainder multiplies by the truncated quotient. -/
theorem derive_remainder_eq {w : Vocabulary K} {wanted : List Variable} {f g : Expr K}
    {mf mg : Derivatives K} (hmf : f.derive w wanted = some mf)
    (hmg : g.derive w wanted = some mg) :
    (Expr.binary .mod f g).derive w wanted =
      some (.sum [mf, mg.map fun d => -(.call "trunc" [f / g] * d)]) := by
  rw [derive_eq_derivatives] at hmf hmg ⊢
  rw [derivatives, hmf, hmg]
  rfl

/-- **A remainder is what its derivative takes it for, imaginary quotients apart.**  Where
`f` and `g` have derivatives the derivative of `f % g` multiplies that of `g` by the call
`trunc(f / g)`.  At any point where the value `b` of `g` is at least as large as the guard
this call has a value `q`.  For real values `f % g` is worth `a - q b`.  For complex values
it is worth the remainder of complex numbers, and that is `a - q b` if the imaginary part of
`a / b` is smaller than one, and else not. -/
theorem remainder_quotient [IsStrictOrderedRing K] (fudge : K) (laplace : Option S)
    {wanted : List Variable} {f g : Expr K} {mf mg : Derivatives K}
    (hmf : f.derive .builtin wanted = some mf) (hmg : g.derive .builtin wanted = some mg)
    {σ : Type} {host : Resolver σ S} {source? : Variable → Option S}
    (hhost : host.Steady source?) (state : σ) :
    (Expr.binary .mod f g).derive .builtin wanted =
        some (.sum [mf, mg.map fun d => -(.call "trunc" [f / g] * d)]) ∧
      (∀ (memory : S → K) (a b : K),
        Computes ⟨.builtin, .real fudge⟩ host state memory f a →
        Computes ⟨.builtin, .real fudge⟩ host state memory g b → fudge ≤ |b| →
        ∃ q, q = Exact.trunc (a / b) ∧
          Computes ⟨.builtin, .real fudge⟩ host state memory (.call "trunc" [f / g]) q ∧
          Computes ⟨.builtin, .real fudge⟩ host state memory (.binary .mod f g) (a - q * b)) ∧
      ∀ (memory : S → Complex K) (a b : Complex K),
        Computes ⟨.builtin, .complex fudge laplace⟩ host state memory f a →
        Computes ⟨.builtin, .complex fudge laplace⟩ host state memory g b → fudge ≤ b.norm →
        ∃ q, q = Complex.ofReal (Exact.trunc (a / b).re) ∧
          Computes ⟨.builtin, .complex fudge laplace⟩ host state memory
            (.call "trunc" [f / g]) q ∧
          Computes ⟨.builtin, .complex fudge laplace⟩ host state memory (.binary .mod f g)
            (a % b) ∧
          (a % b = a - q * b ↔ |(a / b).im| < 1) := by
  refine ⟨derive_remainder_eq hmf hmg, fun memory a b hf hg hb => ?_,
    fun memory a b hf hg hb => ?_⟩
  · simp only [computes_real_iff hhost] at hf hg ⊢
    exact ⟨_, rfl, (hf.div hg hb).trunc_real,
      hf.combine .mod (by decide) (by decide) (by decide) hg⟩
  · have hs : Setting.backend (⟨.builtin, .complex fudge laplace⟩ : Setting K S (Complex K))
        |>.MultipliesOut := Backend.complex_multipliesOut (Scalar.eq_iff.mpr rfl) fudge laplace
    simp only [computes_iff hs hhost] at hf hg ⊢
    exact ⟨_, rfl, (hf.complex_div hg hb).trunc_complex,
      hf.combine .mod (by decide) (by decide) (by decide) hg, Complex.mod_eq_iff a b⟩

/-- The remainder of `7` by `b` at `b = 2`: its derivative multiplies by `3`, and it is
`7 - 3 * 2`, with real and with complex values. -/
theorem remainder_quotient_seven :
    Computes ⟨.builtin, .real (1 / 100 : ℝ)⟩ (.recording some) [] (fun _ => 2)
        (.call "trunc" [.constant 7 / .var (.named "b")]) 3 ∧
      Computes ⟨.builtin, .real (1 / 100 : ℝ)⟩ (.recording some) [] (fun _ => 2)
        (.binary .mod (.constant 7) (.var (.named "b"))) (7 - 3 * 2) ∧
      Computes ⟨.builtin, .complex (1 / 100 : ℝ) none⟩ (.recording some) []
        (fun _ => Complex.ofReal 2) (.binary .mod (.constant 7) (.var (.named "b")))
        (Complex.ofReal 7 - Complex.ofReal 3 * Complex.ofReal 2) := by
  have hhost := Resolver.steady_recording (S := Variable) some
  have hderive : (Expr.var (.named "b") : Expr ℝ).derive .builtin [.named "b"] =
      some (.single (.named "b") Expr.one) := derive_variable (List.mem_singleton.mpr rfl)
  have htrunc : Exact.trunc (7 / 2 : ℝ) = 3 := by
    rw [Exact.trunc, if_neg (by norm_num)]
    norm_num
  obtain ⟨-, hreal, hcomplex⟩ := remainder_quotient (1 / 100 : ℝ) none
    (derive_constant (c := 7) ..) hderive hhost []
  obtain ⟨_, rfl, hcall, hremainder⟩ := hreal (fun _ => 2) 7 2
    ((computes_real_iff hhost).mpr (Yields.constant 7))
    ((computes_real_iff hhost).mpr (Yields.sourced rfl)) (by norm_num)
  rw [htrunc] at hcall hremainder
  have hs : Setting.backend (⟨.builtin, .complex (1 / 100) none⟩ : Setting ℝ Variable (Complex ℝ))
      |>.MultipliesOut := Backend.complex_multipliesOut (Scalar.eq_iff.mpr rfl) _ _
  obtain ⟨_, rfl, -, hcomplexRemainder, hexact⟩ := hcomplex (fun _ => Complex.ofReal 2)
    (Complex.ofReal 7) (Complex.ofReal 2) ((computes_iff hs hhost).mpr (Yields.ofReal 7))
    ((computes_iff hs hhost).mpr (Yields.sourced rfl))
    (by rw [Complex.norm_ofReal]; norm_num)
  have hquotient : Complex.ofReal 7 / Complex.ofReal 2 = Complex.ofReal (7 / 2 : ℝ) :=
    (Complex.ofReal_div 7 2).symm
  have him : |(Complex.ofReal (7 / 2 : ℝ)).im| < 1 := by
    change |(0 : ℝ)| < 1
    norm_num
  rw [hquotient] at hexact
  rw [hexact.mpr him] at hcomplexRemainder
  change Computes _ _ _ _ _ (Complex.ofReal 7 -
    Complex.ofReal (Exact.trunc (7 / 2 : ℝ)) * Complex.ofReal 2) at hcomplexRemainder
  rw [htrunc] at hcomplexRemainder
  exact ⟨hcall, hremainder, hcomplexRemainder⟩

/-- The remainder of the imaginary unit by one is zero, and so is the truncated quotient that
its derivative multiplies by: the unit is missed. -/
theorem remainder_of_imaginary_unit :
    (1 / 100 : ℝ) ≤ (Complex.ofReal 1 : Complex ℝ).norm ∧
      Computes ⟨.builtin, .complex (1 / 100 : ℝ) none⟩ (.recording some) []
        (fun _ => Complex.i) (.call "trunc" [.var (.named "a") / .constant 1])
        (Complex.ofReal 0) ∧
      Computes ⟨.builtin, .complex (1 / 100 : ℝ) none⟩ (.recording some) []
        (fun _ => Complex.i) (.binary .mod (.var (.named "a")) (.constant 1))
        (Complex.ofReal 0) ∧
      ¬Computes ⟨.builtin, .complex (1 / 100 : ℝ) none⟩ (.recording some) []
        (fun _ => Complex.i) (.binary .mod (.var (.named "a")) (.constant 1))
        (Complex.i - Complex.ofReal 0 * Complex.ofReal 1) := by
  have hhost := Resolver.steady_recording (S := Variable) some
  have hs : Setting.backend (⟨.builtin, .complex (1 / 100) none⟩ : Setting ℝ Variable (Complex ℝ))
      |>.MultipliesOut := Backend.complex_multipliesOut (Scalar.eq_iff.mpr rfl) _ _
  have hnorm : (1 / 100 : ℝ) ≤ (Complex.ofReal 1 : Complex ℝ).norm := by
    rw [Complex.norm_ofReal]
    norm_num
  have ha : Yields ⟨.builtin, .complex (1 / 100 : ℝ) none⟩
      (⟨some, fun _ => Complex.i⟩ : Point Variable (Complex ℝ)) (.var (.named "a")) Complex.i :=
    Yields.sourced rfl
  have hone : Yields ⟨.builtin, .complex (1 / 100 : ℝ) none⟩
      (⟨some, fun _ => Complex.i⟩ : Point Variable (Complex ℝ)) (.constant 1)
      (Complex.ofReal 1) := Yields.ofReal 1
  have hzero : Exact.trunc (0 : ℝ) = 0 := Exact.trunc_eq_zero_iff.mpr (by norm_num)
  have hunit : Exact.trunc (1 : ℝ) = 1 := by
    rw [Exact.trunc, if_neg (by norm_num), Int.floor_one, Int.cast_one]
  have hcall := (ha.complex_div hone hnorm).trunc_complex
  rw [Complex.div_ofReal_one] at hcall
  change Yields _ _ _ (Complex.ofReal (Exact.trunc (0 : ℝ))) at hcall
  rw [hzero] at hcall
  have hremainder : (Complex.i % Complex.ofReal 1 : Complex ℝ) = Complex.ofReal 0 := by
    change Complex.i - Complex.ofReal 1 *
      Complex.truncate (Complex.i / Complex.ofReal (1 : ℝ)) = _
    rw [Complex.div_ofReal_one, Complex.truncate_eq]
    change (⟨0 - (1 * Exact.trunc (0 : ℝ) - 0 * Exact.trunc (1 : ℝ)),
      1 - (1 * Exact.trunc (1 : ℝ) + 0 * Exact.trunc (0 : ℝ))⟩ : Complex ℝ) = ⟨0, 0⟩
    rw [hzero, hunit]
    norm_num
  have hmod := ha.combine .mod (by decide) (by decide) (by decide) hone
  change Yields _ _ _ (Complex.i % Complex.ofReal 1) at hmod
  refine ⟨hnorm, (computes_iff hs hhost).mpr hcall,
    (computes_iff hs hhost).mpr (hremainder ▸ hmod), fun h => ?_⟩
  have hagree := hmod.unique ((computes_iff hs hhost).mp h)
  have him := Complex.mod_eq_iff (Complex.i : Complex ℝ) (Complex.ofReal 1)
  rw [Complex.div_ofReal_one] at him
  change _ = _ - Complex.ofReal (Exact.trunc (0 : ℝ)) * _ ↔ |(1 : ℝ)| < 1 at him
  rw [hzero, abs_one] at him
  exact lt_irrefl 1 (him.mp hagree)

end Expr
end Field
end CircuitExpr
