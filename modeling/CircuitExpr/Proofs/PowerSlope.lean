/-
# The spelling of an exponent

A power with a variable-free exponent has the same value however the exponent is spelled:
`x ^ c` with a literal `c`, or with a tree such as `-0.5` or `1/2`, which a parser leaves
as it stands.  Its derivative has not.  A literal is seen by the rule of powers, a tree is
not:

| exponent | derivative by the base at `a` |
| --- | --- |
| a literal `c` that is an integer | `c a ^ (c - 1)` |
| another literal `c` | `c (|a| ^ c / a)` |
| a tree with the value `c` | `c a ^ (c - 1)` |

The value of a power whose exponent is no integer is that of `|a| ^ c`, so the literal
rule is right (`hasDerivAt_realPow`): the slope of `|a| ^ c` has the sign of `a c`.  In the
last row the power is again one of the magnitude, and the sign of the base is lost.  So for
a negative base and an exponent that is no integer a spelled exponent gives the slope of the
literal one with the other sign, and otherwise the two agree (`derive_power`).

Of the power with a real exponent only `|x| ^ c / |x| = |x| ^ (c - 1)` is asked.
-/

import Mathlib
import CircuitExpr.Proofs.BuildableDerivatives
import CircuitExpr.Proofs.FewerVariables
import CircuitExpr.Proofs.GuardedValues

namespace CircuitExpr

open CircuitExpr.Expr (Yields Computes Buildable)
open Derivatives (Slope)
open Vocabulary (orZero)

variable {K S : Type} [Field K] [LinearOrder K] [FloorRing K] [AnalyticFunctions K]

/-! ### Slopes of powers -/

/-- The derivative by the base of a power with a literal exponent. -/
def literalSlope (fudge a c : K) : K :=
  if (integerExponent? c).isSome then c * realPow fudge a (c - 1)
  else c * (AnalyticFunctions.pow |a| c / a)

/-- The derivative by the base of a power with an exponent that is no literal. -/
def spelledSlope (fudge a c : K) : K := c * realPow fudge a (c - 1)

/-- For an integer exponent the spelling does not count. -/
theorem spelledSlope_of_integer {fudge a c : K} (hc : (integerExponent? c).isSome = true) :
    spelledSlope fudge a c = literalSlope fudge a c :=
  (if_pos hc).symm

/-- **For any other exponent a spelled exponent loses the sign of the base.** -/
theorem spelledSlope_of_magnitude [IsStrictOrderedRing K]
    (hpow : ∀ x c : K, x ≠ 0 →
      AnalyticFunctions.pow |x| c / |x| = AnalyticFunctions.pow |x| (c - 1))
    {fudge a c : K} (ha : fudge ≤ |a|) (ha0 : a ≠ 0) (hc : integerExponent? c = none)
    (hpred : integerExponent? (c - 1) = none) :
    (0 < a → spelledSlope fudge a c = literalSlope fudge a c) ∧
      (a < 0 → spelledSlope fudge a c = -literalSlope fudge a c) := by
  have hspelled : spelledSlope fudge a c = c * (AnalyticFunctions.pow |a| c / |a|) := by
    rw [spelledSlope, realPow_of_integerExponent?_eq_none hpred ha, hpow a c ha0]
  have hliteral : literalSlope fudge a c = c * (AnalyticFunctions.pow |a| c / a) := by
    rw [literalSlope, hc]
    rfl
  rw [hspelled, hliteral]
  constructor
  · intro hpos
    rw [abs_of_pos hpos]
  · intro hneg
    rw [abs_of_neg hneg, div_neg, mul_neg]

/-- **The slope of a literal exponent is the slope of the power that is computed,** over
the real numbers, wherever the guard leaves the base alone. -/
theorem hasDerivAt_realPow {fudge a c : ℝ} (ha : fudge < |a|) (ha0 : a ≠ 0) :
    HasDerivAt (fun x => realPow fudge x c) (literalSlope fudge a c) a := by
  have hnear : ∀ᶠ x in nhds a, fudge < |x| := (continuous_abs.tendsto a).eventually_const_lt ha
  cases hc : integerExponent? c with
  | none =>
    -- any other exponent is applied to the magnitude, so the sign of `a` is in the slope only
    have hpow : (fun x => realPow fudge x c) =ᶠ[nhds a] fun x => |x| ^ c :=
      hnear.mono fun x hx => realPow_of_integerExponent?_eq_none hc hx.le
    have habs : |a| ≠ 0 := abs_ne_zero.mpr ha0
    have hderiv := (hasDerivAt_abs ha0).rpow_const (p := c) (.inl habs)
    have hslope : literalSlope fudge a c = SignType.sign a * c * |a| ^ (c - 1) := by
      rw [literalSlope, hc, Real.rpow_sub_one habs]
      change c * (|a| ^ c / a) = _
      rcases ha0.lt_or_gt with h | h
      · rw [sign_neg h, abs_of_neg h]
        simp [div_neg]
      · rw [sign_pos h, abs_of_pos h]
        simp
    rw [hslope]
    exact hderiv.congr_of_eventuallyEq hpow
  | some n =>
    obtain ⟨rfl, hn⟩ := integerExponent?_eq_some hc
    have hpow : (fun x => realPow fudge x n.toInt) =ᶠ[nhds a] fun x => x ^ n.toInt :=
      hnear.mono fun x hx => realPow_of_integerExponent? hc hx.le
    have hslope : literalSlope fudge a (n.toInt : ℝ) = n.toInt * a ^ (n.toInt - 1) := by
      rw [literalSlope, hc, Option.isSome_some, if_pos rfl]
      congr 1
      have hcast : (n.toInt : ℝ) - 1 = ((n.toInt - 1 : ℤ) : ℝ) := by push_cast; rfl
      rw [hcast]
      by_cases hpred : (n.toInt - 1).natAbs ≤ 2147483647
      · rw [realPow_of_integerExponent? (integerExponent?_intCast hpred) ha.le,
          toInt_ofInt_of_natAbs_le hpred]
      · -- the predecessor of the least exponent is even and computed on the magnitude
        have hleast : n.toInt - 1 = -2147483648 := by omega
        have hnone : integerExponent? ((n.toInt - 1 : ℤ) : ℝ) = none := by
          unfold integerExponent?
          rw [show Scalar.toInt? ((n.toInt - 1 : ℤ) : ℝ) = some (n.toInt - 1) from
            Exact.toInt?_eq_some.mpr rfl]
          exact if_neg hpred
        rw [realPow_of_integerExponent?_eq_none hnone ha.le]
        change |a| ^ ((n.toInt - 1 : ℤ) : ℝ) = _
        rw [Real.rpow_intCast, hleast]
        exact Even.zpow_abs (by decide) a
    rw [hslope]
    exact (hasDerivAt_zpow n.toInt a (.inl ha0)).congr_of_eventuallyEq hpow

namespace Expr

/-- The two ways to write a power. -/
inductive IsPower (f g : Expr K) : Expr K → Prop
  /-- By the operator. -/
  | operator : IsPower f g (.binary .pow f g)
  /-- By the function, in any case. -/
  | call {name : String} : Text.lowercase name = "pow" → IsPower f g (.call name [f, g])

variable {wanted : List Variable} {f g e : Expr K} {mf mg : Derivatives K}

/-- Both have the same derivatives. -/
theorem IsPower.derive_eq (he : IsPower f g e) (hmf : f.derive .builtin wanted = some mf)
    (hmg : g.derive .builtin wanted = some mg) :
    e.derive .builtin wanted = some (.chain ((Vocabulary.powerPartials f g).zip [mf, mg])) := by
  rw [derive_eq_derivatives] at hmf hmg ⊢
  cases he with
  | operator =>
    rw [derivatives, hmf, hmg]
    rfl
  | call hname =>
    exact derivatives_call (f := Vocabulary.pow) (by simp [Vocabulary.builtinFunctions])
      hname.symm rfl [mf, mg] (by simp [derivativesAll, hmf, hmg])

/-- A tree without variables has no derivatives. -/
theorem derive_eq_empty {w : Vocabulary K} (hfree : e.vars = []) {m : Derivatives K}
    (hm : e.derive w wanted = some m) : m = .empty := by
  have hleaves : ∀ v, v ∉ e.leaves := by
    intro v hv
    rw [← occurrences_eq_leaves, ← OrderedMap.mem_distinct] at hv
    exact List.not_mem_nil (hfree ▸ (show v ∈ e.vars from hv))
  -- narrowing to no variables and back again drops everything and changes nothing
  have hnone : e.derive w [] = some (m.by []) :=
    deriveWith_by (fun v hv => absurd hv (hleaves v)) hm
  have hback : e.derive w wanted = some ((m.by []).by wanted) :=
    deriveWith_by (fun v hv => absurd hv (hleaves v)) hnone
  have hempty : (m.by []).by wanted = .empty := by
    refine OrderedMap.ext_entries ?_
    simp [Derivatives.by, OrderedMap.keep, OrderedMap.empty]
  exact (Option.some.inj (hm.symm.trans hback)).trans hempty

variable {fudge : K} {p : Point S K} {a c : K}

/-- What the derivative of a power by its base yields. -/
theorem yields_powerByBase [IsStrictOrderedRing K] {w : Vocabulary K}
    (hf : Yields ⟨w, .real fudge⟩ p f a) (hg : Yields ⟨w, .real fudge⟩ p g c)
    (hconstant : f.asConstant? = none) (ha : fudge ≤ |a|) :
    Yields ⟨w, .real fudge⟩ p (Vocabulary.powerByBase f g)
      (if g.asConstant?.isSome then literalSlope fudge a c else spelledSlope fudge a c) := by
  unfold Vocabulary.powerByBase
  cases hliteral : g.asConstant? with
  | none =>
    have hpred := hf.pow hconstant (Yields.valuation.sub hg Yields.valuation.one)
    exact Yields.valuation.mul hg hpred
  | some e =>
    obtain rfl := asConstant?_eq_some.mp hliteral
    obtain rfl := hg.unique (Yields.constant e)
    rw [Option.isSome_some, if_pos rfl, literalSlope]
    simp only
    split
    · exact Yields.valuation.mul hg (hf.pow hconstant (Yields.constant _))
    · rename_i hc
      have hpow := hf.pow hconstant hg
      rw [realPow_of_integerExponent?_eq_none (by simpa using hc) ha] at hpow
      exact Yields.valuation.mul hg (hpow.div hf ha)

/-- The slope of a power by a variable, if the exponent has no derivatives. -/
theorem slope_power [IsStrictOrderedRing K] {w : Vocabulary K}
    (hmf : f.derivatives w wanted = some mf) (hf : Yields ⟨w, .real fudge⟩ p f a)
    (hg : Yields ⟨w, .real fudge⟩ p g c) (ha : fudge ≤ |a|) {v : Variable} {d : K}
    (hd : Slope (Yields ⟨w, .real fudge⟩ p) mf v d) :
    Slope (Yields ⟨w, .real fudge⟩ p)
      (.chain ((Vocabulary.powerPartials f g).zip [mf, .empty])) v
      ((if g.asConstant?.isSome then literalSlope fudge a c else spelledSlope fudge a c) * d) :=
  hd.chain_one Yields.valuation
    (fun _ hentry =>
      yields_powerByBase hf hg (asConstant?_eq_none_of_derivatives hmf hentry) ha)
    fun _ ht => .inr (by rw [List.mem_singleton.mp ht])

/-- **The slope of a power depends on the spelling of its exponent only by the sign of a
negative base.**  Let `g` be a tree without variables, `a` the value of `f`, at least as
large as the guard, and `c` that of `g`.  Then the derivatives of `f ^ g`, `pow(f, g)` and
`f ^ c` are all there and compute slopes, that of `f ^ c` the right one.  The slopes are
equal if `g` is the literal or `c` an integer; if neither `c` nor `c - 1` is one they are
equal for a positive base, and opposite for a negative one. -/
theorem derive_power [IsStrictOrderedRing K]
    (hpow : ∀ x c : K, x ≠ 0 →
      AnalyticFunctions.pow |x| c / |x| = AnalyticFunctions.pow |x| (c - 1))
    (he : IsPower f g e) (hmf : f.derive .builtin wanted = some mf)
    (hmg : g.derive .builtin wanted = some mg) (hfree : g.vars = []) {σ : Type}
    {host : Resolver σ S} {source? : Variable → Option S} (hhost : host.Steady source?) :
    ∃ m, e.derive .builtin wanted = some m ∧
      ∀ (state : σ) (memory : S → K) (a c : K),
        Computes ⟨.builtin, .real fudge⟩ host state memory f a →
        Computes ⟨.builtin, .real fudge⟩ host state memory g c → fudge ≤ |a| → a ≠ 0 →
        ∃ m₀, (Expr.binary .pow f (.constant c)).derive .builtin wanted = some m₀ ∧
          ∀ v, ∃ d y y₀,
            Computes ⟨.builtin, .real fudge⟩ host state memory (orZero (mf.get? v)) d ∧
            Computes ⟨.builtin, .real fudge⟩ host state memory (orZero (m.get? v)) y ∧
            Computes ⟨.builtin, .real fudge⟩ host state memory (orZero (m₀.get? v)) y₀ ∧
            y₀ = literalSlope fudge a c * d ∧
            (g.asConstant?.isSome = true ∨ (integerExponent? c).isSome = true → y = y₀) ∧
            (g.asConstant? = none → y = spelledSlope fudge a c * d) ∧
            (g.asConstant? = none → integerExponent? c = none →
              integerExponent? (c - 1) = none → (0 < a → y = y₀) ∧ (a < 0 → y = -y₀)) := by
  obtain rfl := derive_eq_empty hfree hmg
  refine ⟨_, he.derive_eq hmf hmg, fun state memory a c hf hg ha ha0 => ?_⟩
  refine ⟨_, (IsPower.operator (g := .constant c)).derive_eq hmf (derive_constant ..),
    fun v => ?_⟩
  simp only [computes_real_iff hhost] at hf hg ⊢
  rw [derive_eq_derivatives] at hmf
  obtain ⟨d, hd⟩ := (buildable_derivatives hf.buildable hmf v).exists_yields
    (p := ⟨source?, memory⟩) (Setting.total_builtin fudge)
  have hslope := slope_power hmf hf hg ha hd
  have hslope₀ := slope_power hmf hf (Yields.constant c) ha hd
  refine ⟨d, _, _, hd, hslope, hslope₀, rfl, ?_, ?_, ?_⟩
  · rintro (hconstant | hinteger)
    · rw [if_pos hconstant]
      rfl
    · rw [spelledSlope_of_integer hinteger, ite_self]
      rfl
  · intro hnone
    rw [hnone]
    rfl
  · intro hnone hc hpred
    obtain ⟨hpos, hneg⟩ := spelledSlope_of_magnitude hpow ha ha0 hc hpred
    rw [hnone]
    refine ⟨fun h => congrArg (· * d) (hpos h), fun h => ?_⟩
    exact (congrArg (· * d) (hneg h)).trans (neg_mul _ d)

/-! ### The reciprocal root -/

section ReciprocalRoot

/-- The exponent `-0.5` as a parser gives it. -/
noncomputable def minusHalf : Expr ℝ := .unary .minus (.constant Scalar.half)

/-- The exponent `-0.5` has no variables. -/
theorem vars_minusHalf : minusHalf.vars = [] := by
  rw [vars, occurrences_eq_leaves]
  rfl

/-- The exponent `-0.5` has no derivatives. -/
theorem derive_minusHalf : minusHalf.derive .builtin [.named "x"] = some .empty :=
  derive_eq_derivatives ..

/-- The base is the variable. -/
theorem derive_x : (Expr.var (.named "x") : Expr ℝ).derive .builtin [.named "x"] =
    some (.single (.named "x") Expr.one) :=
  derive_variable (List.mem_singleton.mpr rfl)

/-- The exponent `-0.5` is worth `-1/2`. -/
theorem yields_minusHalf (fudge x : ℝ) : Yields ⟨.builtin, .real fudge⟩
    (⟨some, fun _ => x⟩ : Point Variable ℝ) minusHalf (-(1 / 2)) :=
  Yields.valuation.minus (Scalar.half_eq (K := ℝ) ▸ Yields.constant Scalar.half)

/-- Dividing by the magnitude lowers the exponent by one. -/
theorem pow_abs_sub_one (x c : ℝ) (hx : x ≠ 0) :
    AnalyticFunctions.pow |x| c / |x| = AnalyticFunctions.pow |x| (c - 1) :=
  (Real.rpow_sub_one (abs_ne_zero.mpr hx) c).symm

/-- The exponent `-0.5` is not whole. -/
theorem integerExponent?_minusHalf : integerExponent? (-(1 / 2) : ℝ) = none := by
  refine integerExponent?_eq_none fun n hn => ?_
  have h : (2 * n + 1 : ℝ) = 0 := by rw [← hn]; norm_num
  norm_cast at h
  omega

/-- The exponent `-0.5` less one is not whole. -/
theorem integerExponent?_minusHalf_sub_one : integerExponent? (-(1 / 2) - 1 : ℝ) = none := by
  refine integerExponent?_eq_none fun n hn => ?_
  have h : (2 * n + 3 : ℝ) = 0 := by rw [← hn]; norm_num
  norm_cast at h
  omega

/-- With a literal exponent the slope keeps the sign of the base. -/
theorem literalSlope_minusHalf {fudge a : ℝ} :
    literalSlope fudge a (-(1 / 2)) = -(1 / 2) * (|a| ^ (-(1 / 2) : ℝ) / a) := by
  rw [literalSlope, integerExponent?_minusHalf]
  rfl

/-- At `x = 1` the derivative of `x ^ -1/2` computes the slope `-1/2`. -/
theorem derive_minusHalfPower :
    ∃ m, (Expr.binary .pow (.var (.named "x")) minusHalf).derive .builtin [.named "x"] =
        some m ∧
      Computes ⟨.builtin, .real (1 / 100 : ℝ)⟩ (.recording some) [] (fun _ => 1)
        (orZero (m.get? (.named "x"))) (-(1 / 2)) := by
  have hhost := Resolver.steady_recording (S := Variable) some
  obtain ⟨m, hm, hslope⟩ := derive_power pow_abs_sub_one .operator derive_x derive_minusHalf
    vars_minusHalf hhost
  obtain ⟨m₀, -, hslope⟩ := hslope [] (fun _ => 1) 1 (-(1 / 2))
    ((computes_real_iff hhost).mpr (Yields.sourced rfl))
    ((computes_real_iff hhost).mpr (yields_minusHalf (1 / 100) 1)) (by norm_num) one_ne_zero
  obtain ⟨d, y, y₀, hd, hy, -, hy₀, -, -, hsame⟩ := hslope (.named "x")
  obtain rfl : d = 1 := Yields.unique ((computes_real_iff hhost).mp hd) (Yields.constant 1)
  refine ⟨m, hm, ?_⟩
  rwa [(hsame rfl integerExponent?_minusHalf integerExponent?_minusHalf_sub_one).1 one_pos, hy₀,
    literalSlope_minusHalf, abs_one, Real.one_rpow, div_one, mul_one, mul_one] at hy

/-- At `x = -1` the derivative of `x ^ c` with the literal `c = -1/2` computes `1/2`, and
that of `x ^ -1/2` computes `-1/2`. -/
theorem minusHalf_slopes_differ :
    ∃ m m₀,
      (Expr.binary .pow (.var (.named "x")) minusHalf).derive .builtin [.named "x"] = some m ∧
      (Expr.binary .pow (.var (.named "x")) (.constant (-(1 / 2)))).derive .builtin
        [.named "x"] = some m₀ ∧
      (1 / 100 : ℝ) ≤ |-1| ∧
      Computes ⟨.builtin, .real (1 / 100 : ℝ)⟩ (.recording some) [] (fun _ => -1)
        (.var (.named "x")) (-1) ∧
      Computes ⟨.builtin, .real (1 / 100 : ℝ)⟩ (.recording some) [] (fun _ => -1)
        minusHalf (-(1 / 2)) ∧
      Computes ⟨.builtin, .real (1 / 100 : ℝ)⟩ (.recording some) [] (fun _ => -1)
        (orZero (m₀.get? (.named "x"))) (1 / 2) ∧
      Computes ⟨.builtin, .real (1 / 100 : ℝ)⟩ (.recording some) [] (fun _ => -1)
        (orZero (m.get? (.named "x"))) (-(1 / 2)) ∧
      ¬Computes ⟨.builtin, .real (1 / 100 : ℝ)⟩ (.recording some) [] (fun _ => -1)
        (orZero (m.get? (.named "x"))) (1 / 2) := by
  have hhost := Resolver.steady_recording (S := Variable) some
  have hx : (1 / 100 : ℝ) ≤ |-1| := by norm_num
  have hderivatives : (Expr.var (.named "x") : Expr ℝ).derivatives .builtin [.named "x"] =
      some (.single (.named "x") Expr.one) := rfl
  have hdx : Slope (Yields (⟨.builtin, .real (1 / 100)⟩ : Setting ℝ Variable ℝ) ⟨some, fun _ => -1⟩)
      (.single (.named "x") Expr.one) (.named "x") 1 := Yields.constant 1
  have hslope₀ := slope_power hderivatives (Yields.sourced rfl)
    (Yields.constant (-(1 / 2))) hx hdx
  have hslope := slope_power hderivatives (Yields.sourced rfl)
    (yields_minusHalf (1 / 100) (-1)) hx hdx
  have hvalue₀ : literalSlope (1 / 100) (-1) (-(1 / 2)) = (1 / 2 : ℝ) := by
    rw [literalSlope_minusHalf, abs_neg, abs_one, Real.one_rpow]
    norm_num
  have hvalue : spelledSlope (1 / 100) (-1) (-(1 / 2)) = (-(1 / 2) : ℝ) := by
    rw [(spelledSlope_of_magnitude pow_abs_sub_one hx (by norm_num) integerExponent?_minusHalf
      integerExponent?_minusHalf_sub_one).2 (by norm_num), hvalue₀]
  change Slope _ _ _ (literalSlope _ _ _ * 1) at hslope₀
  change Slope _ _ _ (spelledSlope _ _ _ * 1) at hslope
  rw [hvalue₀, mul_one] at hslope₀
  rw [hvalue, mul_one] at hslope
  refine ⟨_, _, IsPower.operator.derive_eq derive_x derive_minusHalf,
    IsPower.operator.derive_eq derive_x (derive_constant ..), hx,
    (computes_real_iff hhost).mpr (Yields.sourced rfl),
    (computes_real_iff hhost).mpr (yields_minusHalf _ _),
    (computes_real_iff hhost).mpr hslope₀, (computes_real_iff hhost).mpr hslope, fun h => ?_⟩
  have heq := Yields.unique hslope ((computes_real_iff hhost).mp h)
  norm_num at heq

end ReciprocalRoot

end Expr
end CircuitExpr
