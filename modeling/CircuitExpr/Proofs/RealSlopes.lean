/-
# Slopes of the real functions

The functions of the vocabulary are, on real numbers, the functions of analysis.  The
slopes of most of them are known; here are the others.

| function | slope | where |
| --- | --- | --- |
| `log10 x` | `1 / (x ln 10)` | `0 < x` |
| `tanh x` | `1 - tanh x ^ 2` | everywhere |
| `artanh x` | `1 / (1 - x ^ 2)` | `-1 < x < 1` |
| `hypot x y` | `x / hypot x y` by `x` | off the origin |
| the angle of `(x, y)` | `x / (x ^ 2 + y ^ 2)` by `y`, `-y / (x ^ 2 + y ^ 2)` by `x` | off the negative axis |
| `realPow 0 x c` | `c x ^ (c - 1)` by `x`, `ln x x ^ c` by `c` | `0 < x` |
| `signedPow 0 x c` | `c |x| ^ (c - 1)` by `x`, `ln |x| signedPow 0 x c` by `c` | `x ≠ 0` |

The angle is the imaginary part of the logarithm of the complex number `x + y i`.  A power
without a guard is, of a positive number, that of analysis.
-/

import Mathlib
import CircuitExpr.Proofs.GuardedValues

namespace CircuitExpr

/-! ### Logarithms and hyperbolic functions -/

/-- The slope of the common logarithm. -/
theorem hasDerivAt_log10 {a : ℝ} (ha : 0 < a) :
    HasDerivAt (Real.logb 10) (1 / (a * Real.log 10)) a := by
  have h := (Real.hasDerivAt_log ha.ne').div_const (Real.log 10)
  exact h.congr_deriv (by rw [one_div, mul_inv, div_eq_mul_inv])

/-- The slope of the hyperbolic tangent. -/
theorem hasDerivAt_tanh (a : ℝ) : HasDerivAt Real.tanh (1 - Real.tanh a ^ 2) a := by
  have hcosh : Real.cosh a ≠ 0 := (Real.cosh_pos a).ne'
  have hquotient : Real.tanh = Real.sinh / Real.cosh := funext Real.tanh_eq_sinh_div_cosh
  rw [hquotient]
  refine ((Real.hasDerivAt_sinh a).div (Real.hasDerivAt_cosh a) hcosh).congr_deriv ?_
  rw [Pi.div_apply]
  field_simp

/-- The slope of its inverse, between `-1` and `1`. -/
theorem hasDerivAt_artanh {a : ℝ} (hlo : -1 < a) (hhi : a < 1) :
    HasDerivAt Real.artanh (1 / (1 - a ^ 2)) a := by
  have hplus : (1 : ℝ) + a ≠ 0 := by linarith
  have hminus : (1 : ℝ) - a ≠ 0 := by linarith
  have hnear : Real.artanh =ᶠ[nhds a] fun x => 1 / 2 * (Real.log (1 + x) - Real.log (1 - x)) := by
    filter_upwards [Ioo_mem_nhds hlo hhi] with x hx
    have hplus : (1 : ℝ) + x ≠ 0 := by linarith [hx.1]
    have hminus : (1 : ℝ) - x ≠ 0 := by linarith [hx.2]
    rw [Real.artanh_eq_half_log ⟨hx.1.le, hx.2.le⟩, Real.log_div hplus hminus]
  have hlogs := (((hasDerivAt_id a).const_add 1).log hplus).sub
    (((hasDerivAt_id a).const_sub 1).log hminus)
  refine ((hlogs.const_mul (1 / 2)).congr_of_eventuallyEq hnear).congr_deriv ?_
  have hfactors : 1 - a ^ 2 = (1 + a) * (1 - a) := by ring
  rw [hfactors, id]
  field_simp
  ring

/-! ### Two arguments -/

/-- The length of the hypotenuse, by one of the legs. -/
theorem hasDerivAt_hypot {a b : ℝ} (h : a ≠ 0 ∨ b ≠ 0) :
    HasDerivAt (fun t => Real.sqrt (t ^ 2 + b ^ 2)) (a / Real.sqrt (a ^ 2 + b ^ 2)) a := by
  have hpos : 0 < a ^ 2 + b ^ 2 := by
    obtain h | h := h <;> positivity
  have hsquares := (hasDerivAt_pow 2 a).add_const (b ^ 2)
  refine (hsquares.sqrt hpos.ne').congr_deriv ?_
  rw [Nat.cast_ofNat, pow_one, mul_div_mul_left _ _ two_ne_zero]

/-- The angle along a curve that stays off the negative axis. -/
theorem hasDerivAt_arg {f : ℝ → ℂ} {f' : ℂ} {a : ℝ} (hf : HasDerivAt f f' a)
    (h : f a ∈ Complex.slitPlane) : HasDerivAt (fun t => (f t).arg) (f' / f a).im a := by
  have himaginary := Complex.imCLM.hasFDerivAt.comp_hasDerivAt a (hf.clog_real h)
  refine himaginary.congr_of_eventuallyEq (.of_eq (funext fun t => ?_))
  exact (Complex.log_im (f t)).symm

/-- The angle by the ordinate. -/
theorem hasDerivAt_atan2_ordinate {a b : ℝ} (h : 0 < b ∨ a ≠ 0) :
    HasDerivAt (fun t => (⟨b, t⟩ : ℂ).arg) (b / (b ^ 2 + a ^ 2)) a := by
  have hline : HasDerivAt (fun t : ℝ => (⟨b, t⟩ : ℂ)) Complex.I a := by
    have hsum := ((hasDerivAt_id a).ofReal_comp.mul_const Complex.I).const_add (b : ℂ)
    refine (hsum.congr_deriv (by simp)).congr_of_eventuallyEq (.of_eq (funext fun t => ?_))
    exact Complex.mk_eq_add_mul_I b t
  refine (hasDerivAt_arg hline h).congr_deriv ?_
  simp [Complex.div_im, Complex.normSq, pow_two]

/-- The angle by the abscissa. -/
theorem hasDerivAt_atan2_abscissa {a b : ℝ} (h : 0 < b ∨ a ≠ 0) :
    HasDerivAt (fun t => (⟨t, a⟩ : ℂ).arg) (-a / (b ^ 2 + a ^ 2)) b := by
  have hline : HasDerivAt (fun t : ℝ => (⟨t, a⟩ : ℂ)) 1 b := by
    have hsum := (hasDerivAt_id b).ofReal_comp.add_const ((a : ℂ) * Complex.I)
    refine (hsum.congr_deriv (by simp)).congr_of_eventuallyEq (.of_eq (funext fun t => ?_))
    exact Complex.mk_eq_add_mul_I t a
  refine (hasDerivAt_arg hline h).congr_deriv ?_
  simp [Complex.normSq, pow_two]

/-! ### Powers -/

/-- Without a guard the power of a positive number is that of analysis. -/
theorem realPow_of_pos {a : ℝ} (ha : 0 < a) (c : ℝ) : realPow 0 a c = a ^ c := by
  cases hc : integerExponent? c with
  | none =>
    rw [realPow_of_integerExponent?_eq_none hc (abs_nonneg a), abs_of_pos ha]
    rfl
  | some n =>
    rw [realPow_of_integerExponent? hc (abs_nonneg a), (integerExponent?_eq_some hc).1,
      Real.rpow_intCast]

/-- A power by its base. -/
theorem hasDerivAt_realPow_base {a c : ℝ} (ha : 0 < a) :
    HasDerivAt (fun t => realPow 0 t c) (c * a ^ (c - 1)) a :=
  (Real.hasDerivAt_rpow_const (.inl ha.ne')).congr_of_eventuallyEq
    ((lt_mem_nhds ha).mono fun _ ht => realPow_of_pos ht c)

/-- A power by its exponent. -/
theorem hasDerivAt_realPow_exponent {a c : ℝ} (ha : 0 < a) :
    HasDerivAt (fun t => realPow 0 a t) (Real.log a * a ^ c) c := by
  have h := (Real.hasStrictDerivAt_const_rpow ha c).hasDerivAt
  refine (h.congr_deriv (mul_comm _ _)).congr_of_eventuallyEq (.of_eq (funext fun t => ?_))
  exact realPow_of_pos ha t

/-- Without a guard the signed power is that of the magnitude with the sign of the base. -/
theorem signedPow_of_ne_zero {a : ℝ} (ha : a ≠ 0) (c : ℝ) :
    signedPow 0 a c = Scalar.sign a * |a| ^ c :=
  congrArg (Scalar.sign a * ·) (realPow_of_pos (abs_pos.mpr ha) c)

/-- The sign of a positive number is one. -/
theorem scalarSign_of_pos {a : ℝ} (ha : 0 < a) : Scalar.sign a = 1 := if_pos (Scalar.lt_iff.mpr ha)

/-- The sign of a negative number is minus one. -/
theorem scalarSign_of_neg {a : ℝ} (ha : a < 0) : Scalar.sign a = -1 := by
  rw [Scalar.sign, if_neg fun h => (Scalar.lt_iff.mp h).not_gt ha, if_pos (Scalar.lt_iff.mpr ha)]

/-- The magnitude has the slope of its sign. -/
theorem hasDerivAt_abs_sign {a : ℝ} (ha : a ≠ 0) :
    HasDerivAt (fun t : ℝ => |t|) (Scalar.sign a) a := by
  obtain hneg | hpos := ha.lt_or_gt
  · rw [scalarSign_of_neg hneg]
    exact hasDerivAt_abs_neg hneg
  · rw [scalarSign_of_pos hpos]
    exact hasDerivAt_abs_pos hpos

/-- A signed power by its base: the sign occurs twice. -/
theorem hasDerivAt_signedPow_base {a c : ℝ} (ha : a ≠ 0) :
    HasDerivAt (fun t => signedPow 0 t c) (c * |a| ^ (c - 1)) a := by
  have hsign : ∀ᶠ t in nhds a, Scalar.sign t = Scalar.sign a := by
    obtain hneg | hpos := ha.lt_or_gt
    · exact (gt_mem_nhds hneg).mono fun t ht => by rw [scalarSign_of_neg ht, scalarSign_of_neg hneg]
    · exact (lt_mem_nhds hpos).mono fun t ht => by rw [scalarSign_of_pos ht, scalarSign_of_pos hpos]
  have hnear : (fun t => signedPow 0 t c) =ᶠ[nhds a] fun t => Scalar.sign a * |t| ^ c := by
    filter_upwards [hsign, isOpen_ne.mem_nhds ha] with t hsign ht
    rw [signedPow_of_ne_zero ht, hsign]
  have hsquare : Scalar.sign a * Scalar.sign a = 1 := by
    obtain hneg | hpos := ha.lt_or_gt
    · rw [scalarSign_of_neg hneg, neg_one_mul, neg_neg]
    · rw [scalarSign_of_pos hpos, one_mul]
  have hpower := (hasDerivAt_abs_sign ha).rpow_const (p := c) (.inl (abs_ne_zero.mpr ha))
  refine ((hpower.const_mul (Scalar.sign a)).congr_of_eventuallyEq hnear).congr_deriv ?_
  rw [← mul_assoc, ← mul_assoc, hsquare, one_mul]

/-- A signed power by its exponent. -/
theorem hasDerivAt_signedPow_exponent {a c : ℝ} (ha : a ≠ 0) :
    HasDerivAt (fun t => signedPow 0 a t) (Real.log |a| * signedPow 0 a c) c := by
  have h := (hasDerivAt_realPow_exponent (c := c) (abs_pos.mpr ha)).const_mul (Scalar.sign a)
  refine h.congr_deriv ?_
  rw [signedPow_of_ne_zero ha]
  ring

end CircuitExpr
