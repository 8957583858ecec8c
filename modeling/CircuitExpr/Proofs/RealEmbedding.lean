/-
# Real numbers among the complex ones

A real number counts as the complex number without imaginary part (`Complex.ofReal`).  In
exact arithmetic the operations of complex numbers do to such numbers what those of real
numbers do: sums, products, quotients and remainders, integer powers, and the guard against
division by zero, which looks at the modulus of a complex number and at the magnitude of a
real one.

A power that is no integer power goes through logarithm and exponential function, where a
negative number has an argument of a half turn.  The exponent `-2 ^ 31`, the one integer of
32 bits that is no integer exponent, turns it around a whole number of times, so that this
power comes out real, too.
-/

import Mathlib
import CircuitExpr.Backend.Complex
import CircuitExpr.Proofs.GuardedValues

namespace CircuitExpr

open CircuitExpr.Complex (ofReal)

/-! ### Powers by squaring -/

section Squaring

variable {α β : Type} [One α] [Mul α] [Div α] [One β] [Mul β] [Div β] {φ : α → β}

omit [One α] [Div α] [One β] [Div β] in
/-- Repeated squaring goes through a map that keeps products. -/
theorem powerLoop_map (hmul : ∀ x y, φ (x * y) = φ x * φ y) (result base : α) (n : ℕ) :
    powerLoop (φ result) (φ base) n = φ (powerLoop result base n) := by
  induction n using Nat.strong_induction_on generalizing result base with
  | _ n ih =>
    rw [powerLoop.eq_def (φ result), powerLoop.eq_def result]
    split
    · rfl
    · rw [← hmul, ← hmul, ← apply_ite φ, ← apply_ite φ]
      exact ih (n / 2) (by omega) _ _

/-- An integer power goes through a map that keeps one, products and, if the exponent is
negative, the reciprocal of the natural power. -/
theorem integerPower_map (hone : φ 1 = 1) (hmul : ∀ x y, φ (x * y) = φ x * φ y) {x : α} {n : Int32}
    (hdiv : n < 0 → φ (1 / naturalPower x n.toInt.natAbs) =
      φ 1 / φ (naturalPower x n.toInt.natAbs)) :
    integerPower (φ x) n = φ (integerPower x n) := by
  have hnatural (m : ℕ) : naturalPower (φ x) m = φ (naturalPower x m) := by
    rw [naturalPower, naturalPower, ← hone]
    exact powerLoop_map hmul 1 x m
  unfold integerPower
  split_ifs with h0 h1 h2 hneg
  · exact hone.symm
  · rfl
  · exact (hmul x x).symm
  · rw [hnatural, ← hone, hdiv hneg, hone]
  · exact hnatural _

end Squaring

/-! ### Arithmetic -/

section Arithmetic

variable {K : Type} [Field K] [LinearOrder K] [FloorRing K] [AnalyticFunctions K]

namespace Complex

/-- The sum of real numbers is the same as complex ones. -/
theorem ofReal_add (x y : K) : ofReal (x + y) = ofReal x + ofReal y :=
  congrArg (Complex.mk (x + y)) (add_zero 0).symm

/-- The difference of real numbers is the same as complex ones. -/
theorem ofReal_sub (x y : K) : ofReal (x - y) = ofReal x - ofReal y :=
  congrArg (Complex.mk (x - y)) (sub_zero 0).symm

/-- A real number with the other sign is the same as a complex one. -/
theorem ofReal_neg (x : K) : ofReal (-x) = -ofReal x :=
  congrArg (Complex.mk (-x)) neg_zero.symm

/-- The product of real numbers is the same as complex ones. -/
theorem ofReal_mul (x y : K) : ofReal (x * y) = ofReal x * ofReal y := by
  change (⟨x * y, 0⟩ : Complex K) = ⟨x * y - 0 * 0, x * 0 + 0 * y⟩
  rw [mul_zero, mul_zero, zero_mul, sub_zero, add_zero]

/-- The quotient of real numbers is the same as complex ones. -/
theorem ofReal_div (x y : K) : ofReal (x / y) = ofReal x / ofReal y := by
  change (⟨x / y, 0⟩ : Complex K) =
    ⟨(x * y + 0 * 0) / (y * y + 0 * 0), (0 * y - x * 0) / (y * y + 0 * 0)⟩
  rw [mul_zero, mul_zero, zero_mul, add_zero, add_zero, sub_zero, zero_div]
  by_cases hy : y = 0
  · rw [hy, mul_zero, div_zero, mul_zero, div_zero]
  · rw [mul_div_mul_right x y hy]

/-- Both parts are truncated. -/
theorem truncate_eq (z : Complex K) : z.truncate = ⟨Exact.trunc z.re, Exact.trunc z.im⟩ := by
  have hmod (x : K) : x - x % 1 = Exact.trunc x := by
    change x - (x - Exact.trunc (x / 1) * 1) = Exact.trunc x
    rw [sub_sub_cancel, mul_one, div_one]
  rw [truncate, hmod, hmod]

/-- Truncating both parts truncates a real number. -/
theorem truncate_ofReal (x : K) : (ofReal x).truncate = ofReal (Exact.trunc x) := by
  rw [truncate_eq]
  exact congrArg (Complex.mk _) (by simp [ofReal, Exact.trunc])

/-- The remainder of real numbers is the same as complex ones. -/
theorem ofReal_mod (x y : K) : ofReal (x % y) = ofReal x % ofReal y := by
  change ofReal (x - Exact.trunc (x / y) * y) =
    ofReal x - ofReal y * (ofReal x / ofReal y).truncate
  rw [← ofReal_div, truncate_ofReal, ← ofReal_mul, ← ofReal_sub, mul_comm y]

end Complex

/-- A repeated product of a real number is the same as a complex one. -/
theorem integerPower_ofReal (x : K) (n : Int32) :
    integerPower (ofReal x) n = ofReal (integerPower x n) :=
  integerPower_map rfl Complex.ofReal_mul fun _ => Complex.ofReal_div _ _

/-- Comparing real numbers gives the same answer as complex ones. -/
theorem compareComplex_ofReal (op : BinaryOp) (x y : K) :
    Backend.compareComplex op (ofReal x) (ofReal y) = Backend.compareReal op x y := by
  have heq : (ofReal x).eq (ofReal y) = Scalar.eq x y := by
    have hzero : Scalar.eq (0 : K) 0 = true := Scalar.eq_iff.mpr rfl
    change (Scalar.eq x y && Scalar.eq 0 0) = Scalar.eq x y
    rw [hzero, Bool.and_true]
  cases op <;> simp only [Backend.compareComplex, Backend.compareReal, heq] <;> rfl

/-- A smaller negative number shrinks by the guard. -/
theorem guardReal_of_neg {fudge x : K} (h : |x| < fudge) (hx : x < 0) :
    guardReal fudge x = x - fudge := by
  have hle : ¬Scalar.le fudge (Scalar.abs x) = true := fun hle => (Scalar.le_iff.mp hle).not_gt h
  rw [guardReal, if_neg hle, if_pos (Scalar.lt_iff.mpr hx)]

/-- A guarded number is not zero, unless the guard does nothing to zero. -/
theorem guardReal_ne_zero [IsStrictOrderedRing K] {fudge x : K} (h : 0 < fudge ∨ x ≠ 0) :
    guardReal fudge x ≠ 0 := by
  obtain hle | hlt := le_or_gt fudge |x|
  · rw [guardReal_of_le hle]
    exact h.elim (fun hfudge => abs_pos.mp (hfudge.trans_le hle)) id
  · obtain hx | hx := le_or_gt 0 x
    · rw [guardReal_of_lt hlt hx]
      exact (add_pos_of_nonneg_of_pos hx ((abs_nonneg x).trans_lt hlt)).ne'
    · rw [guardReal_of_neg hlt hx]
      exact (sub_neg.mpr (hx.trans ((abs_nonneg x).trans_lt hlt))).ne

/-- The guard looks at the magnitude only. -/
theorem abs_guardReal [IsStrictOrderedRing K] (fudge x : K) :
    |guardReal fudge x| = guardReal fudge |x| := by
  obtain hle | hlt := le_or_gt fudge |x|
  · rw [guardReal_of_le hle, guardReal_of_le (by rwa [abs_abs])]
  · have hfudge : 0 < fudge := (abs_nonneg x).trans_lt hlt
    rw [guardReal_of_lt (by rwa [abs_abs]) (abs_nonneg x)]
    obtain hx | hx := le_or_gt 0 x
    · rw [guardReal_of_lt hlt hx, abs_of_nonneg hx, abs_of_nonneg (by positivity)]
    · rw [guardReal_of_neg hlt hx, abs_of_neg hx, abs_of_neg (by linarith)]
      ring

/-- A larger integer is no integer exponent. -/
theorem integerExponent?_eq_none_of_lt [IsStrictOrderedRing K] {n : ℤ}
    (hn : 2147483647 < n.natAbs) : integerExponent? (n : K) = none := by
  have hint : Scalar.toInt? (n : K) = some n := Exact.toInt?_eq_some.mpr rfl
  unfold integerExponent?
  rw [hint]
  exact if_neg hn.not_ge

end Arithmetic

/-! ### The real numbers -/

section Reals

/-- The modulus of a real number is its magnitude. -/
theorem Complex.norm_ofReal (x : ℝ) : (ofReal x).norm = |x| := by
  change Real.sqrt (x ^ 2 + 0 ^ 2) = |x|
  rw [zero_pow two_ne_zero, add_zero, Real.sqrt_sq_eq_abs]

/-- The guard against division by zero keeps real numbers real, and does the same with them. -/
theorem guardComplex_ofReal (fudge x : ℝ) :
    guardComplex fudge (ofReal x) = ofReal (guardReal fudge x) := by
  rw [guardComplex, Complex.norm_ofReal]
  obtain hle | hlt := le_or_gt fudge |x|
  · rw [if_pos (Scalar.le_iff.mpr hle), guardReal_of_le hle]
  · rw [if_neg fun h => (Scalar.le_iff.mp h).not_gt hlt]
    rfl

/-- A real exponent may be an integer exponent. -/
theorem complexPow_exponent_ofReal (fudge : ℝ) (z : Complex ℝ) (c : ℝ) :
    complexPow fudge z (ofReal c) = match integerExponent? c with
      | some n => if n < 0 then integerPower (guardComplex fudge z) n else integerPower z n
      | none => (guardComplex fudge z).powc (ofReal c) := by
  have him : Scalar.eq (ofReal c).im 0 = true := Scalar.eq_iff.mpr rfl
  rw [complexPow, if_pos him]
  rfl

/-- A power with an integer exponent. -/
theorem complexPow_ofReal {fudge x c : ℝ} {n : Int32} (hc : integerExponent? c = some n) :
    complexPow fudge (ofReal x) (ofReal c) = ofReal (realPow fudge x c) := by
  rw [complexPow_exponent_ofReal, realPow, hc]
  simp only [guardComplex_ofReal, integerPower_ofReal, apply_ite ofReal]

/-- A turn by an even multiple of the argument of a real number is none at all. -/
theorem cos_sin_even_mul_arg (x : ℝ) (k : ℤ) :
    Real.cos ((2 * k : ℤ) * (ofReal x).arg) = 1 ∧ Real.sin ((2 * k : ℤ) * (ofReal x).arg) = 0 := by
  change Real.cos ((2 * k : ℤ) * (x : ℂ).arg) = 1 ∧ Real.sin ((2 * k : ℤ) * (x : ℂ).arg) = 0
  obtain hx | hx := le_or_gt 0 x
  · rw [Complex.arg_ofReal_of_nonneg hx, mul_zero]
    exact ⟨Real.cos_zero, Real.sin_zero⟩
  · rw [Complex.arg_ofReal_of_neg hx]
    have hturns : ((2 * k : ℤ) : ℝ) * Real.pi = k * (2 * Real.pi) := by
      push_cast
      ring
    refine ⟨?_, Real.sin_int_mul_pi _⟩
    rw [hturns, Real.cos_int_mul_two_pi]

/-- **The principal value of an even power is the power of the magnitude.** -/
theorem Complex.powc_ofReal_even {x : ℝ} (hx : x ≠ 0) {k : ℤ} (hk : k ≠ 0) :
    (ofReal x).powc (ofReal (2 * k : ℤ)) = ofReal (|x| ^ ((2 * k : ℤ) : ℝ)) := by
  have hexponent : (ofReal ((2 * k : ℤ) : ℝ)).eq 0 = false := by
    have h : ((2 * k : ℤ) : ℝ) ≠ 0 := by exact_mod_cast mul_ne_zero two_ne_zero hk
    change (decide (((2 * k : ℤ) : ℝ) = 0) && _) = false
    rw [decide_eq_false h, Bool.false_and]
  obtain ⟨hcos, hsin⟩ := cos_sin_even_mul_arg x k
  have hlog : ofReal ((2 * k : ℤ) : ℝ) * (ofReal x).ln =
      ⟨Real.log |x| * (2 * k : ℤ), (2 * k : ℤ) * (ofReal x).arg⟩ := by
    change (⟨(2 * k : ℤ) * Real.log (ofReal x).norm - 0 * (ofReal x).arg,
      (2 * k : ℤ) * (ofReal x).arg + 0 * Real.log (ofReal x).norm⟩ : Complex ℝ) = _
    rw [norm_ofReal, zero_mul, zero_mul, sub_zero, add_zero, mul_comm]
  rw [powc, hexponent, hlog, Real.rpow_def_of_pos (abs_pos.mpr hx)]
  change (⟨Real.exp (Real.log |x| * (2 * k : ℤ)) * Real.cos ((2 * k : ℤ) * (ofReal x).arg),
    Real.exp (Real.log |x| * (2 * k : ℤ)) * Real.sin ((2 * k : ℤ) * (ofReal x).arg)⟩ :
      Complex ℝ) = _
  rw [hcos, hsin, mul_one, mul_zero]
  rfl

/-- An even power that is no integer power, of a base that does not end up at zero. -/
theorem complexPow_ofReal_even {fudge x : ℝ} (hx : 0 < fudge ∨ x ≠ 0) {k : ℤ}
    (hk : 2147483647 < (2 * k).natAbs) :
    complexPow fudge (ofReal x) (ofReal (2 * k : ℤ)) = ofReal (realPow fudge x (2 * k : ℤ)) := by
  rw [complexPow_exponent_ofReal, realPow, integerExponent?_eq_none_of_lt hk]
  simp only [guardComplex_ofReal]
  rw [Complex.powc_ofReal_even (guardReal_ne_zero hx) (by omega), abs_guardReal]
  rfl

end Reals
end CircuitExpr
