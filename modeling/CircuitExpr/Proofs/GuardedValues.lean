/-
# Values under a guard

The real backend moves divisors away from zero: a divisor of at least the magnitude of the
guard is left alone, a smaller one grows by the guard.  So a tree has a value at every
point, and operators yield

| tree | value |
| --- | --- |
| `x + y`, `x - y`, `x * y` | the sum, difference and product |
| `x / y` | `a / guardReal fudge b` |
| `x ^ y` | `realPow fudge a b` |

and what folds yields the same, where the divisor is large enough to be left alone.
-/

import Mathlib
import CircuitExpr.Proofs.TreeValues
import CircuitExpr.Proofs.Valuations

namespace CircuitExpr

variable {K S : Type} [Field K] [LinearOrder K] [FloorRing K] [AnalyticFunctions K]

/-! ### The guard -/

/-- A number of at least the magnitude of the guard is left alone. -/
theorem guardReal_of_le {fudge x : K} (h : fudge ≤ |x|) : guardReal fudge x = x :=
  if_pos (Scalar.le_iff.mpr h)

/-- A smaller number that is not negative grows by the guard. -/
theorem guardReal_of_lt {fudge x : K} (h : |x| < fudge) (hx : 0 ≤ x) :
    guardReal fudge x = x + fudge := by
  have hle : ¬Scalar.le fudge (Scalar.abs x) = true := fun hle => (Scalar.le_iff.mp hle).not_gt h
  have hlt : ¬Scalar.lt x 0 = true := fun hlt => (Scalar.lt_iff.mp hlt).not_ge hx
  rw [guardReal, if_neg hle, if_neg hlt]

/-! ### Powers -/

section Powers

/-- A power whose exponent counts as the integer zero. -/
theorem realPow_of_integerExponent?_eq_zero (fudge x : K) {c : K}
    (h : integerExponent? c = some 0) : realPow fudge x c = 1 := by
  unfold realPow
  rw [h]
  rfl

/-- A power whose exponent is no integer is that of the magnitude. -/
theorem realPow_of_integerExponent?_eq_none [IsStrictOrderedRing K] {fudge x c : K}
    (hc : integerExponent? c = none) (hx : fudge ≤ |x|) :
    realPow fudge x c = AnalyticFunctions.pow |x| c := by
  unfold realPow
  rw [hc]
  change AnalyticFunctions.pow (guardReal fudge |x|) c = _
  rw [guardReal_of_le (by rwa [abs_abs])]

/-- A power with an integer exponent, of a base that is left alone, is the power of the
field. -/
theorem realPow_of_integerExponent? {fudge x c : K} {n : Int32} (hc : integerExponent? c = some n)
    (hx : fudge ≤ |x|) : realPow fudge x c = x ^ n.toInt := by
  unfold realPow
  rw [hc]
  simp only [guardReal_of_le hx, ite_self]
  exact integerPower_eq x n

omit [Field K] [LinearOrder K] [FloorRing K] [AnalyticFunctions K] in
/-- The integer exponent of a number is the integer that it is, of at most 31 bits. -/
theorem integerExponent?_eq_some_iff [Scalar K] {c : K} {n : Int32} :
    integerExponent? c = some n ↔
      Scalar.toInt? c = some n.toInt ∧ n.toInt.natAbs ≤ 2147483647 := by
  unfold integerExponent?
  constructor
  · intro h
    split at h
    · rename_i k hk
      split at h
      · rename_i hle
        obtain rfl := Option.some.inj h
        rw [toInt_ofInt_of_natAbs_le hle]
        exact ⟨hk, hle⟩
      · cases h
    · cases h
  · rintro ⟨h, hle⟩
    simp only [h]
    rw [if_pos hle, Int32.ofInt_toInt]

/-- An integer exponent is an integer of at most 31 bits. -/
theorem integerExponent?_eq_some [IsStrictOrderedRing K] {c : K} {n : Int32}
    (hc : integerExponent? c = some n) :
    c = (n.toInt : K) ∧ n.toInt.natAbs ≤ 2147483647 :=
  (integerExponent?_eq_some_iff.mp hc).imp_left Exact.toInt?_eq_some.mp

/-- What is no integer is no integer exponent. -/
theorem integerExponent?_eq_none [IsStrictOrderedRing K] {x : K} (h : ∀ n : ℤ, x ≠ n) :
    integerExponent? x = none := by
  unfold integerExponent?
  cases hn : Scalar.toInt? x with
  | none => rfl
  | some n => exact absurd (Exact.toInt?_eq_some.mp hn) (h n)

variable [IsStrictOrderedRing K]

/-- A power whose exponent is one. -/
theorem realPow_one (fudge x : K) : realPow fudge x 1 = x := by
  have h : integerExponent? (1 : K) = some 1 := by
    simpa using integerExponent?_intCast (K := K) (n := 1) (by decide)
  unfold realPow
  rw [h]
  rfl

/-- A power whose exponent is zero. -/
theorem realPow_zero (fudge x : K) : realPow fudge x 0 = 1 := by
  refine realPow_of_integerExponent?_eq_zero fudge x ?_
  simpa using integerExponent?_intCast (K := K) (n := 0) (by decide)

end Powers

/-! ### What trees yield -/

namespace Expr.Yields

variable {w : Vocabulary K} {fudge : K} {p : Point S K} {x y : Expr K} {a b : K}

/-- A constant is worth itself. -/
theorem constant (c : K) : Yields ⟨w, .real fudge⟩ p (.constant c) c := ofReal c

/-- A quotient is worth the quotient by the guarded divisor. -/
theorem plain_div (hx : Yields ⟨w, .real fudge⟩ p x a) (hy : Yields ⟨w, .real fudge⟩ p y b) :
    Yields ⟨w, .real fudge⟩ p (.binary .div x y) (a / guardReal fudge b) :=
  combine .div (by decide) (by decide) (by decide) hx hy

/-- **What trees yield is a valuation.** -/
theorem valuation : Valuation (Yields ⟨w, .real fudge⟩ p) where
  constant := constant
  unique h φ _ hx := by rwa [h.unique (constant _)]
  minus hx := ⟨buildable_unary.mpr hx.buildable, by
    rw [valueIn?_minus, hx.value]
    rfl⟩
  operand hx := by
    refine ⟨buildable_unary.mp hx.buildable, ?_⟩
    have hvalue := hx.value
    rw [valueIn?_minus, Option.map_eq_some_iff] at hvalue
    obtain ⟨b, hb, rfl⟩ := hvalue
    rw [hb]
    exact congrArg some (neg_neg b).symm
  plain_add := combine .add (by decide) (by decide) (by decide)
  plain_sub := combine .sub (by decide) (by decide) (by decide)
  plain_mul := combine .mul (by decide) (by decide) (by decide)

/-- A quotient by a divisor that is left alone. -/
theorem div (hx : Yields ⟨w, .real fudge⟩ p x a) (hy : Yields ⟨w, .real fudge⟩ p y b)
    (hb : fudge ≤ |b|) : Yields ⟨w, .real fudge⟩ p (x / y) (a / b) :=
  valuation.div hx hy (by
    have h := hx.plain_div hy
    rwa [guardReal_of_le hb] at h)

/-- A quotient by a tree that is no constant. -/
theorem div_guarded (hx : Yields ⟨w, .real fudge⟩ p x a) (hy : Yields ⟨w, .real fudge⟩ p y b)
    (hconstant : y.asConstant? = none) :
    Yields ⟨w, .real fudge⟩ p (x / y) (a / guardReal fudge b) := by
  change Yields _ p (Expr.div x y) _
  unfold Expr.div
  cases hc : x.asConstant? with
  | none =>
    simp only [hconstant]
    exact hx.plain_div hy
  | some c =>
    simp only [hconstant]
    split
    · rename_i h0
      refine valuation.unique_of_asConstant? hx hc (· / guardReal fudge b) ?_
      rw [Scalar.eq_iff.mp h0, zero_div]
      exact constant 0
    · exact hx.plain_div hy

/-- A power is worth the power of the values, whether its exponent is known beforehand or not. -/
theorem plain_pow (hx : Yields ⟨w, .real fudge⟩ p x a) (hy : Yields ⟨w, .real fudge⟩ p y b) :
    Yields ⟨w, .real fudge⟩ p (.binary .pow x y) (realPow fudge a b) := by
  refine hx.power hy fun hzero => ?_
  rw [isZeroExponent, beq_iff_eq, Option.bind_eq_some_iff] at hzero
  obtain ⟨c, hc, hzero⟩ := hzero
  obtain rfl := asConstant?_eq_some.mp hc
  rw [hy.unique (constant c)]
  exact realPow_of_integerExponent?_eq_zero fudge a hzero

/-- A power, if two constants fold to it. -/
theorem pow_of_constants [IsStrictOrderedRing K] (hx : Yields ⟨w, .real fudge⟩ p x a)
    (hy : Yields ⟨w, .real fudge⟩ p y b)
    (hfold : x.asConstant? ≠ none → AnalyticFunctions.pow a b = realPow fudge a b) :
    Yields ⟨w, .real fudge⟩ p (x.pow y) (realPow fudge a b) := by
  unfold Expr.pow
  split
  · rename_i e he
    obtain rfl := asConstant?_eq_some.mp he
    obtain rfl := hy.unique (constant e)
    split_ifs with h1 h0
    · rwa [Scalar.eq_iff.mp h1, realPow_one]
    · rw [Scalar.eq_iff.mp h0, realPow_zero]
      exact constant 1
    · split
      · rename_i c hc
        rw [← hfold (Option.ne_none_iff_exists'.mpr ⟨c, hc⟩)]
        exact valuation.unique_of_asConstant? hx hc (AnalyticFunctions.pow · b) (constant _)
      · exact hx.plain_pow hy
  · exact hx.plain_pow hy

/-- A power of a tree that is no constant. -/
theorem pow [IsStrictOrderedRing K] (hx : Yields ⟨w, .real fudge⟩ p x a)
    (hconstant : x.asConstant? = none) (hy : Yields ⟨w, .real fudge⟩ p y b) :
    Yields ⟨w, .real fudge⟩ p (x.pow y) (realPow fudge a b) :=
  hx.pow_of_constants hy fun h => absurd hconstant h

end Expr.Yields
end CircuitExpr
