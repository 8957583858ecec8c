/-
# Exact arithmetic

The laws of the derivative hold of numbers that are computed exactly, and these are the
elements of an ordered field in which every number has an integer part.  Such a field is
a `Scalar`: sums, products, quotients, comparisons and roundings are its own.

| operation | in the field |
| --- | --- |
| `trunc x` | the integer part toward zero |
| `round x` | the nearest integer, a half going away from zero |
| `x % y` | `x - trunc (x / y) * y` |
| `toInt? x` | the integer part of `x`, if `x` is equal to it |

A field need not have logarithms and sines.  They are parameters, `AnalyticFunctions`,
and nothing is asked of them.

With the guard zero no divisor is moved, and an integer power, which is computed by
repeated squaring, is the power of the field.

The real numbers with the functions of analysis are such a field.
-/

import Mathlib
import CircuitExpr.Backend.Real
import CircuitExpr.Proofs.RepeatedSquaring

namespace CircuitExpr

/-- The functions that an ordered field need not have. -/
class AnalyticFunctions (K : Type) where
  /-- A word by which constants are looked up quickly. -/
  digest : K → UInt64
  /-- The result of an undefined operation. -/
  nan : K
  /-- The limit above all numbers. -/
  infinity : K
  /-- The natural logarithm of ten. -/
  ln10 : K
  /-- The square root. -/
  sqrt : K → K
  /-- The exponential function. -/
  exp : K → K
  /-- The natural logarithm. -/
  ln : K → K
  /-- The logarithm to base ten. -/
  log10 : K → K
  /-- The sine. -/
  sin : K → K
  /-- The cosine. -/
  cos : K → K
  /-- The tangent. -/
  tan : K → K
  /-- The inverse sine. -/
  asin : K → K
  /-- The inverse cosine. -/
  acos : K → K
  /-- The inverse tangent. -/
  atan : K → K
  /-- The hyperbolic sine. -/
  sinh : K → K
  /-- The hyperbolic cosine. -/
  cosh : K → K
  /-- The hyperbolic tangent. -/
  tanh : K → K
  /-- The inverse hyperbolic sine. -/
  asinh : K → K
  /-- The inverse hyperbolic cosine. -/
  acosh : K → K
  /-- The inverse hyperbolic tangent. -/
  atanh : K → K
  /-- The first number raised to the second. -/
  pow : K → K → K
  /-- The length of the hypotenuse over two legs. -/
  hypot : K → K → K
  /-- The angle of the point whose ordinate comes first and abscissa second. -/
  atan2 : K → K → K

/-! ### An ordered field -/

variable {K : Type} [Field K] [LinearOrder K] [FloorRing K]

namespace Exact

/-- The nearest integer toward zero. -/
def trunc (x : K) : K := if x < 0 then ⌈x⌉ else ⌊x⌋

/-- The nearest integer, a half going away from zero. -/
def round (x : K) : K := if x < 0 then ⌈x - 1 / 2⌉ else ⌊x + 1 / 2⌋

/-- The integer that a number is, if it is one. -/
def toInt? (x : K) : Option ℤ := if (⌊x⌋ : K) = x then some ⌊x⌋ else none

/-- A number is whole if it is the image of an integer. -/
theorem toInt?_eq_some [IsStrictOrderedRing K] {x : K} {n : ℤ} : toInt? x = some n ↔ x = n := by
  unfold toInt?
  constructor
  · intro h
    split at h
    · rename_i hx
      cases h
      exact hx.symm
    · cases h
  · rintro rfl
    simp

end Exact

/-- **An ordered field with integer parts is a `Scalar`.** -/
instance exactScalar [AnalyticFunctions K] : Scalar K where
  mod a b := a - Exact.trunc (a / b) * b
  decEq := inferInstance
  key := id
  digest := AnalyticFunctions.digest
  ofDecimal m e := m * 10 ^ e
  eq a b := decide (a = b)
  lt a b := decide (a < b)
  le a b := decide (a ≤ b)
  toInt? := Exact.toInt?
  isNaN _ := false
  isInf _ := false
  isNegative x := decide (x < 0)
  nan := AnalyticFunctions.nan
  infinity := AnalyticFunctions.infinity
  ln10 := AnalyticFunctions.ln10
  abs x := |x|
  floor x := ⌊x⌋
  ceil x := ⌈x⌉
  round := Exact.round
  trunc := Exact.trunc
  sqrt := AnalyticFunctions.sqrt
  exp := AnalyticFunctions.exp
  ln := AnalyticFunctions.ln
  log10 := AnalyticFunctions.log10
  sin := AnalyticFunctions.sin
  cos := AnalyticFunctions.cos
  tan := AnalyticFunctions.tan
  asin := AnalyticFunctions.asin
  acos := AnalyticFunctions.acos
  atan := AnalyticFunctions.atan
  sinh := AnalyticFunctions.sinh
  cosh := AnalyticFunctions.cosh
  tanh := AnalyticFunctions.tanh
  asinh := AnalyticFunctions.asinh
  acosh := AnalyticFunctions.acosh
  atanh := AnalyticFunctions.atanh
  pow := AnalyticFunctions.pow
  hypot := AnalyticFunctions.hypot
  atan2 := AnalyticFunctions.atan2

/-! ### Comparisons -/

variable [AnalyticFunctions K]

/-- Numbers compare as equal if they are equal. -/
@[simp]
theorem Scalar.eq_iff {a b : K} : Scalar.eq a b = true ↔ a = b := decide_eq_true_iff

/-- Numbers compare as different if they are different. -/
@[simp]
theorem Scalar.ne_iff {a b : K} : Scalar.ne a b = true ↔ a ≠ b := by
  simp [Scalar.ne, Scalar.eq]

/-- Numbers compare as less if they are less. -/
@[simp]
theorem Scalar.lt_iff {a b : K} : Scalar.lt a b = true ↔ a < b := decide_eq_true_iff

/-- Numbers compare as at most if they are at most. -/
@[simp]
theorem Scalar.le_iff {a b : K} : Scalar.le a b = true ↔ a ≤ b := decide_eq_true_iff

/-- Exact numbers count as one only if they are equal. -/
theorem Scalar.eq_of_same {a b : K} (h : Scalar.same a b = true) : a = b :=
  Scalar.same_iff.mp h

/-! ### Constants of the derivative rules -/

/-- The constant two is two. -/
theorem Scalar.two_eq : (Scalar.two : K) = 2 := by
  change ((2 : ℕ) : K) * 10 ^ (0 : ℤ) = 2
  rw [zpow_zero, mul_one, Nat.cast_ofNat]

/-- The constant one half is one half. -/
theorem Scalar.half_eq : (Scalar.half : K) = 1 / 2 := by
  change ((5 : ℕ) : K) * 10 ^ (-1 : ℤ) = 1 / 2
  rw [zpow_neg_one]
  norm_num

/-! ### Guards and integer exponents -/

variable [IsStrictOrderedRing K]

/-- With the guard zero every number is left alone. -/
@[simp]
theorem guardReal_zero (x : K) : guardReal 0 x = x :=
  if_pos (Scalar.le_iff.mpr (abs_nonneg x))

/-- An integer of at most 31 bits is found as an exponent. -/
theorem integerExponent?_intCast {n : ℤ} (hn : n.natAbs ≤ 2147483647) :
    integerExponent? (n : K) = some (Int32.ofInt n) := by
  have h : Scalar.toInt? (n : K) = some n := Exact.toInt?_eq_some.mpr rfl
  unfold integerExponent?
  rw [h]
  exact if_pos hn

/-- An integer of at most 31 bits is read back from 32. -/
theorem toInt_ofInt_of_natAbs_le {n : ℤ} (hn : n.natAbs ≤ 2147483647) :
    (Int32.ofInt n).toInt = n := by
  rw [Int32.toInt_ofInt]
  exact Int.bmod_eq_of_le (by simp only [Int32.size]; omega) (by simp only [Int32.size]; omega)

/-- The power of the real numbers, at an integer. -/
theorem realPow_intCast (x : K) {n : ℤ} (hn : n.natAbs ≤ 2147483647) :
    realPow 0 x (n : K) = x ^ n := by
  unfold realPow
  rw [integerExponent?_intCast hn]
  simp only [guardReal_zero, ite_self]
  rw [integerPower_eq, toInt_ofInt_of_natAbs_le hn]

/-! ### The real numbers -/

/-- The functions of analysis on the real numbers.  There is no undefined result and no
infinity among them. -/
noncomputable instance realFunctions : AnalyticFunctions ℝ where
  digest _ := 0
  nan := 0
  infinity := 0
  ln10 := Real.log 10
  sqrt := Real.sqrt
  exp := Real.exp
  ln := Real.log
  log10 := Real.logb 10
  sin := Real.sin
  cos := Real.cos
  tan := Real.tan
  asin := Real.arcsin
  acos := Real.arccos
  atan := Real.arctan
  sinh := Real.sinh
  cosh := Real.cosh
  tanh := Real.tanh
  asinh := Real.arsinh
  acosh := Real.arcosh
  atanh := Real.artanh
  pow x y := x ^ y
  hypot x y := Real.sqrt (x ^ 2 + y ^ 2)
  atan2 y x := (⟨x, y⟩ : ℂ).arg

end CircuitExpr
