/-
# Numbers that notice a division by zero

In a field a quotient by zero is some number, so that its values do not tell whether a
computation divided by zero.  A *checked* number is a number, or *undefined*:

| operation | result |
| --- | --- |
| `x / 0`, `x % 0` | undefined |
| any other operation on numbers | that of the numbers |
| an operation on something undefined | undefined |

Checked numbers are a `Scalar` whenever the numbers are, so a tree can be built and run on
them like on any others.  Where it comes to a number no division has been by zero.

Sums, products, comparisons and the guard against small divisors are carried from numbers to
checked numbers as they are, and an integer power is if its base is not zero.
-/

import Mathlib
import CircuitExpr.Proofs.RealEmbedding

namespace CircuitExpr

/-- A number, or the outcome of a computation that divided by zero. -/
inductive Checked (ρ : Type) where
  /-- A division by zero was among the operations. -/
  | undefined
  /-- A number. -/
  | number (x : ρ)
deriving DecidableEq

namespace Checked

section Operations

variable {ρ : Type}

/-- An operation on one number. -/
def map (f : ρ → ρ) : Checked ρ → Checked ρ
  | number x => number (f x)
  | undefined => undefined

/-- An operation on two numbers. -/
def map₂ (f : ρ → ρ → ρ) : Checked ρ → Checked ρ → Checked ρ
  | number x, number y => number (f x y)
  | _, _ => undefined

/-- An operation that divides by the second number. -/
def divide [Scalar ρ] (f : ρ → ρ → ρ) : Checked ρ → Checked ρ → Checked ρ
  | number x, number y => if Scalar.eq y 0 then undefined else number (f x y)
  | _, _ => undefined

/-- A question about one number; nothing holds of something undefined. -/
def test (f : ρ → Bool) : Checked ρ → Bool
  | number x => f x
  | undefined => false

/-- A question about two numbers. -/
def test₂ (f : ρ → ρ → Bool) : Checked ρ → Checked ρ → Bool
  | number x, number y => f x y
  | _, _ => false

/-- The number, if there is one. -/
def number? : Checked ρ → Option ρ
  | number x => some x
  | undefined => none

/-- **Checked numbers are a `Scalar`.** -/
instance [Scalar ρ] : Scalar (Checked ρ) where
  zero := number 0
  one := number 1
  add := map₂ (· + ·)
  sub := map₂ (· - ·)
  mul := map₂ (· * ·)
  div := divide (· / ·)
  neg := map (- ·)
  mod := divide (· % ·)
  decEq :=
    letI : DecidableEq ρ := Scalar.decEq
    inferInstance
  key := map Scalar.key
  digest x := (x.number?.map Scalar.digest).getD 0
  ofDecimal m e := number (Scalar.ofDecimal m e)
  eq := test₂ Scalar.eq
  lt := test₂ Scalar.lt
  le := test₂ Scalar.le
  toInt? x := x.number?.bind Scalar.toInt?
  isNaN := test Scalar.isNaN
  isInf := test Scalar.isInf
  isNegative := test Scalar.isNegative
  nan := number Scalar.nan
  infinity := number Scalar.infinity
  ln10 := number Scalar.ln10
  abs := map Scalar.abs
  floor := map Scalar.floor
  ceil := map Scalar.ceil
  round := map Scalar.round
  trunc := map Scalar.trunc
  sqrt := map Scalar.sqrt
  exp := map Scalar.exp
  ln := map Scalar.ln
  log10 := map Scalar.log10
  sin := map Scalar.sin
  cos := map Scalar.cos
  tan := map Scalar.tan
  asin := map Scalar.asin
  acos := map Scalar.acos
  atan := map Scalar.atan
  sinh := map Scalar.sinh
  cosh := map Scalar.cosh
  tanh := map Scalar.tanh
  asinh := map Scalar.asinh
  acosh := map Scalar.acosh
  atanh := map Scalar.atanh
  pow := map₂ Scalar.pow
  hypot := map₂ Scalar.hypot
  atan2 := map₂ Scalar.atan2

/-- **A quotient is a number just if the divisor is a number that is not zero.** -/
theorem div_eq_number_iff [Scalar ρ] {x y : Checked ρ} {q : ρ} :
    x / y = number q ↔
      ∃ a b, x = number a ∧ y = number b ∧ ¬Scalar.eq b 0 = true ∧ a / b = q := by
  change divide (· / ·) x y = number q ↔ _
  cases x with
  | undefined => simp [divide]
  | number a =>
    cases y with
    | undefined => simp [divide]
    | number b =>
      by_cases hb : Scalar.eq b 0 = true <;> simp [divide, hb]

end Operations

/-! ### Exact numbers, checked -/

section Exact

variable {K : Type} [Field K] [LinearOrder K] [FloorRing K] [AnalyticFunctions K]

/-- A divisor that is not zero divides as it does without the check. -/
theorem number_div {x y : K} (hy : y ≠ 0) : number (x / y) = number x / number y :=
  (div_eq_number_iff.mpr ⟨x, y, rfl, rfl, mt Scalar.eq_iff.mp hy, rfl⟩).symm

/-- Guarding a divisor loses no check. -/
theorem guardReal_number (fudge x : K) :
    guardReal (number fudge) (number x) = number (guardReal fudge x) := by
  unfold guardReal
  rw [apply_ite number, apply_ite number]
  rfl

/-- Which exponents are whole numbers does not depend on checking. -/
theorem integerExponent?_number (c : K) : integerExponent? (number c) = integerExponent? c := rfl

/-- Natural powers of what is not zero are not zero. -/
theorem naturalPower_ne_zero {x : K} (hx : x ≠ 0) (n : ℕ) : naturalPower x n ≠ 0 := by
  rw [naturalPower_eq]
  exact pow_ne_zero n hx

/-- An integer power is checked once, at its reciprocal. -/
theorem integerPower_number {x : K} {n : Int32} (hx : n < 0 → x ≠ 0) :
    integerPower (number x) n = number (integerPower x n) :=
  integerPower_map rfl (fun _ _ => rfl) fun hn => number_div (naturalPower_ne_zero (hx hn) _)

/-- The guard keeps the power with an integer exponent from dividing by zero. -/
theorem realPow_number [IsStrictOrderedRing K] {fudge : K} (hfudge : 0 < fudge) (x : K) {c : K}
    {n : Int32} (hc : integerExponent? c = some n) :
    realPow (number fudge) (number x) (number c) = number (realPow fudge x c) := by
  rw [realPow, realPow, integerExponent?_number, hc]
  simp only [guardReal_number]
  by_cases hn : n < 0
  · rw [if_pos hn, if_pos hn, integerPower_number fun _ => guardReal_ne_zero (.inl hfudge)]
  · rw [if_neg hn, if_neg hn, integerPower_number fun h => absurd h hn]

end Exact
end Checked

/-! ### Complex numbers, checked -/

namespace Complex

open Checked (number)

variable {K : Type}

/-- A complex number with both parts checked. -/
def checked {ρ : Type} (z : Complex ρ) : Complex (Checked ρ) := ⟨number z.re, number z.im⟩

variable [Field K] [LinearOrder K] [FloorRing K] [AnalyticFunctions K]

/-- A quotient divides both parts by the square of the modulus. -/
theorem checked_div {z w : Complex K} (hw : w.normSquare ≠ 0) :
    (z / w).checked = z.checked / w.checked := by
  change (⟨number ((z.re * w.re + z.im * w.im) / w.normSquare),
    number ((z.im * w.re - z.re * w.im) / w.normSquare)⟩ : Complex (Checked K)) = _
  rw [Checked.number_div hw, Checked.number_div hw]
  rfl

/-- Squares of absolute values multiply. -/
theorem normSquare_mul (z w : Complex K) : (z * w).normSquare = z.normSquare * w.normSquare := by
  change (z.re * w.re - z.im * w.im) * (z.re * w.re - z.im * w.im) +
    (z.re * w.im + z.im * w.re) * (z.re * w.im + z.im * w.re) =
    (z.re * z.re + z.im * z.im) * (w.re * w.re + w.im * w.im)
  ring

/-- Natural powers keep away from zero. -/
theorem normSquare_naturalPower_ne_zero {z : Complex K} (hz : z.normSquare ≠ 0) (n : ℕ) :
    (naturalPower z n).normSquare ≠ 0 := by
  have hone : (1 : Complex K).normSquare = 1 := by
    change (1 : K) * 1 + 0 * 0 = 1
    rw [mul_one, mul_zero, add_zero]
  rw [naturalPower, ← powerLoop_map normSquare_mul, hone]
  exact Checked.naturalPower_ne_zero hz n

/-- Repeated products of complex numbers lose no check, unless the base of a negative power is
zero. -/
theorem integerPower_checked {z : Complex K} {n : Int32} (hz : n < 0 → z.normSquare ≠ 0) :
    integerPower z.checked n = (integerPower z n).checked :=
  integerPower_map rfl (fun _ _ => rfl) fun hn =>
    checked_div (normSquare_naturalPower_ne_zero (hz hn) _)

/-- Guarding a complex divisor loses no check. -/
theorem guardComplex_checked (fudge : K) (z : Complex K) :
    guardComplex (number fudge) z.checked = (guardComplex fudge z).checked := by
  unfold guardComplex
  rw [apply_ite checked]
  change (if Scalar.le fudge z.norm = true then z.checked
    else ⟨guardReal (number fudge) (number z.re), number z.im⟩) = _
  rw [Checked.guardReal_number]
  rfl

end Complex
end CircuitExpr
