/-
# Elementary functions of complex numbers

Principal values throughout.  The exponential function takes its limits at infinite
real parts, the square root keeps the side of its cut that a signed zero shows, and
the inverse tangents are infinite at their poles.
-/

import CircuitExpr.Complex

namespace CircuitExpr
namespace Complex

variable {ρ : Type} [Scalar ρ]

open Scalar (two)

/-- Is a number neither infinite nor undefined? -/
def isFinite (x : ρ) : Bool := !Scalar.isInf x && !Scalar.isNaN x

/-- The exponential function.  An infinite real part decides, unless the imaginary
part says in which direction. -/
def exp (z : Complex ρ) : Complex ρ :=
  let polar := fromPolar (Scalar.exp z.re) z.im
  if Scalar.isInf z.re then
    if Scalar.lt z.re 0 then
      if isFinite z.im then polar else 0
    else if Scalar.eq z.im 0 || !isFinite z.im then
      ⟨z.re, if Scalar.isInf z.im then Scalar.nan else z.im⟩
    else polar
  else if Scalar.isNaN z.re && Scalar.eq z.im 0 then z
  else polar

/-- The natural logarithm. -/
def ln (z : Complex ρ) : Complex ρ := ⟨Scalar.ln z.norm, z.arg⟩

/-- The logarithm to base ten. -/
def log10 (z : Complex ρ) : Complex ρ := ⟨z.ln.re / Scalar.ln10, z.ln.im / Scalar.ln10⟩

/-- The number with the sign of `z`, which may be a zero. -/
def withSignOf (z x : ρ) : ρ := if Scalar.isNegative z then -x else x

/-- The square root.  Without an imaginary part the sign of the real part decides,
that of a zero or of a NaN as well. -/
def sqrt (z : Complex ρ) : Complex ρ :=
  if Scalar.eq z.im 0 then
    if Scalar.isNegative z.re then ⟨0, withSignOf z.im (Scalar.sqrt (-z.re))⟩
    else ⟨Scalar.sqrt z.re, z.im⟩
  else if Scalar.eq z.re 0 then
    let x := Scalar.sqrt (Scalar.abs z.im / two)
    ⟨x, withSignOf z.im x⟩
  else fromPolar (Scalar.sqrt z.norm) (z.arg / two)

/-- The power with a complex exponent; one if the exponent is zero. -/
def powc (z w : Complex ρ) : Complex ρ := if w.eq 0 then 1 else exp (w * z.ln)

/-- The sine. -/
def sin (z : Complex ρ) : Complex ρ :=
  ⟨Scalar.sin z.re * Scalar.cosh z.im, Scalar.cos z.re * Scalar.sinh z.im⟩

/-- The cosine. -/
def cos (z : Complex ρ) : Complex ρ :=
  ⟨Scalar.cos z.re * Scalar.cosh z.im, -Scalar.sin z.re * Scalar.sinh z.im⟩

/-- The tangent. -/
def tan (z : Complex ρ) : Complex ρ :=
  let a := z.re + z.re
  let b := z.im + z.im
  let n := Scalar.cos a + Scalar.cosh b
  ⟨Scalar.sin a / n, Scalar.sinh b / n⟩

/-- The hyperbolic sine. -/
def sinh (z : Complex ρ) : Complex ρ :=
  ⟨Scalar.sinh z.re * Scalar.cos z.im, Scalar.cosh z.re * Scalar.sin z.im⟩

/-- The hyperbolic cosine. -/
def cosh (z : Complex ρ) : Complex ρ :=
  ⟨Scalar.cosh z.re * Scalar.cos z.im, Scalar.sinh z.re * Scalar.sin z.im⟩

/-- The hyperbolic tangent. -/
def tanh (z : Complex ρ) : Complex ρ :=
  let a := z.re + z.re
  let b := z.im + z.im
  let n := Scalar.cosh a + Scalar.cos b
  ⟨Scalar.sinh a / n, Scalar.sin b / n⟩

/-- The inverse sine. -/
def asin (z : Complex ρ) : Complex ρ := -i * ln (sqrt (1 - z * z) + i * z)

/-- The inverse cosine. -/
def acos (z : Complex ρ) : Complex ρ := -i * ln (i * sqrt (1 - z * z) + z)

/-- The inverse tangent. -/
def atan (z : Complex ρ) : Complex ρ :=
  if z.eq i then ⟨0, Scalar.infinity⟩
  else if z.eq (-i) then ⟨0, -Scalar.infinity⟩
  else (ln (1 + i * z) - ln (1 - i * z)) / ((1 + 1) * i)

/-- The inverse hyperbolic sine. -/
def asinh (z : Complex ρ) : Complex ρ := ln (z + sqrt (1 + z * z))

/-- The inverse hyperbolic cosine. -/
def acosh (z : Complex ρ) : Complex ρ :=
  (1 + 1) * ln (sqrt ((z + 1) / (1 + 1)) + sqrt ((z - 1) / (1 + 1)))

/-- The inverse hyperbolic tangent. -/
def atanh (z : Complex ρ) : Complex ρ :=
  if z.eq 1 then ⟨Scalar.infinity, 0⟩
  else if z.eq (-1) then ⟨-Scalar.infinity, 0⟩
  else (ln (1 + z) - ln (1 - z)) / (1 + 1)

end Complex
end CircuitExpr
