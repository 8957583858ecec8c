/-
# Complex numbers

Pairs of numbers with the usual arithmetic, written out so that every rounding is
in its place.  With `z = a + b i` and `w = c + d i`:

| operation | real part | imaginary part |
| --- | --- | --- |
| `z * w` | `a c - b d` | `a d + b c` |
| `z / w`, with `n = c c + d d` | `(a c + b d) / n` | `(b c - a d) / n` |
| `z % w` | both parts of `z - w g`, with `g` the quotient, each part truncated | |

Nothing is scaled, so a quotient overflows when `n` does.
-/

import CircuitExpr.Scalar

namespace CircuitExpr

/-- A complex number. -/
structure Complex (ρ : Type) where
  /-- The real part. -/
  re : ρ
  /-- The imaginary part. -/
  im : ρ

namespace Complex

variable {ρ : Type} [Scalar ρ]

/-- A real number as a complex one. -/
def ofReal (x : ρ) : Complex ρ := ⟨x, 0⟩

/-- The imaginary unit. -/
def i : Complex ρ := ⟨0, 1⟩

instance : Zero (Complex ρ) := ⟨⟨0, 0⟩⟩
instance : One (Complex ρ) := ⟨⟨1, 0⟩⟩
instance : Neg (Complex ρ) := ⟨fun z => ⟨-z.re, -z.im⟩⟩
instance : Add (Complex ρ) := ⟨fun z w => ⟨z.re + w.re, z.im + w.im⟩⟩
instance : Sub (Complex ρ) := ⟨fun z w => ⟨z.re - w.re, z.im - w.im⟩⟩
instance : Mul (Complex ρ) :=
  ⟨fun z w => ⟨z.re * w.re - z.im * w.im, z.re * w.im + z.im * w.re⟩⟩

/-- The square of the modulus, as quotients use it. -/
def normSquare (z : Complex ρ) : ρ := z.re * z.re + z.im * z.im

instance : Div (Complex ρ) :=
  ⟨fun z w => ⟨(z.re * w.re + z.im * w.im) / w.normSquare,
    (z.im * w.re - z.re * w.im) / w.normSquare⟩⟩

/-- Both parts truncated, as what a whole number of ones leaves. -/
def truncate (z : Complex ρ) : Complex ρ := ⟨z.re - z.re % 1, z.im - z.im % 1⟩

instance : Mod (Complex ρ) := ⟨fun z w => z - w * (z / w).truncate⟩

/-- A complex number times a real one. -/
def scale (z : Complex ρ) (x : ρ) : Complex ρ := ⟨z.re * x, z.im * x⟩

/-- Are both parts equal? -/
def eq (z w : Complex ρ) : Bool := Scalar.eq z.re w.re && Scalar.eq z.im w.im

/-- The modulus. -/
def norm (z : Complex ρ) : ρ := Scalar.hypot z.re z.im

/-- The argument. -/
def arg (z : Complex ρ) : ρ := Scalar.atan2 z.im z.re

/-- The number with the given modulus and argument. -/
def fromPolar (r t : ρ) : Complex ρ := ⟨r * Scalar.cos t, r * Scalar.sin t⟩

end Complex
end CircuitExpr
