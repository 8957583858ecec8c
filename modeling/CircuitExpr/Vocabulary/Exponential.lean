/-
# Exponential functions, logarithms and roots

| function | derivative by `u` |
| --- | --- |
| `exp(u)` | `exp(u)` |
| `log(u)`, `ln(u)` | `1 / u` |
| `log10(u)` | `1 / (u ln 10)` |
| `sqrt(u)` | `0.5 / sqrt(u)` |
| `hypot(x, y)` | `x / hypot(x, y)` by `x`, `y / hypot(x, y)` by `y` |

Both `log` and `ln` are the natural logarithm.
-/

import CircuitExpr.NamedFunction
import CircuitExpr.Complex.Functions

namespace CircuitExpr
namespace Vocabulary

variable {ρ : Type} [Scalar ρ]

/-- The exponential function. -/
def exp : NamedFunction ρ :=
  .unary "exp" Scalar.exp Complex.exp fun u => .call "exp" [u]

/-- The natural logarithm, under one of its names. -/
def naturalLogarithm (name : String) : NamedFunction ρ :=
  .unary name Scalar.ln Complex.ln fun u => Expr.one / u

/-- The logarithm to base ten. -/
def log10 : NamedFunction ρ :=
  .unary "log10" Scalar.log10 Complex.log10 fun u => Expr.one / (u * .constant Scalar.ln10)

/-- The square root. -/
def sqrt : NamedFunction ρ :=
  .unary "sqrt" Scalar.sqrt Complex.sqrt fun u => .constant Scalar.half / .call "sqrt" [u]

/-- The complex number whose square is the sum of the squares. -/
def complexHypot (z w : Complex ρ) : Complex ρ := (z * z + w * w).sqrt

/-- The derivatives of the length of the hypotenuse. -/
def hypotPartials : List (Expr ρ) → List (Option (Expr ρ))
  | x :: y :: _ => [some (x / .call "hypot" [x, y]), some (y / .call "hypot" [x, y])]
  | _ => []

/-- The length of the hypotenuse over two legs. -/
def hypot : NamedFunction ρ :=
  ⟨"hypot", 2, some (.binary Scalar.hypot), some (.binary complexHypot),
    some (.partials hypotPartials)⟩

end Vocabulary
end CircuitExpr
