/-
# Circular and hyperbolic functions

| function | derivative by `u` | inverse | derivative by `u` |
| --- | --- | --- | --- |
| `sin(u)` | `cos(u)` | `asin(u)` | `1 / sqrt(1 - u ^ 2)` |
| `cos(u)` | `-sin(u)` | `acos(u)` | `-1 / sqrt(1 - u ^ 2)` |
| `tan(u)` | `1 / cos(u) ^ 2` | `atan(u)` | `1 / (1 + u ^ 2)` |
| `sinh(u)` | `cosh(u)` | `asinh(u)` | `1 / sqrt(u ^ 2 + 1)` |
| `cosh(u)` | `sinh(u)` | `acosh(u)` | `1 / sqrt(u ^ 2 - 1)` |
| `tanh(u)` | `1 - tanh(u) ^ 2` | `atanh(u)` | `1 / (1 - u ^ 2)` |

The angle `atan2(y, x)` has the derivatives `x / (x ^ 2 + y ^ 2)` by `y` and
`-y / (x ^ 2 + y ^ 2)` by `x`; of complex arguments it takes the real parts.
-/

import CircuitExpr.NamedFunction
import CircuitExpr.Complex.Functions

namespace CircuitExpr
namespace Vocabulary

variable {ρ : Type} [Scalar ρ]

/-- The square of an expression. -/
def square (u : Expr ρ) : Expr ρ := u.pow (.constant Scalar.two)

/-- The square root of an expression. -/
def root (u : Expr ρ) : Expr ρ := .call "sqrt" [u]

/-- The sine. -/
def sin : NamedFunction ρ := .unary "sin" Scalar.sin Complex.sin fun u => .call "cos" [u]

/-- The cosine. -/
def cos : NamedFunction ρ := .unary "cos" Scalar.cos Complex.cos fun u => -.call "sin" [u]

/-- The tangent. -/
def tan : NamedFunction ρ :=
  .unary "tan" Scalar.tan Complex.tan fun u => Expr.one / square (.call "cos" [u])

/-- The inverse sine. -/
def asin : NamedFunction ρ :=
  .unary "asin" Scalar.asin Complex.asin fun u => Expr.one / root (Expr.one - square u)

/-- The inverse cosine. -/
def acos : NamedFunction ρ :=
  .unary "acos" Scalar.acos Complex.acos fun u => .constant (-1) / root (Expr.one - square u)

/-- The inverse tangent. -/
def atan : NamedFunction ρ :=
  .unary "atan" Scalar.atan Complex.atan fun u => Expr.one / (Expr.one + square u)

/-- The hyperbolic sine. -/
def sinh : NamedFunction ρ := .unary "sinh" Scalar.sinh Complex.sinh fun u => .call "cosh" [u]

/-- The hyperbolic cosine. -/
def cosh : NamedFunction ρ := .unary "cosh" Scalar.cosh Complex.cosh fun u => .call "sinh" [u]

/-- The hyperbolic tangent. -/
def tanh : NamedFunction ρ :=
  .unary "tanh" Scalar.tanh Complex.tanh fun u => Expr.one - square (.call "tanh" [u])

/-- The inverse hyperbolic sine. -/
def asinh : NamedFunction ρ :=
  .unary "asinh" Scalar.asinh Complex.asinh fun u => Expr.one / root (square u + Expr.one)

/-- The inverse hyperbolic cosine. -/
def acosh : NamedFunction ρ :=
  .unary "acosh" Scalar.acosh Complex.acosh fun u => Expr.one / root (square u - Expr.one)

/-- The inverse hyperbolic tangent. -/
def atanh : NamedFunction ρ :=
  .unary "atanh" Scalar.atanh Complex.atanh fun u => Expr.one / (Expr.one - square u)

/-- The angle of the point with these real parts as coordinates. -/
def complexAtan2 (z w : Complex ρ) : Complex ρ := ⟨Scalar.atan2 z.re w.re, 0⟩

/-- The derivatives of the angle of a point by its ordinate and its abscissa. -/
def atan2Partials : List (Expr ρ) → List (Option (Expr ρ))
  | y :: x :: _ => [some (x / (square x + square y)), some (-y / (square x + square y))]
  | _ => []

/-- The angle of a point. -/
def atan2 : NamedFunction ρ :=
  ⟨"atan2", 2, some (.binary Scalar.atan2), some (.binary complexAtan2),
    some (.partials atan2Partials)⟩

end Vocabulary
end CircuitExpr
