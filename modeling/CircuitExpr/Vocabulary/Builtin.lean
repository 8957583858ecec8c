/-
# The built-in vocabulary

The functions that every expression may use, and the constants `pi` and `e`.

The time derivative `ddt` and the time integral `idt` are linear, so the derivative
of a call is a call on the derivative.  They have no values of their own: those
depend on the method of integration, or on the frequency.
-/

import CircuitExpr.Vocabulary
import CircuitExpr.Vocabulary.Exponential
import CircuitExpr.Vocabulary.Power
import CircuitExpr.Vocabulary.Trigonometric
import CircuitExpr.Vocabulary.Selection

namespace CircuitExpr
namespace Vocabulary

variable {ρ : Type} [Scalar ρ]

/-- The derivative of a linear operator in time. -/
def linearDerivative (name : String) :
    List (Expr ρ) → List (Option (Expr ρ)) → Option (Expr ρ)
  | _, some d :: _ => some (.call name [d])
  | _, _ => none

/-- A linear operator in time, without values. -/
def linearInTime (name : String) : NamedFunction ρ :=
  ⟨name, 1, none, none, some (.direct (linearDerivative name))⟩

/-- The built-in functions. -/
def builtinFunctions : List (NamedFunction ρ) :=
  [exp, naturalLogarithm "log", naturalLogarithm "ln", log10, sqrt, hypot, pow, pwr,
    sin, cos, tan, asin, acos, atan, sinh, cosh, tanh, asinh, acosh, atanh, atan2, abs]
    ++ roundings ++ [min, max, limit, linearInTime "ddt", linearInTime "idt"]

/-- The vocabulary that every expression may use. -/
def builtin : Vocabulary ρ :=
  let functions := empty.registerAll builtinFunctions
  let withPi := functions.define "pi" (Scalar.ofDecimal 3141592653589793 (-15))
  withPi.define "e" (Scalar.ofDecimal 2718281828459045 (-15))

end Vocabulary
end CircuitExpr
