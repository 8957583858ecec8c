/-
# Errors of equations

An equation fails when it is made, because its text cannot be read or names
something that is not there, or when something is asked for that it does not have.
-/

import CircuitExpr.Evaluator.Build
import CircuitExpr.ParseError

namespace CircuitExpr

/-- Why an equation or a system of them does not do what was asked. -/
inductive EquationError where
  /-- The text is no expression. -/
  | parse (cause : ParseError)
  /-- The expression cannot be evaluated. -/
  | build (cause : BuildError)
  /-- The equation is not differentiated by the variable. -/
  | derivativeNotFound (v : Variable)
  /-- The expression has no derivatives. -/
  | notDifferentiable (text : String)
  /-- There are too few or too many places for the results. -/
  | invalidOutputLength (expected got : Nat)
deriving DecidableEq, Repr

/-- The message of an error, without that of its cause. -/
def EquationError.message : EquationError → String
  | parse _ => "Failed to parse expression"
  | build _ => "Failed to build evaluator"
  | derivativeNotFound v => "Derivative not found for variable: " ++ v.text
  | notDifferentiable text => "Expression is not differentiable: " ++ text
  | invalidOutputLength expected got =>
    "Invalid output length: expected " ++ toString expected ++ ", got " ++ toString got

end CircuitExpr
