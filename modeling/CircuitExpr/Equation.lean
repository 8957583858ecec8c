/-
# Equations

An equation is an expression with all that is computed from it once: its tree, its
variables, its derivatives by them, and the evaluators of its value and of each
derivative.  The evaluators read their sources when they are run, so an equation is
made once and evaluated as often as the sources change.

The variables are those of the expression, or a given list.  A variable of the list
that the expression does not depend on has derivative zero, and a variable of the
expression that is not in the list counts as a constant.
-/

import CircuitExpr.Derivative
import CircuitExpr.EquationError
import CircuitExpr.Expr.Parser
import CircuitExpr.Expr.Variables

namespace CircuitExpr

/-- An expression made ready for evaluation together with its derivatives. -/
structure Equation (ρ S α : Type) where
  /-- The text as it was given. -/
  text : String
  /-- The expression. -/
  expr : Expr ρ
  /-- The variables that it is differentiated by, in the order of the gradient. -/
  vars : List Variable
  /-- The derivatives, if there are any. -/
  derivatives : Option (Derivatives ρ)
  /-- The evaluator of the value. -/
  value : Evaluator ρ S α
  /-- The evaluators of the derivatives by the variables, if there are any. -/
  slopes : Option (OrderedMap Variable (Evaluator ρ S α))

namespace Equation

variable {ρ S α σ : Type} [Scalar ρ]

/-- Builds the evaluators of derivatives, one variable after the other; a missing
derivative is zero. -/
def buildSlopes (s : Setting ρ S α) (host : Resolver σ S) (ds : Derivatives ρ) :
    List Variable → OrderedMap Variable (Evaluator ρ S α) →
      Attempt BuildError σ (OrderedMap Variable (Evaluator ρ S α))
  | [], built => .done built
  | v :: vs, built =>
    .andThen (Evaluator.build s host ((ds.get? v).getD .zero)) fun slope =>
      buildSlopes s host ds vs (built.insert v slope)

/-- Builds the evaluators of an expression that has been differentiated. -/
def assemble (s : Setting ρ S α) (host : Resolver σ S) (text : String) (e : Expr ρ)
    (vars : List Variable) (derivatives : Option (Derivatives ρ)) :
    Attempt EquationError σ (Equation ρ S α) :=
  .mapError .build <| .andThen (Evaluator.build s host e) fun value =>
    match derivatives with
    | none => .done ⟨text, e, vars, none, value, none⟩
    | some ds => .andThen (buildSlopes s host ds vars .empty) fun slopes =>
      .done ⟨text, e, vars, some ds, value, some slopes⟩

/-- Differentiates an expression by some variables and builds the evaluators. -/
def ofExpr (s : Setting ρ S α) (host : Resolver σ S) (text : String) (e : Expr ρ)
    (vars : List Variable) : Attempt EquationError σ (Equation ρ S α) :=
  assemble s host text e vars (e.derive s.vocabulary vars)

/-- Reads the text of an equation. -/
def read (s : Setting ρ S α) (text : String) : Except EquationError (Expr ρ) :=
  (Expr.parse s.vocabulary.constant? text).mapError .parse

/-- The equation of a text, differentiated by all its variables. -/
def ofText (s : Setting ρ S α) (host : Resolver σ S) (text : String) :
    Attempt EquationError σ (Equation ρ S α) :=
  .andThen (.ofExcept (read s text)) fun e => ofExpr s host text e e.vars

/-- The equation of a text, differentiated by the given variables. -/
def ofTextBy (s : Setting ρ S α) (host : Resolver σ S) (vars : List Variable)
    (text : String) : Attempt EquationError σ (Equation ρ S α) :=
  .andThen (.ofExcept (read s text)) fun e => ofExpr s host text e vars

/-- The value, given what the sources hold. -/
def eval (b : Backend ρ S α) (memory : S → α) (q : Equation ρ S α) : Option α :=
  q.value.value? b memory

/-- The evaluator of the derivative by a variable. -/
def derivativeBy (q : Equation ρ S α) (v : Variable) :
    Except EquationError (Evaluator ρ S α) :=
  match q.slopes with
  | none => .error (.notDifferentiable q.text)
  | some slopes =>
    match slopes.get? v with
    | none => .error (.derivativeNotFound v)
    | some slope => .ok slope

/-- The values of the derivatives, in the order of the variables. -/
def gradient (b : Backend ρ S α) (memory : S → α) (q : Equation ρ S α) :
    Except EquationError (List (Option α)) :=
  match q.slopes with
  | none => .error (.notDifferentiable q.text)
  | some slopes => .ok (slopes.values.map fun slope => slope.value? b memory)

/-- Does the expression have derivatives? -/
def isDifferentiable (q : Equation ρ S α) : Bool := q.derivatives.isSome

end Equation
end CircuitExpr
