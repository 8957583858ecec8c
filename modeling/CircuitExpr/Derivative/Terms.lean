/-
# Derivatives by several variables

The derivatives of one expression are kept together: a map from each variable that
the expression depends on to the derivative by it, in the order in which the
variables were met.  A variable without an entry has derivative zero.

`sum` adds such maps entry by entry and `chain` is the chain rule; both keep the
order in which the variables are seen first.
-/

import CircuitExpr.Expr.Fold
import CircuitExpr.OrderedMap

namespace CircuitExpr

/-- The derivatives of an expression by the variables that it depends on. -/
abbrev Derivatives (ρ : Type) := OrderedMap Variable (Expr ρ)

namespace Derivatives

variable {ρ : Type} [Scalar ρ]

/-- The derivatives with one more summand for a variable. -/
def addTerm (ds : Derivatives ρ) (v : Variable) (term : Expr ρ) : Derivatives ρ :=
  match ds.get? v with
  | some current => ds.insert v (current + term)
  | none => ds.insert v term

/-- The derivatives of a sum of two. -/
def plus (ds es : Derivatives ρ) : Derivatives ρ :=
  es.entries.foldl (fun acc e => acc.addTerm e.1 e.2) ds

/-- The derivatives of a sum. -/
def sum (maps : List (Derivatives ρ)) : Derivatives ρ := maps.foldl plus .empty

/-- The derivatives of an expression that depends on the variables through
arguments: the sum over the arguments of the partial derivative by the argument, if
there is one, times the derivative of the argument. -/
def chain (terms : List (Option (Expr ρ) × Derivatives ρ)) : Derivatives ρ :=
  sum (terms.filterMap fun t => t.1.map fun partialBy => t.2.map fun d => partialBy * d)

/-- The variables of some maps, each where it is seen first. -/
def vars (maps : List (Derivatives ρ)) : List Variable :=
  OrderedMap.distinct (maps.flatMap OrderedMap.keys)

end Derivatives
end CircuitExpr
