/-
# The variables of an expression

Variables are listed without repetition in the order in which they occur first,
from left to right.
-/

import CircuitExpr.Expr.Subtree
import CircuitExpr.OrderedMap

namespace CircuitExpr
namespace Expr

variable {ρ : Type} [Scalar ρ]

/-- The leaves that are variables, from left to right, with their repetitions. -/
def occurrences (e : Expr ρ) : List Variable :=
  (e.subtrees Label.mix).filterMap fun s => s.tree.asVariable?

/-- The variables of a tree, each where it occurs first. -/
def vars (e : Expr ρ) : List Variable := OrderedMap.distinct e.occurrences

/-- The variables of one kind. -/
def variablesOf (kind : Variable.Kind) (e : Expr ρ) : List Variable :=
  e.vars.filter fun v => decide (v.kind = kind)

/-- The voltages that a tree depends on. -/
def voltages (e : Expr ρ) : List Variable := e.variablesOf .voltage

/-- The currents that a tree depends on. -/
def currents (e : Expr ρ) : List Variable := e.variablesOf .current

end Expr
end CircuitExpr
