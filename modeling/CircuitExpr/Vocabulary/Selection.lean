/-
# Magnitude, rounding and selection

The sign and the rounding functions are constant in pieces.  A selection
differentiates to the derivative of the argument that it selects:

| function | value | derivative |
| --- | --- | --- |
| `min(a, b)` | `a` if `a < b`, else `b` | that of the selected argument |
| `max(a, b)` | `a` if `a > b`, else `b` | that of the selected argument |
| `limit(x, lo, hi)` | `min(max(x, lo), hi)` | that of the selected argument |
| `abs(u)` | the magnitude | `sgn(u)` |

Complex arguments are compared and rounded by their real parts.
-/

import CircuitExpr.NamedFunction

namespace CircuitExpr
namespace Vocabulary

variable {ρ : Type} [Scalar ρ]

/-- The modulus as a complex number. -/
def complexAbs (z : Complex ρ) : Complex ρ := ⟨z.norm, 0⟩

/-- The magnitude. -/
def abs : NamedFunction ρ := .unary "abs" Scalar.abs complexAbs fun u => .call "sgn" [u]

/-- A function that is constant in pieces, of the real part of a complex argument. -/
def piecewiseConstant (name : String) (f : ρ → ρ) : NamedFunction ρ :=
  ⟨name, 1, some (.unary f), some (.unary fun z => ⟨f z.re, 0⟩), some .constant⟩

/-- The sign and the rounding functions. -/
def roundings : List (NamedFunction ρ) :=
  [piecewiseConstant "sgn" Scalar.sign, piecewiseConstant "floor" Scalar.floor,
    piecewiseConstant "ceil" Scalar.ceil, piecewiseConstant "round" Scalar.round,
    piecewiseConstant "trunc" Scalar.trunc]

/-- The smaller number; the second if neither is. -/
def minReal (a b : ρ) : ρ := if Scalar.lt a b then a else b

/-- The larger number; the second if neither is. -/
def maxReal (a b : ρ) : ρ := if Scalar.lt b a then a else b

/-- The complex number with the smaller real part; the second if neither has. -/
def minComplex (z w : Complex ρ) : Complex ρ := if Scalar.lt z.re w.re then z else w

/-- The complex number with the larger real part; the second if neither has. -/
def maxComplex (z w : Complex ρ) : Complex ρ := if Scalar.lt w.re z.re then z else w

/-- A derivative that may be missing, as an expression. -/
def orZero (derivative : Option (Expr ρ)) : Expr ρ := derivative.getD Expr.zero

/-- The derivative of a selection between two arguments by a comparison. -/
def selectBy (op : BinaryOp) : List (Expr ρ) → List (Option (Expr ρ)) → Option (Expr ρ)
  | a :: b :: _, da :: db :: _ =>
    some (Expr.select (.binary op a b) (orZero da) (orZero db))
  | _, _ => none

/-- The derivative of an argument kept between two others. -/
def limitDerivative : List (Expr ρ) → List (Option (Expr ρ)) → Option (Expr ρ)
  | x :: lo :: hi :: _, dx :: dlo :: dhi :: _ =>
    let inner := Expr.select (.binary .gt x lo) (orZero dx) (orZero dlo)
    some (Expr.select (.binary .lt (.call "max" [x, lo]) hi) inner (orZero dhi))
  | _, _ => none

/-- The smaller argument. -/
def min : NamedFunction ρ :=
  ⟨"min", 2, some (.binary minReal), some (.binary minComplex), some (.direct (selectBy .lt))⟩

/-- The larger argument. -/
def max : NamedFunction ρ :=
  ⟨"max", 2, some (.binary maxReal), some (.binary maxComplex), some (.direct (selectBy .gt))⟩

/-- The first argument, kept between the other two. -/
def limit : NamedFunction ρ :=
  ⟨"limit", 3, some (.ternary fun x lo hi => minReal (maxReal x lo) hi),
    some (.ternary fun x lo hi => minComplex (maxComplex x lo) hi),
    some (.direct limitDerivative)⟩

end Vocabulary
end CircuitExpr
