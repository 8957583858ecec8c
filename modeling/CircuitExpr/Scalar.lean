/-
# The numbers an expression is written over

An expression, its derivatives and its values need the same few operations of
their numbers, and nothing else.  `Scalar` lists them, so that one definition of
the tree, of the derivative and of the evaluators serves the machine numbers the
command line computes with as well as exact fields, where the laws of the
derivative are stated.

Numbers are compared in two ways:

| operation | relates | two NaNs | `0` and `-0` |
| --- | --- | --- | --- |
| `eq`, `lt`, `le` | values, as the operators of an expression do | never | equal |
| `same` | constants, as the equality of trees does | same | same |

`same` compares by `key` and is therefore an equivalence whatever the numbers.
-/

namespace CircuitExpr

/-- The operations on numbers that expressions, derivatives and evaluators use. -/
class Scalar (ρ : Type) extends Zero ρ, One ρ, Add ρ, Sub ρ, Mul ρ, Div ρ, Neg ρ, Mod ρ where
  /-- Numbers are told apart in all their bits. -/
  decEq : DecidableEq ρ
  /-- The representative of a number among the constants that count as one. -/
  key : ρ → ρ
  /-- A word by which constants are looked up quickly; any function would do. -/
  digest : ρ → UInt64
  /-- The number nearest to `m * 10 ^ e`. -/
  ofDecimal : (m : Nat) → (e : Int) → ρ
  /-- Numeric equality. -/
  eq : ρ → ρ → Bool
  /-- Numeric strict order. -/
  lt : ρ → ρ → Bool
  /-- Numeric order. -/
  le : ρ → ρ → Bool
  /-- The integer that a number is, if it is one. -/
  toInt? : ρ → Option Int
  /-- Is this the result of an undefined operation? -/
  isNaN : ρ → Bool
  /-- Is this an infinity of either sign? -/
  isInf : ρ → Bool
  /-- Is the sign of this number set?  Zeros and NaNs carry one too. -/
  isNegative : ρ → Bool
  /-- The result of an undefined operation. -/
  nan : ρ
  /-- The limit above all numbers. -/
  infinity : ρ
  /-- The natural logarithm of ten. -/
  ln10 : ρ
  /-- The magnitude. -/
  abs : ρ → ρ
  /-- The greatest integer that is not above. -/
  floor : ρ → ρ
  /-- The least integer that is not below. -/
  ceil : ρ → ρ
  /-- The nearest integer, a half going away from zero. -/
  round : ρ → ρ
  /-- The nearest integer toward zero. -/
  trunc : ρ → ρ
  /-- The square root. -/
  sqrt : ρ → ρ
  /-- The exponential function. -/
  exp : ρ → ρ
  /-- The natural logarithm. -/
  ln : ρ → ρ
  /-- The logarithm to base ten. -/
  log10 : ρ → ρ
  /-- The sine. -/
  sin : ρ → ρ
  /-- The cosine. -/
  cos : ρ → ρ
  /-- The tangent. -/
  tan : ρ → ρ
  /-- The inverse sine. -/
  asin : ρ → ρ
  /-- The inverse cosine. -/
  acos : ρ → ρ
  /-- The inverse tangent. -/
  atan : ρ → ρ
  /-- The hyperbolic sine. -/
  sinh : ρ → ρ
  /-- The hyperbolic cosine. -/
  cosh : ρ → ρ
  /-- The hyperbolic tangent. -/
  tanh : ρ → ρ
  /-- The inverse hyperbolic sine. -/
  asinh : ρ → ρ
  /-- The inverse hyperbolic cosine. -/
  acosh : ρ → ρ
  /-- The inverse hyperbolic tangent. -/
  atanh : ρ → ρ
  /-- The first number raised to the second. -/
  pow : ρ → ρ → ρ
  /-- The length of the hypotenuse over two legs. -/
  hypot : ρ → ρ → ρ
  /-- The angle of the point whose ordinate comes first and abscissa second. -/
  atan2 : ρ → ρ → ρ

namespace Scalar

variable {ρ : Type} [Scalar ρ]

/-- Do two constants count as one? -/
def same (a b : ρ) : Bool :=
  letI : DecidableEq ρ := decEq
  decide (key a = key b)

/-- Numbers are the same if they have the same key. -/
theorem same_iff {a b : ρ} : same a b = true ↔ key a = key b := by
  simp [same]

/-- Numeric inequality; true of a NaN and anything. -/
def ne (a b : ρ) : Bool := !eq a b

/-- A constant of the derivative rules. -/
def half : ρ := ofDecimal 5 (-1)

/-- A constant of the inverse functions. -/
def two : ρ := ofDecimal 2 0

/-- The sign of a number as `1`, `-1` or `0`; `0` for zeros and for a NaN. -/
def sign (x : ρ) : ρ :=
  if lt 0 x then 1 else if lt x 0 then -1 else 0

end Scalar

/-- A number that can be written down. -/
class Numeral (ρ : Type) where
  /-- The text of a constant inside an expression. -/
  text : ρ → String
  /-- The text of a constant in an exact listing of a tree, which keeps apart an
  integer and a name and shortens very large and very small magnitudes. -/
  inspect : ρ → String

end CircuitExpr
