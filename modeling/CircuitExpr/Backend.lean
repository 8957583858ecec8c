/-
# Backends

A backend says what the values of expressions are and how the operators compute
with them.  There are two: real numbers, for operating points and transients, and
complex numbers, for small signals at one frequency.

A function has a meaning for a backend.  It yields the same values at any time, or
values that depend on a source, which is read whenever the function is called.
-/

import CircuitExpr.NamedFunction
import CircuitExpr.Power

namespace CircuitExpr

/-- The meaning of a function on the values `α`, with sources `S` of such values. -/
inductive Meaning (ρ S α : Type) where
  /-- The same values at any time. -/
  | plain (values : Implementation ρ α)
  /-- Values that depend on what a source holds. -/
  | sourced (source : S) (values : α → Implementation ρ α)

/-- The values of a function while the sources hold `memory`. -/
def Meaning.values {ρ S α : Type} (memory : S → α) : Meaning ρ S α → Implementation ρ α
  | plain values => values
  | sourced source values => values (memory source)

/-- What the values `α` of expressions over the numbers `ρ` are, with sources `S`. -/
structure Backend (ρ S α : Type) where
  /-- The name, as messages use it. -/
  name : String
  /-- How close to zero a divisor may come. -/
  fudge : ρ
  /-- The value of a constant. -/
  ofReal : ρ → α
  /-- Does a value count as true? -/
  isTrue : α → Bool
  /-- The sum. -/
  add : α → α → α
  /-- The difference. -/
  sub : α → α → α
  /-- The product. -/
  mul : α → α → α
  /-- The quotient, the divisor kept away from zero. -/
  div : α → α → α
  /-- The remainder of the truncated quotient. -/
  rem : α → α → α
  /-- The value with the other sign. -/
  neg : α → α
  /-- The power. -/
  pow : α → α → α
  /-- The power with an exponent that is known beforehand. -/
  powi : α → Int32 → α
  /-- The answer of a comparison; no other operator holds of anything. -/
  compare : BinaryOp → α → α → Bool
  /-- The meaning of a function, if it has one. -/
  implementation : NamedFunction ρ → Option (Meaning ρ S α)

namespace Backend

variable {ρ S α : Type} [Scalar ρ]

/-- The value of an answer. -/
def ofBool (b : Backend ρ S α) (answer : Bool) : α := b.ofReal (if answer then 1 else 0)

/-- The guard against division by zero when nothing else is asked for. -/
def defaultFudge : ρ := Scalar.ofDecimal 1 (-20)

end Backend
end CircuitExpr
