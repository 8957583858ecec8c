/-
# Powers and guarded divisors

Integer powers are products, computed by repeated squaring; they keep the sign of
the base.  Any other power takes the magnitude of a real base, so that the result
is real, and the principal value of a complex one.

A divisor, and a base whose power divides, is kept away from zero by a small
`fudge`: a number of at least that magnitude is left alone, a smaller one moves by
`fudge` in the direction of its sign, zero upwards.

`integerPower` is the power for every 32-bit exponent; the exponents `0`, `1` and `2` are
answered without a loop.
-/

import CircuitExpr.Complex.Functions

namespace CircuitExpr

section Squaring

variable {α : Type} [One α] [Mul α] [Div α]

/-- Multiplies `result` by the power of `base`, one binary digit of the exponent
after the other. -/
def powerLoop (result base : α) (exponent : Nat) : α :=
  if exponent = 0 then result
  else
    powerLoop (if exponent % 2 = 1 then result * base else result)
      (if exponent / 2 = 0 then base else base * base) (exponent / 2)
termination_by exponent
decreasing_by omega

/-- The power with a natural exponent, by repeated squaring. -/
def naturalPower (base : α) (exponent : Nat) : α := powerLoop 1 base exponent

/-- The power with an integer exponent; a negative one takes the reciprocal. -/
def integerPower (base : α) (exponent : Int32) : α :=
  if exponent = 0 then 1
  else if exponent = 1 then base
  else if exponent = 2 then base * base
  else if exponent < 0 then 1 / naturalPower base exponent.toInt.natAbs
  else naturalPower base exponent.toInt.natAbs

end Squaring

variable {ρ : Type} [Scalar ρ]

/-- The exponent of an integer power: an integer of magnitude at most `2 ^ 31 - 1`. -/
def integerExponent? (x : ρ) : Option Int32 :=
  match Scalar.toInt? x with
  | some n => if n.natAbs ≤ 2147483647 then some (Int32.ofInt n) else none
  | none => none

/-- Moves a number away from zero. -/
def guardReal (fudge x : ρ) : ρ :=
  if Scalar.le fudge (Scalar.abs x) then x
  else if Scalar.lt x 0 then x - fudge
  else x + fudge

/-- Moves a complex number away from zero, along the real axis. -/
def guardComplex (fudge : ρ) (z : Complex ρ) : Complex ρ :=
  if Scalar.le fudge z.norm then z else ⟨guardReal fudge z.re, z.im⟩

/-- The power of real numbers. -/
def realPow (fudge base exponent : ρ) : ρ :=
  match integerExponent? exponent with
  | some n => if n < 0 then integerPower (guardReal fudge base) n else integerPower base n
  | none => Scalar.pow (guardReal fudge (Scalar.abs base)) exponent

/-- The power of the magnitude, with the sign of the base. -/
def signedPow (fudge base exponent : ρ) : ρ :=
  Scalar.sign base * realPow fudge (Scalar.abs base) exponent

/-- The power of complex numbers. -/
def complexPow (fudge : ρ) (base exponent : Complex ρ) : Complex ρ :=
  match if Scalar.eq exponent.im 0 then integerExponent? exponent.re else none with
  | some n => if n < 0 then integerPower (guardComplex fudge base) n else integerPower base n
  | none => (guardComplex fudge base).powc exponent

end CircuitExpr
