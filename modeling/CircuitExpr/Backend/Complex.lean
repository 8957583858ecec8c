/-
# Complex values

A value is true when its real part is not zero.  Real parts are compared, except
that `==` and `!=` look at both parts.

When there is a source of the complex frequency `s`, a function of the name `ddt`
multiplies its argument by `s` and one of the name `idt` divides it by `s`, whatever
else the vocabulary says of them.  The source is read on every call.
-/

import CircuitExpr.Backend
import CircuitExpr.Text.Lowercase

namespace CircuitExpr
namespace Backend

variable {ρ S : Type} [Scalar ρ]

/-- Comparisons of complex numbers. -/
def compareComplex (op : BinaryOp) (z w : Complex ρ) : Bool :=
  match op with
  | .eq => z.eq w
  | .ne => !z.eq w
  | .lt => Scalar.lt z.re w.re
  | .le => Scalar.le z.re w.re
  | .gt => Scalar.lt w.re z.re
  | .ge => Scalar.le w.re z.re
  | _ => false

/-- The time derivative at the frequency `s`. -/
def laplaceDerivative (s : Complex ρ) : Implementation ρ (Complex ρ)
  | _, z :: _ => some (s * z)
  | _, [] => none

/-- The time integral at the frequency `s`. -/
def laplaceIntegral (s : Complex ρ) : Implementation ρ (Complex ρ)
  | fudge, z :: _ => some (z / guardComplex fudge s)
  | _, [] => none

/-- The meaning of a name when there is a source of the frequency. -/
def laplace? (laplace : Option S) (name : String) : Option (Meaning ρ S (Complex ρ)) :=
  match laplace with
  | none => none
  | some source =>
    let lower := Text.lowercase name
    if lower = "ddt" then some (.sourced source laplaceDerivative)
    else if lower = "idt" then some (.sourced source laplaceIntegral)
    else none

/-- Complex values, with a source of the frequency or without one. -/
def complex (fudge : ρ) (laplace : Option S) : Backend ρ S (Complex ρ) where
  name := "complex"
  fudge := fudge
  ofReal := Complex.ofReal
  isTrue z := Scalar.ne z.re 0
  add z w := z + w
  sub z w := z - w
  mul z w := z * w
  div z w := z / guardComplex fudge w
  rem z w := z % w
  neg z := -z
  pow z w := complexPow fudge z w
  powi z n := if n < 0 then integerPower (guardComplex fudge z) n else integerPower z n
  compare := compareComplex
  implementation f := (laplace? laplace f.name).or (f.complex.map .plain)

/-- The listing of the backend of complex values. -/
def complexListing [Numeral ρ] (fudge : ρ) (laplace : Option S) : String :=
  "ComplexBackend \x7b fudge: " ++ Numeral.inspect fudge ++ ", laplace: "
    ++ NamedFunction.flag laplace.isSome ++ " \x7d"

end Backend
end CircuitExpr
