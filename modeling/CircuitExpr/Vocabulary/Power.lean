/-
# Powers

`pow(f, g)` is the operator `^` under a name, and `pwr(f, g)` is `|f| ^ g` with the
sign of `f`.

| power | derivative by `f` | derivative by `g` |
| --- | --- | --- |
| `f ^ n`, `n` an integer constant | `n f ^ (n - 1)` | |
| `f ^ c`, `c` another constant | `c (f ^ c / f)` | |
| `f ^ g` | `g f ^ (g - 1)` | `log(f) f ^ g` |
| `pwr(f, g)` | `g abs(f) ^ (g - 1)` | `log(abs(f)) pwr(f, g)`, none for a constant `g` |

A real base under a constant that is no integer counts as its magnitude; the
quotient `f ^ c / f` gives its slope the sign of `f`.
-/

import CircuitExpr.NamedFunction
import CircuitExpr.Power

namespace CircuitExpr
namespace Vocabulary

variable {ρ : Type} [Scalar ρ]

/-- The derivative of a power by its base. -/
def powerByBase (f g : Expr ρ) : Expr ρ :=
  match g.asConstant? with
  | some e =>
    if (integerExponent? e).isSome then .constant e * f.pow (.constant (e - 1))
    else .constant e * (f.pow g / f)
  | none => g * f.pow (g - Expr.one)

/-- The derivative of a power by its exponent, unless that is constant. -/
def powerByExponent (f g : Expr ρ) : Option (Expr ρ) :=
  match g.asConstant? with
  | some _ => none
  | none => some (.call "log" [f] * f.pow g)

/-- The derivatives of a power by base and exponent. -/
def powerPartials (f g : Expr ρ) : List (Option (Expr ρ)) :=
  [some (powerByBase f g), powerByExponent f g]

/-- The derivatives of a power of the magnitude with the sign of the base. -/
def signedPowerPartials (f g : Expr ρ) : List (Option (Expr ρ)) :=
  let magnitude : Expr ρ := .call "abs" [f]
  [some (g * magnitude.pow (g - Expr.one)),
    match g.asConstant? with
    | some _ => none
    | none => some (.call "log" [magnitude] * .call "pwr" [f, g])]

/-- A rule for two arguments. -/
def partialsOfTwo (f : Expr ρ → Expr ρ → List (Option (Expr ρ))) : Rule ρ :=
  .partials fun
    | x :: y :: _ => f x y
    | _ => []

/-- The power of a complex number with the real part made positive, given the sign
of the real part. -/
def complexSignedPow (fudge : ρ) (z w : Complex ρ) : Complex ρ :=
  (complexPow fudge ⟨Scalar.abs z.re, z.im⟩ w).scale (Scalar.sign z.re)

/-- The power. -/
def pow : NamedFunction ρ :=
  ⟨"pow", 2, some (.guarded realPow), some (.guarded complexPow),
    some (partialsOfTwo powerPartials)⟩

/-- The power of the magnitude, with the sign of the base. -/
def pwr : NamedFunction ρ :=
  ⟨"pwr", 2, some (.guarded signedPow), some (.guarded complexSignedPow),
    some (partialsOfTwo signedPowerPartials)⟩

end Vocabulary
end CircuitExpr
