/-
# Real values
-/

import CircuitExpr.Backend

namespace CircuitExpr
namespace Backend

variable {ρ S : Type} [Scalar ρ]

/-- Comparisons of real numbers. -/
def compareReal (op : BinaryOp) (a b : ρ) : Bool :=
  match op with
  | .eq => Scalar.eq a b
  | .ne => Scalar.ne a b
  | .lt => Scalar.lt a b
  | .le => Scalar.le a b
  | .gt => Scalar.lt b a
  | .ge => Scalar.le b a
  | _ => false

/-- Real values.  A value is true when it is not zero. -/
def real (fudge : ρ) : Backend ρ S ρ where
  name := "real"
  fudge := fudge
  ofReal := id
  isTrue x := Scalar.ne x 0
  add x y := x + y
  sub x y := x - y
  mul x y := x * y
  div x y := x / guardReal fudge y
  rem x y := x % y
  neg x := -x
  pow x y := realPow fudge x y
  powi x n := if n < 0 then integerPower (guardReal fudge x) n else integerPower x n
  compare := compareReal
  implementation f := f.real.map .plain

/-- The meaning of a function is its values on real numbers, without any source. -/
theorem real_implementation_eq_some {fudge : ρ} {f : NamedFunction ρ} {g : Meaning ρ S ρ} :
    (real fudge).implementation f = some g ↔ ∃ values, f.real = some values ∧ .plain values = g :=
  Option.map_eq_some_iff

/-- A function has a meaning if it has values on real numbers. -/
theorem isSome_real_implementation (fudge : ρ) (f : NamedFunction ρ) :
    ((real fudge : Backend ρ S ρ).implementation f).isSome = f.real.isSome :=
  Option.isSome_map

/-- The listing of the backend of real values. -/
def realListing [Numeral ρ] (fudge : ρ) : String :=
  "RealBackend \x7b fudge: " ++ Numeral.inspect fudge ++ " \x7d"

end Backend
end CircuitExpr
