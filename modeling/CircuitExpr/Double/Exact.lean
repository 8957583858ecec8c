/-
# Operations on floats computed exactly

A finite `Float` is `± mantissa * 2 ^ exponent`.  Four operations are computed from
these integers, so that nothing but their definition decides the result:

| operation | rule | rounded |
| --- | --- | --- |
| `remainder a b` | what whole multiples of `b` leave of `a`, with the sign of `a` | never |
| `hypot a b` | the square root of the sum of the exact squares | once, to nearest |
| `toInt? a` | the integer that `a` is | never |
| `trunc a` | the nearest integer toward zero | never |
-/

namespace CircuitExpr
namespace Double
namespace Exact

open Float.Model (UnpackedFloat Format)

/-- Writes two multiples of powers of two as multiples of the smaller power. -/
def align (m : Nat) (p : Int) (n : Nat) (q : Int) : Nat × Nat × Int :=
  let e := min p q
  (m <<< (p - e).toNat, n <<< (q - e).toNat, e)

/-- What is left of `a` after whole multiples of `b`, with the sign of `a`.  There
is no remainder by zero and none of an infinity, and an infinite divisor leaves
all of `a`. -/
def remainder (a b : Float) : Float :=
  match a.toModel.unpack, b.toModel.unpack with
  | .finite s m p _, .finite _ n q _ =>
    let (m, n, e) := align m p n q
    match m % n with
    | 0 => .ofModel (.pack (.zero s))
    | r + 1 => .ofModel (.pack (.round Format.binary64 s (r + 1) e))
  | .zero _, .finite .. => a
  | .zero _, .infinity _ => a
  | .finite .., .infinity _ => a
  | _, _ => 0 / 0

/-- The length of the hypotenuse over the legs `a` and `b`: infinite if either leg
is, whatever the other. -/
def hypot (a b : Float) : Float :=
  if a.isInf || b.isInf then 1 / 0
  else match a.toModel.unpack, b.toModel.unpack with
    | .finite _ m p _, .finite _ n q _ =>
      let (m, n, e) := align m p n q
      match m * m + n * n with
      | 0 => 0
      | r + 1 => .ofModel (.pack (.sqrt Format.binary64 (.finite .positive (r + 1) (2 * e)
          (Nat.succ_pos r))))
    | .finite .., .zero _ => a.abs
    | .zero _, _ => b.abs
    | _, _ => 0 / 0

/-- The integer that a number is, if it is one. -/
def toInt? (a : Float) : Option Int :=
  match a.toModel.unpack with
  | .zero _ => some 0
  | .finite s m e _ =>
    let scale := 1 <<< (-e).toNat
    if m % scale = 0 then some (s.apply ((m <<< e.toNat) / scale : Nat)) else none
  | _ => none

/-- The nearest integer toward zero. -/
def trunc (a : Float) : Float := if a < 0 then a.ceil else a.floor

end Exact
end Double
end CircuitExpr
