/-
# Trees evaluated on dual numbers

A dual number `a + b ε`, with `ε ^ 2 = 0`, carries a value and a slope.  Evaluating a
tree on dual numbers, with `ε` added to one variable, differentiates it in passing: this
is forward mode, and it knows nothing of derivative trees.

Sums, products, quotients and integer powers are those of the ring of dual numbers.
What has pieces follows the piece that the values select:

| tree | on dual numbers |
| --- | --- |
| `x % y` | `x - q y` with the number `q = trunc(x / y)` |
| `abs(x)` | the magnitude, the slope times `sgn(x)` |
| `sgn`, `floor`, `ceil`, `round`, `trunc` | the value with slope zero |
| `min`, `max`, `limit` | the argument that the values select |
| `c ? f : g` | the branch that the value of `c` selects |
-/

import Mathlib
import CircuitExpr.Proofs.ExactValues

namespace CircuitExpr

open TrivSqZeroExt
open scoped DualNumber

variable {K S : Type} [Field K]

namespace Dual

/-- An integer power. -/
def power (x : K[ε]) : ℤ → K[ε]
  | .ofNat n => x ^ n
  | .negSucc n => x⁻¹ ^ (n + 1)

/-- The value of a power is the power of the value. -/
theorem fst_power (x : K[ε]) (n : ℤ) : (power x n).fst = x.fst ^ n := by
  cases n with
  | ofNat n => rw [power, fst_pow, Int.ofNat_eq_natCast, zpow_natCast]
  | negSucc n => rw [power, fst_pow, fst_inv, zpow_negSucc, inv_pow]

/-- The slope of a power. -/
theorem snd_power (x : K[ε]) {n : ℤ} (hx : n < 0 → x.fst ≠ 0) :
    (power x n).snd = n * x.fst ^ (n - 1) * x.snd := by
  cases n with
  | ofNat n =>
    rw [power, snd_pow, smul_eq_mul, nsmul_eq_mul, Int.ofNat_eq_natCast, Int.cast_natCast,
      ← mul_assoc]
    cases n with
    | zero => simp
    | succ n =>
      have hpred : ((n + 1 : ℕ) : ℤ) - 1 = n := by omega
      rw [Nat.pred_succ, hpred, zpow_natCast]
  | negSucc n =>
    have hx := hx (Int.negSucc_lt_zero n)
    have hexponent : Int.negSucc n - 1 = -((n + 2 : ℕ) : ℤ) := by omega
    rw [power, snd_pow, fst_inv, snd_inv, Nat.pred_succ, hexponent, zpow_neg, zpow_natCast,
      Int.cast_negSucc, inv_pow]
    simp only [smul_eq_mul, nsmul_eq_mul, MulOpposite.smul_eq_mul_unop, MulOpposite.unop_op]
    field_simp
    ring

/-- The slope of a quotient. -/
theorem snd_mul_inv (x y : K[ε]) (hy : y.fst ≠ 0) :
    (x * y⁻¹).snd = x.snd / y.fst + -(x.fst * y.snd / (y.fst * y.fst)) := by
  rw [snd_mul, fst_inv, snd_inv]
  simp only [smul_eq_mul, MulOpposite.smul_eq_mul_unop, MulOpposite.unop_op]
  field_simp
  ring

variable [LinearOrder K] [FloorRing K] [AnalyticFunctions K]

/-- An operator of arithmetic. -/
def binary? (op : BinaryOp) (x y : K[ε]) : Option K[ε] :=
  match op with
  | .add => some (x + y)
  | .sub => some (x - y)
  | .mul => some (x * y)
  | .div => some (x * y⁻¹)
  | .mod => some (x - inl (Scalar.trunc (x.fst / y.fst)) * y)
  | _ => none

/-- The one with the smaller value; the second if neither is. -/
def min (x y : K[ε]) : K[ε] := if x.fst < y.fst then x else y

/-- The one with the larger value; the second if neither is. -/
def max (x y : K[ε]) : K[ε] := if y.fst < x.fst then x else y

/-- The value of the smaller one is the smaller value. -/
theorem fst_min (x y : K[ε]) : (min x y).fst = Vocabulary.minReal x.fst y.fst := by
  rw [min, apply_ite fst, Vocabulary.minReal]
  simp only [Scalar.lt_iff]

/-- The value of the larger one is the larger value. -/
theorem fst_max (x y : K[ε]) : (max x y).fst = Vocabulary.maxReal x.fst y.fst := by
  rw [max, apply_ite fst, Vocabulary.maxReal]
  simp only [Scalar.lt_iff]

/-- A function that has pieces, by its name in small letters. -/
def call? (name : String) (args : List K[ε]) : Option K[ε] :=
  match name, args with
  | "abs", [x] => some (inl (Scalar.abs x.fst) + inr (Scalar.sign x.fst * x.snd))
  | "sgn", [x] => some (inl (Scalar.sign x.fst))
  | "floor", [x] => some (inl (Scalar.floor x.fst))
  | "ceil", [x] => some (inl (Scalar.ceil x.fst))
  | "round", [x] => some (inl (Scalar.round x.fst))
  | "trunc", [x] => some (inl (Scalar.trunc x.fst))
  | "min", [x, y] => some (min x y)
  | "max", [x, y] => some (max x y)
  | "limit", [x, lo, hi] => some (min (max x lo) hi)
  | _, _ => none

end Dual

namespace Expr

variable [LinearOrder K] [FloorRing K] [AnalyticFunctions K]

mutual

/-- The tree evaluated with `ε` added to the value of the variable `v`. -/
def dual? (p : Point S K) (v : Variable) : Expr K → Option K[ε]
  | .constant c => some (inl c)
  | .var w => do return inl (← (Expr.var w).value? p) + if w = v then ε else 0
  | .unary .plus x => dual? p v x
  | .unary .minus x => do return -(← dual? p v x)
  | .unary .not _ => none
  | .binary .pow x y => do
    return Dual.power (← dual? p v x) (← y.asConstant?.bind Scalar.toInt?)
  | .binary op x y => do
    let a ← dual? p v x
    Dual.binary? op a (← dual? p v y)
  | .call name args => do Dual.call? (Text.lowercase name) (← dualAll? p v args)
  | .conditional c t f => do
    if (← c.value? p) = 0 then dual? p v f else dual? p v t

/-- Some trees evaluated with `ε` added to the value of the variable `v`. -/
def dualAll? (p : Point S K) (v : Variable) : List (Expr K) → Option (List K[ε])
  | [] => some []
  | x :: xs => do
    let a ← dual? p v x
    return a :: (← dualAll? p v xs)

end

end Expr
end CircuitExpr
