/-
# Folding keeps what is said of values

A tree may be said to have a value in several ways: by what an evaluator makes of it, by
that only where it is reached, or, the value set aside, by the fact that it can be built.
Whatever is said of an operator as soon as it is said of its operands is a *valuation*,
and the operators that fold constants keep every valuation: they compute what the
operators of the notation compute.

What is said of a quotient may depend on its divisor, so there it is asked for.
-/

import Mathlib
import CircuitExpr.Expr.Fold
import CircuitExpr.Proofs.ExactNumbers

namespace CircuitExpr
namespace Expr

/-- A tree is known to be a constant if it is one. -/
theorem asConstant?_eq_some {ρ : Type} {x : Expr ρ} {c : ρ} :
    x.asConstant? = some c ↔ x = .constant c := by
  cases x <;> simp [asConstant?]

variable {K : Type} [Field K] [LinearOrder K] [FloorRing K] [AnalyticFunctions K]

/-- What is said of trees and values follows the operators of the notation. -/
structure Valuation (V : Expr K → K → Prop) : Prop where
  /-- A constant has its own value. -/
  constant (c : K) : V (.constant c) c
  /-- Any other value that a constant has stands for the constant. -/
  unique {c a : K} (h : V (.constant c) a) (φ : K → K) {x : Expr K} : V x (φ c) → V x (φ a)
  /-- The sign. -/
  minus {x : Expr K} {a : K} : V x a → V (.unary .minus x) (-a)
  /-- The operand of a sign. -/
  operand {x : Expr K} {a : K} : V (.unary .minus x) a → V x (-a)
  /-- The sum. -/
  plain_add {x y : Expr K} {a b : K} : V x a → V y b → V (.binary .add x y) (a + b)
  /-- The difference. -/
  plain_sub {x y : Expr K} {a b : K} : V x a → V y b → V (.binary .sub x y) (a - b)
  /-- The product. -/
  plain_mul {x y : Expr K} {a b : K} : V x a → V y b → V (.binary .mul x y) (a * b)

namespace Valuation

variable {V : Expr K → K → Prop} {x y : Expr K} {a b : K}

/-- Zero is worth zero. -/
theorem zero (hV : Valuation V) : V Expr.zero 0 := hV.constant 0

/-- One is worth one. -/
theorem one (hV : Valuation V) : V Expr.one 1 := hV.constant 1

/-- The folded change of sign is worth the value with the other sign. -/
theorem neg (hV : Valuation V) (hx : V x a) : V (-x) (-a) := by
  change V (Expr.neg x) (-a)
  unfold Expr.neg
  split
  · exact hV.unique hx (fun a => -a) (hV.constant _)
  · exact hV.operand hx
  · exact hV.minus hx

/-- A value of a constant stands for the constant. -/
theorem unique_of_asConstant? (hV : Valuation V) (hx : V x a) {c : K}
    (h : x.asConstant? = some c) (φ : K → K) {y : Expr K} (hy : V y (φ c)) : V y (φ a) :=
  hV.unique (asConstant?_eq_some.mp h ▸ hx) φ hy

/-- Two constants combined. -/
theorem constants (hV : Valuation V) (hx : V x a) (hy : V y b) {c d : K}
    (hc : x.asConstant? = some c) (hd : y.asConstant? = some d) (φ : K → K → K) :
    V (.constant (φ c d)) (φ a b) :=
  hV.unique_of_asConstant? hx hc (φ · b)
    (hV.unique_of_asConstant? hy hd (φ c ·) (hV.constant (φ c d)))

/-- The folded sum is worth the sum of the values. -/
theorem add (hV : Valuation V) (hx : V x a) (hy : V y b) : V (x + y) (a + b) := by
  change V (Expr.add x y) (a + b)
  unfold Expr.add
  split
  · rename_i c d hc hd
    exact hV.constants hx hy hc hd (· + ·)
  · rename_i c hc _
    split
    · rename_i h0
      refine hV.unique_of_asConstant? hx hc (· + b) ?_
      rwa [Scalar.eq_iff.mp h0, zero_add]
    · exact hV.plain_add hx hy
  · rename_i d _ hd
    split
    · rename_i h0
      refine hV.unique_of_asConstant? hy hd (a + ·) ?_
      rwa [Scalar.eq_iff.mp h0, add_zero]
    · exact hV.plain_add hx hy
  · exact hV.plain_add hx hy

/-- The folded difference is worth their difference. -/
theorem sub (hV : Valuation V) (hx : V x a) (hy : V y b) : V (x - y) (a - b) := by
  change V (Expr.sub x y) (a - b)
  unfold Expr.sub
  split
  · rename_i c d hc hd
    exact hV.constants hx hy hc hd (· - ·)
  · rename_i d _ hd
    split
    · rename_i h0
      refine hV.unique_of_asConstant? hy hd (a - ·) ?_
      rwa [Scalar.eq_iff.mp h0, sub_zero]
    · exact hV.plain_sub hx hy
  · rename_i c hc _
    split
    · rename_i h0
      refine hV.unique_of_asConstant? hx hc (· - b) ?_
      rw [Scalar.eq_iff.mp h0, zero_sub]
      exact hV.neg hy
    · exact hV.plain_sub hx hy
  · exact hV.plain_sub hx hy

/-- The product of a constant and a tree. -/
theorem scale (hV : Valuation V) (hx : V x a) {c : K} {whole : Expr K}
    (hwhole : V whole (c * a)) : V (Expr.scale c x whole) (c * a) := by
  unfold Expr.scale
  split_ifs with h0 h1 h2
  · rw [Scalar.eq_iff.mp h0, zero_mul]
    exact hV.zero
  · rwa [Scalar.eq_iff.mp h1, one_mul]
  · rw [Scalar.eq_iff.mp h2, neg_one_mul]
    exact hV.neg hx
  · exact hwhole

/-- The folded product is worth their product. -/
theorem mul (hV : Valuation V) (hx : V x a) (hy : V y b) : V (x * y) (a * b) := by
  change V (Expr.mul x y) (a * b)
  unfold Expr.mul
  split
  · rename_i c d hc hd
    exact hV.constants hx hy hc hd (· * ·)
  · rename_i c hc _
    refine hV.unique_of_asConstant? hx hc (· * b) (hV.scale hy ?_)
    rw [asConstant?_eq_some.mp hc]
    exact hV.plain_mul (hV.constant c) hy
  · rename_i d _ hd
    refine hV.unique_of_asConstant? hy hd (a * ·) ?_
    rw [mul_comm]
    refine hV.scale hx ?_
    rw [mul_comm, asConstant?_eq_some.mp hd]
    exact hV.plain_mul hx (hV.constant d)
  · exact hV.plain_mul hx hy

/-- The quotient of two trees, if it is right when nothing folds. -/
theorem div (hV : Valuation V) (hx : V x a) (hy : V y b)
    (hplain : V (.binary .div x y) (a / b)) : V (x / y) (a / b) := by
  change V (Expr.div x y) (a / b)
  unfold Expr.div
  have hzero {c : K} (hc : x.asConstant? = some c) (h0 : Scalar.eq c 0 = true) :
      V Expr.zero (a / b) := by
    refine hV.unique_of_asConstant? hx hc (· / b) ?_
    rw [Scalar.eq_iff.mp h0, zero_div]
    exact hV.zero
  split
  · rename_i c d hc hd
    split_ifs with h0 h1
    · exact hV.constants hx hy hc hd (· / ·)
    · exact hzero hc h1
    · exact hplain
  · rename_i c hc _
    split
    · rename_i h0
      exact hzero hc h0
    · exact hplain
  · rename_i d _ hd
    split
    · rename_i h1
      refine hV.unique_of_asConstant? hy hd (a / ·) ?_
      rwa [Scalar.eq_iff.mp h1, div_one]
    · exact hplain
  · exact hplain

end Valuation
end Expr
end CircuitExpr
