/-
# Operators that fold constants

Derivatives are built with operators that compute where they can instead of
growing the tree: two constants are combined, and neutral, absorbing and
sign-changing constants disappear.

| tree | folds to |
| --- | --- |
| `x + 0`, `0 + x`, `x - 0` | `x` |
| `0 - x`, `-1 * x`, `x * -1` | `-x` |
| `x * 0`, `0 * x`, `0 / x` | `0` |
| `x * 1`, `1 * x`, `x / 1`, `x ^ 1` | `x` |
| `x ^ 0` | `1` |
| `-(-x)` | `x` |
| two constants, the divisor not zero | their result |
| a choice between two equal trees | that tree |
| a choice on a constant condition | the branch it selects |

The arithmetic symbols between expressions stand for these operators.
-/

import CircuitExpr.Expr

namespace CircuitExpr
namespace Expr

variable {ρ : Type} [Scalar ρ]

/-- The tree with the other sign. -/
def neg : Expr ρ → Expr ρ
  | .constant c => .constant (-c)
  | .unary .minus x => x
  | e => .unary .minus e

/-- The sum of two trees. -/
def add (x y : Expr ρ) : Expr ρ :=
  match x.asConstant?, y.asConstant? with
  | some a, some b => .constant (a + b)
  | some a, none => if Scalar.eq a 0 then y else .binary .add x y
  | none, some b => if Scalar.eq b 0 then x else .binary .add x y
  | none, none => .binary .add x y

/-- The difference of two trees. -/
def sub (x y : Expr ρ) : Expr ρ :=
  match x.asConstant?, y.asConstant? with
  | some a, some b => .constant (a - b)
  | none, some b => if Scalar.eq b 0 then x else .binary .sub x y
  | some a, none => if Scalar.eq a 0 then y.neg else .binary .sub x y
  | none, none => .binary .sub x y

/-- The product of a constant and a tree that is none, `whole` when nothing folds. -/
def scale (a : ρ) (x whole : Expr ρ) : Expr ρ :=
  if Scalar.eq a 0 then zero
  else if Scalar.eq a 1 then x
  else if Scalar.eq a (-1) then x.neg
  else whole

/-- The product of two trees. -/
def mul (x y : Expr ρ) : Expr ρ :=
  match x.asConstant?, y.asConstant? with
  | some a, some b => .constant (a * b)
  | some a, none => scale a y (.binary .mul x y)
  | none, some b => scale b x (.binary .mul x y)
  | none, none => .binary .mul x y

/-- The quotient of two trees.  A constant divided by zero stays as it is, unless it
is zero itself. -/
def div (x y : Expr ρ) : Expr ρ :=
  match x.asConstant?, y.asConstant? with
  | some a, some b =>
    if Scalar.ne b 0 then .constant (a / b)
    else if Scalar.eq a 0 then zero
    else .binary .div x y
  | some a, none => if Scalar.eq a 0 then zero else .binary .div x y
  | none, some b => if Scalar.eq b 1 then x else .binary .div x y
  | none, none => .binary .div x y

/-- A tree raised to a tree. -/
def pow (x y : Expr ρ) : Expr ρ :=
  match y.asConstant? with
  | some e =>
    if Scalar.eq e 1 then x
    else if Scalar.eq e 0 then one
    else match x.asConstant? with
      | some b => .constant (Scalar.pow b e)
      | none => .binary .pow x y
  | none => .binary .pow x y

/-- A choice between two trees. -/
def select (condition ifTrue ifFalse : Expr ρ) : Expr ρ :=
  if same ifTrue ifFalse then ifTrue
  else match condition.asConstant? with
    | some c => if Scalar.ne c 0 then ifTrue else ifFalse
    | none => .conditional condition ifTrue ifFalse

instance : Neg (Expr ρ) := ⟨neg⟩
instance : Add (Expr ρ) := ⟨add⟩
instance : Sub (Expr ρ) := ⟨sub⟩
instance : Mul (Expr ρ) := ⟨mul⟩
instance : Div (Expr ρ) := ⟨div⟩

end Expr
end CircuitExpr
