/-
# Expression trees

An expression is a tree of constants and variables under operators, calls of
functions by name, and choices between two branches.  Trees are compared by
`same`: constants count as one when `Scalar.same` says so, all else must agree
exactly, the letter case of function names included.

`Expr.induction` proves a property of all trees from its six cases, the arguments
of a call taken one by one.
-/

import CircuitExpr.Scalar
import CircuitExpr.Variable
import CircuitExpr.Operator

namespace CircuitExpr

/-- Expressions over the numbers `ρ`. -/
inductive Expr (ρ : Type) where
  /-- A number. -/
  | constant (value : ρ)
  /-- A quantity of the circuit. -/
  | var (v : Variable)
  /-- An operator before an operand. -/
  | unary (op : UnaryOp) (operand : Expr ρ)
  /-- An operator between two operands. -/
  | binary (op : BinaryOp) (left right : Expr ρ)
  /-- A function, by name, of some arguments. -/
  | call (name : String) (args : List (Expr ρ))
  /-- One of two branches, depending on whether the condition is true. -/
  | conditional (condition ifTrue ifFalse : Expr ρ)

namespace Expr

variable {ρ : Type}

/-- A property of all trees, shown from the parts of each to the whole. -/
@[elab_as_elim]
theorem induction {motive : Expr ρ → Prop}
    (constant : ∀ c, motive (.constant c))
    (var : ∀ v, motive (.var v))
    (unary : ∀ op x, motive x → motive (.unary op x))
    (binary : ∀ op x y, motive x → motive y → motive (.binary op x y))
    (call : ∀ name args, (∀ x ∈ args, motive x) → motive (.call name args))
    (conditional : ∀ c t f, motive c → motive t → motive f → motive (.conditional c t f))
    (e : Expr ρ) : motive e :=
  Expr.rec (motive_1 := motive) (motive_2 := fun args => ∀ x ∈ args, motive x)
    constant var unary binary call conditional
    (fun _ h => absurd h List.not_mem_nil)
    (fun _ _ hx hs y hy => (List.mem_cons.mp hy).elim (fun h => h ▸ hx) (hs y)) e

/-- The constant zero. -/
def zero [Scalar ρ] : Expr ρ := .constant 0

/-- The constant one. -/
def one [Scalar ρ] : Expr ρ := .constant 1

/-- The value of a constant. -/
def asConstant? : Expr ρ → Option ρ
  | .constant c => some c
  | _ => none

/-- The variable of a leaf. -/
def asVariable? : Expr ρ → Option Variable
  | .var v => some v
  | _ => none

/-- Is this a constant equal to zero? -/
def isZero [Scalar ρ] (e : Expr ρ) : Bool := e.asConstant?.any fun c => Scalar.eq c 0

/-- Is this a constant equal to one? -/
def isOne [Scalar ρ] (e : Expr ρ) : Bool := e.asConstant?.any fun c => Scalar.eq c 1

/-- The parts of a tree, from left to right. -/
def children : Expr ρ → List (Expr ρ)
  | .constant _ | .var _ => []
  | .unary _ x => [x]
  | .binary _ x y => [x, y]
  | .call _ args => args
  | .conditional c t f => [c, t, f]

mutual

/-- How many operators, calls, choices and leaves the tree has, a part that occurs
twice counting twice. -/
def size : Expr ρ → Nat
  | .constant _ | .var _ => 1
  | .unary _ x => 1 + size x
  | .binary _ x y => 1 + size x + size y
  | .call _ args => 1 + sizeList args
  | .conditional c t f => 1 + size c + size t + size f

/-- The sizes of some trees together. -/
def sizeList : List (Expr ρ) → Nat
  | [] => 0
  | x :: xs => size x + sizeList xs

end

/-- A tree is one larger than its parts together. -/
theorem size_eq (e : Expr ρ) : e.size = 1 + sizeList e.children := by
  cases e <;> simp [size, children, sizeList, Nat.add_assoc]

/-- No tree is empty. -/
theorem size_pos (e : Expr ρ) : 0 < e.size := by
  rw [size_eq]; omega

mutual

/-- Are two trees the same, constants counting as one when `Scalar.same` says so? -/
def same [Scalar ρ] : Expr ρ → Expr ρ → Bool
  | .constant a, .constant b => Scalar.same a b
  | .var v, .var w => decide (v = w)
  | .unary o x, .unary p y => decide (o = p) && same x y
  | .binary o x x', .binary p y y' => decide (o = p) && same x y && same x' y'
  | .call f xs, .call g ys => decide (f = g) && sameList xs ys
  | .conditional c t f, .conditional d u g => same c d && same t u && same f g
  | _, _ => false

/-- Are two lists of trees the same, one by one? -/
def sameList [Scalar ρ] : List (Expr ρ) → List (Expr ρ) → Bool
  | [], [] => true
  | x :: xs, y :: ys => same x y && sameList xs ys
  | _, _ => false

end

end Expr
end CircuitExpr
