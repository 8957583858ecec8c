/-
# Functions with a name

A function of the notation has a name, a number of arguments, and up to three
meanings: its values on real numbers, its values on complex numbers, and the rule
by which calls of it are differentiated.

A meaning receives the list of its arguments.  It may ask for more arguments than
it is given; then it has no value.
-/

import CircuitExpr.Expr.Fold
import CircuitExpr.Expr.Listing
import CircuitExpr.Complex

namespace CircuitExpr

/-- The values of a function: from the guard against division by zero and the
arguments.  There is none if an argument is missing. -/
abbrev Implementation (ρ α : Type) := ρ → List α → Option α

namespace Implementation

variable {ρ α : Type}

/-- A function of one argument. -/
def unary (f : α → α) : Implementation ρ α
  | _, x :: _ => some (f x)
  | _, [] => none

/-- A function of two arguments. -/
def binary (f : α → α → α) : Implementation ρ α
  | _, x :: y :: _ => some (f x y)
  | _, _ => none

/-- A function of two arguments that guards against division by zero. -/
def guarded (f : ρ → α → α → α) : Implementation ρ α
  | fudge, x :: y :: _ => some (f fudge x y)
  | _, _ => none

/-- A function of three arguments. -/
def ternary (f : α → α → α → α) : Implementation ρ α
  | _, x :: y :: z :: _ => some (f x y z)
  | _, _ => none

end Implementation

/-- How calls of a function are differentiated. -/
inductive Rule (ρ : Type) where
  /-- The function is constant wherever it has a derivative. -/
  | constant
  /-- The partial derivatives by each argument; a missing one is zero. -/
  | partials (f : List (Expr ρ) → List (Option (Expr ρ)))
  /-- The derivative from the arguments and their derivatives by one variable; a
  missing one is zero. -/
  | direct (f : List (Expr ρ) → List (Option (Expr ρ)) → Option (Expr ρ))

/-- The word for the kind of a rule. -/
def Rule.name {ρ : Type} : Rule ρ → String
  | .constant => "Constant"
  | .partials _ => "Partials"
  | .direct _ => "Direct"

/-- The rule of a function of one argument from its derivative. -/
def Rule.chain {ρ : Type} (f : Expr ρ → Expr ρ) : Rule ρ :=
  .partials fun
    | u :: _ => [some (f u)]
    | [] => []

/-- A function of the notation. -/
structure NamedFunction (ρ : Type) where
  /-- The name, in the case in which it was given. -/
  name : String
  /-- How many arguments it takes. -/
  arity : Nat
  /-- Its values on real numbers. -/
  real : Option (Implementation ρ ρ) := none
  /-- Its values on complex numbers. -/
  complex : Option (Implementation ρ (Complex ρ)) := none
  /-- How calls of it are differentiated. -/
  derivative : Option (Rule ρ) := none

namespace NamedFunction

variable {ρ : Type}

/-- A function of one argument with all its meanings. -/
def unary (name : String) (real : ρ → ρ) (complex : Complex ρ → Complex ρ)
    (derivative : Expr ρ → Expr ρ) : NamedFunction ρ :=
  ⟨name, 1, some (.unary real), some (.unary complex), some (.chain derivative)⟩

/-- The words for a truth value. -/
def flag (b : Bool) : String := if b then "true" else "false"

/-- The listing of a function: which meanings it has. -/
def listing (f : NamedFunction ρ) : String :=
  let derivative := match f.derivative with
    | none => "None"
    | some rule => "Some(" ++ rule.name ++ ")"
  "FunctionDef \x7b name: " ++ Text.quote f.name ++ ", arity: " ++ toString f.arity
    ++ ", real: " ++ flag f.real.isSome ++ ", complex: " ++ flag f.complex.isSome
    ++ ", derivative: " ++ derivative ++ " \x7d"

end NamedFunction
end CircuitExpr
