/-
# Exact listings

The listing of a tree names each of its parts, so that trees with the same text
but different parts are told apart.
-/

import CircuitExpr.Expr
import CircuitExpr.Text.Quoted

namespace CircuitExpr

/-- Items between brackets, separated by commas. -/
def bracketed (items : List String) : String := "[" ++ ", ".intercalate items ++ "]"

/-- The listing of the name of a kind of quantity. -/
def Variable.Kind.listing : Variable.Kind → String
  | .voltage => "Voltage"
  | .current => "Current"
  | .property => "Property"
  | .named => "Named"

/-- The listing of a variable. -/
def Variable.listing (v : Variable) : String :=
  let reference := match v.reference with
    | none => "None"
    | some r => "Some(" ++ Text.quote r ++ ")"
  "VariableNode \x7b kind: " ++ v.kind.listing ++ ", name: " ++ Text.quote v.name
    ++ ", reference: " ++ reference ++ " \x7d"

namespace Expr

variable {ρ : Type} [Numeral ρ]

mutual

/-- The listing of a tree. -/
def listing : Expr ρ → String
  | .constant c => "Constant(Number(" ++ Numeral.inspect c ++ "))"
  | .var v => "Variable(" ++ v.listing ++ ")"
  | .unary op x => "Unary(" ++ op.name ++ ", " ++ listing x ++ ")"
  | .binary op x y => "Binary(" ++ op.name ++ ", " ++ listing x ++ ", " ++ listing y ++ ")"
  | .call name args =>
    "Call(" ++ Text.quote name ++ ", " ++ bracketed (listings args) ++ ")"
  | .conditional c t f =>
    "Conditional(" ++ listing c ++ ", " ++ listing t ++ ", " ++ listing f ++ ")"

/-- The listings of some trees. -/
def listings : List (Expr ρ) → List String
  | [] => []
  | x :: xs => listing x :: listings xs

end

end Expr
end CircuitExpr
