/-
# The text of an expression

`text` writes a tree so that it can be read again: every operator between two
operands and every choice stands in parentheses, and so does the operand of an
operator in front.  Exclusive or, which has no symbol, is written as a call.
-/

import CircuitExpr.Expr

namespace CircuitExpr
namespace Expr

variable {ρ : Type} [Numeral ρ]

mutual

/-- The text of a tree. -/
def text : Expr ρ → String
  | .constant c => Numeral.text c
  | .var v => v.text
  | .unary op x => op.symbol ++ "(" ++ text x ++ ")"
  | .binary .xor x y => "xor(" ++ text x ++ ", " ++ text y ++ ")"
  | .binary op x y => "(" ++ text x ++ " " ++ op.symbol ++ " " ++ text y ++ ")"
  | .call name args => name ++ "(" ++ argsText args ++ ")"
  | .conditional c t f => "(" ++ text c ++ " ? " ++ text t ++ " : " ++ text f ++ ")"

/-- The texts of some arguments, separated by commas. -/
def argsText : List (Expr ρ) → String
  | [] => ""
  | [x] => text x
  | x :: y :: xs => text x ++ ", " ++ argsText (y :: xs)

end

end Expr
end CircuitExpr
