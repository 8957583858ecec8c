/-
# Operators

The operators that stand before an operand or between two, with their symbols and
how tightly they bind:

| strength | operators | grouping |
| --- | --- | --- |
| 1 | logical or | left |
| 2 | logical and, exclusive or | left |
| 3 | equal, not equal | left |
| 4 | less, at most, greater, at least | left |
| 5 | sum, difference | left |
| 6 | product, quotient, remainder | left |
| 7 | power | right |

The choice between two branches binds less tightly than all of them, an operator
before an operand more tightly.  Exclusive or has a strength but no symbol that
can be written between operands.
-/

namespace CircuitExpr

/-- The operators before an operand. -/
inductive UnaryOp where
  /-- The operand itself. -/
  | plus
  /-- The operand with the other sign. -/
  | minus
  /-- Is the operand false? -/
  | not
deriving DecidableEq, Repr

/-- The operators between two operands. -/
inductive BinaryOp where
  /-- The sum. -/
  | add
  /-- The difference. -/
  | sub
  /-- The product. -/
  | mul
  /-- The quotient. -/
  | div
  /-- The remainder of the truncated quotient. -/
  | mod
  /-- The power. -/
  | pow
  /-- Are both operands true? -/
  | and
  /-- Is one operand true? -/
  | or
  /-- Is exactly one operand true? -/
  | xor
  /-- Are the operands equal? -/
  | eq
  /-- Do the operands differ? -/
  | ne
  /-- Is the left operand less? -/
  | lt
  /-- Is the left operand less or equal? -/
  | le
  /-- Is the left operand greater? -/
  | gt
  /-- Is the left operand greater or equal? -/
  | ge
deriving DecidableEq, Repr

namespace UnaryOp

/-- The operators before an operand, in the order in which they are listed. -/
def all : List UnaryOp := [plus, minus, not]

/-- The symbol in the text of an expression. -/
def symbol : UnaryOp → String
  | plus => "+"
  | minus => "-"
  | not => "!"

/-- The name in the listing of a tree. -/
def name : UnaryOp → String
  | plus => "Plus"
  | minus => "Minus"
  | not => "Not"

end UnaryOp

namespace BinaryOp

/-- The operators between two operands, in the order in which they are listed. -/
def all : List BinaryOp :=
  [add, sub, mul, div, mod, pow, and, or, xor, eq, ne, lt, le, gt, ge]

/-- The symbol in the text of an expression. -/
def symbol : BinaryOp → String
  | add => "+"
  | sub => "-"
  | mul => "*"
  | div => "/"
  | mod => "%"
  | pow => "^"
  | and => "&&"
  | or => "||"
  | xor => "xor"
  | eq => "=="
  | ne => "!="
  | lt => "<"
  | le => "<="
  | gt => ">"
  | ge => ">="

/-- The name in the listing of a tree. -/
def name : BinaryOp → String
  | add => "Add"
  | sub => "Sub"
  | mul => "Mul"
  | div => "Div"
  | mod => "Mod"
  | pow => "Pow"
  | and => "And"
  | or => "Or"
  | xor => "Xor"
  | eq => "Eq"
  | ne => "Ne"
  | lt => "Lt"
  | le => "Le"
  | gt => "Gt"
  | ge => "Ge"

/-- How tightly the operator binds: the higher, the tighter. -/
def precedence : BinaryOp → Nat
  | or => 1
  | and | xor => 2
  | eq | ne => 3
  | lt | le | gt | ge => 4
  | add | sub => 5
  | mul | div | mod => 6
  | pow => 7

/-- Does a chain of this operator group from the right? -/
def isRightAssociative : BinaryOp → Bool
  | pow => true
  | _ => false

/-- Does the operator answer a question? -/
def isBoolean : BinaryOp → Bool
  | and | or | xor | eq | ne | lt | le | gt | ge => true
  | add | sub | mul | div | mod | pow => false

/-- The levels of operators start at one. -/
theorem precedence_pos (op : BinaryOp) : 0 < op.precedence := by cases op <;> decide

/-- The levels end at seven, that of the power. -/
theorem precedence_le (op : BinaryOp) : op.precedence ≤ 7 := by cases op <;> decide

end BinaryOp
end CircuitExpr
