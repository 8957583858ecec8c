/-
# Tokens

The text of an expression is a sequence of tokens: numbers, identifiers and the
symbols of `Symbol`, each with its own characters and with the place, in bytes of
the UTF-8 text, where it starts.
-/

import CircuitExpr.Scalar
import CircuitExpr.Operator

namespace CircuitExpr

/-- The symbols of the notation. -/
inductive Symbol where
  /-- The symbol `+`. -/
  | plus
  /-- The symbol `-`. -/
  | minus
  /-- The symbol `*`. -/
  | star
  /-- The symbol `/`. -/
  | slash
  /-- The symbol `%`. -/
  | percent
  /-- The symbol `^`. -/
  | caret
  /-- The symbol `!`. -/
  | bang
  /-- The symbol `==`. -/
  | equalEqual
  /-- The symbol `!=`. -/
  | bangEqual
  /-- The symbol `<`. -/
  | less
  /-- The symbol `<=`. -/
  | lessEqual
  /-- The symbol `>`. -/
  | greater
  /-- The symbol `>=`. -/
  | greaterEqual
  /-- The symbol `&&`. -/
  | andAnd
  /-- The symbol `||`. -/
  | orOr
  /-- The symbol `(`. -/
  | leftParen
  /-- The symbol `)`. -/
  | rightParen
  /-- The symbol `[`. -/
  | leftBracket
  /-- The symbol `]`. -/
  | rightBracket
  /-- The symbol `,`. -/
  | comma
  /-- The symbol `:`. -/
  | colon
  /-- The symbol `?`. -/
  | question
  /-- The symbol `@`. -/
  | atSign
deriving DecidableEq, Repr

namespace Symbol

/-- The symbol of one character. -/
def ofChar? : Char → Option Symbol
  | '+' => some plus
  | '-' => some minus
  | '*' => some star
  | '/' => some slash
  | '%' => some percent
  | '^' => some caret
  | '!' => some bang
  | '<' => some less
  | '>' => some greater
  | '(' => some leftParen
  | ')' => some rightParen
  | '[' => some leftBracket
  | ']' => some rightBracket
  | ',' => some comma
  | ':' => some colon
  | '?' => some question
  | '@' => some atSign
  | _ => none

/-- The symbol of two characters. -/
def ofPair? : Char → Char → Option Symbol
  | '=', '=' => some equalEqual
  | '!', '=' => some bangEqual
  | '<', '=' => some lessEqual
  | '>', '=' => some greaterEqual
  | '&', '&' => some andAnd
  | '|', '|' => some orOr
  | _, _ => none

/-- The operator between two operands that a symbol stands for. -/
def operator? : Symbol → Option BinaryOp
  | plus => some .add
  | minus => some .sub
  | star => some .mul
  | slash => some .div
  | percent => some .mod
  | caret => some .pow
  | andAnd => some .and
  | orOr => some .or
  | equalEqual => some .eq
  | bangEqual => some .ne
  | less => some .lt
  | lessEqual => some .le
  | greater => some .gt
  | greaterEqual => some .ge
  | bang | leftParen | rightParen | leftBracket | rightBracket | comma | colon | question
  | atSign => none

/-- The operator before an operand that a symbol stands for. -/
def sign? : Symbol → Option UnaryOp
  | plus => some .plus
  | minus => some .minus
  | bang => some .not
  | _ => none

end Symbol

/-- What a token is. -/
inductive Token.Kind (ρ : Type) where
  /-- A number, its suffix taken into account. -/
  | number (value : ρ)
  /-- A word. -/
  | identifier
  /-- A symbol. -/
  | symbol (s : Symbol)

/-- A token where it stands in the text. -/
structure Token (ρ : Type) where
  /-- What it is. -/
  kind : Token.Kind ρ
  /-- Its characters. -/
  lexeme : String
  /-- How many bytes of the text precede it. -/
  offset : Nat

/-- The tokens of a text that consists of tokens only. -/
structure Tokens (ρ : Type) where
  /-- The tokens in order. -/
  tokens : List (Token ρ)
  /-- How many bytes the text has. -/
  stop : Nat

end CircuitExpr
