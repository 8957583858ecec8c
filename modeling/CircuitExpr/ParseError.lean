/-
# Errors in the text of an expression

An error names its cause and the place in the text, in bytes, where it was found.
Texts that do not consist of tokens are told apart from those whose tokens do not
form an expression.
-/

namespace CircuitExpr

/-- What the notation asks for at some place. -/
inductive Wanted where
  /-- The beginning of an expression. -/
  | operand
  /-- The name of a node. -/
  | nodeName
  /-- The name of the node that a voltage is measured against. -/
  | referenceNodeName
  /-- The name of a device. -/
  | deviceName
  /-- The name of a property. -/
  | propertyName
  /-- The colon between the branches of a choice. -/
  | colon
  /-- The end of a parenthesis. -/
  | rightParen
  /-- The end of a list of arguments, or another argument. -/
  | rightParenOrComma
  /-- The beginning of a property. -/
  | leftBracket
  /-- The end of a property. -/
  | rightBracket
deriving DecidableEq, Repr

/-- The words for what is asked for. -/
def Wanted.text : Wanted → String
  | operand => "an operand"
  | nodeName => "node name"
  | referenceNodeName => "reference node name"
  | deviceName => "device name"
  | propertyName => "property name"
  | colon => "':'"
  | rightParen => "')'"
  | rightParenOrComma => "')' or ','"
  | leftBracket => "'['"
  | rightBracket => "']'"

/-- Why a text is no expression. -/
inductive ParseError where
  /-- No token starts with the character. -/
  | unexpectedCharacter (character : Char) (offset : Nat)
  /-- The digits of a number are none. -/
  | invalidNumber (digits : String) (offset : Nat)
  /-- Another token stands where something is asked for. -/
  | unexpectedToken (wanted : Wanted) (lexeme : String) (offset : Nat)
  /-- The text ends where something is asked for. -/
  | unexpectedEnd (wanted : Wanted) (offset : Nat)
  /-- An expression is complete, and a token follows. -/
  | trailingToken (lexeme : String) (offset : Nat)
deriving DecidableEq, Repr

namespace ParseError

/-- The place in the text. -/
def offset : ParseError → Nat
  | unexpectedCharacter _ o | invalidNumber _ o | unexpectedToken _ _ o | unexpectedEnd _ o
  | trailingToken _ o => o

/-- The character that no token starts with. -/
def character? : ParseError → Option Char
  | unexpectedCharacter c _ => some c
  | _ => none

/-- What is wrong at that place. -/
def detail : ParseError → String
  | unexpectedCharacter c _ => "unexpected character '" ++ c.toString ++ "'"
  | invalidNumber digits _ => "invalid number '" ++ digits ++ "'"
  | unexpectedToken wanted lexeme _ => "expected " ++ wanted.text ++ ", found '" ++ lexeme ++ "'"
  | unexpectedEnd wanted _ => "expected " ++ wanted.text ++ ", found end of input"
  | trailingToken lexeme _ => "unexpected '" ++ lexeme ++ "'"

/-- The message of an error. -/
def message (e : ParseError) : String :=
  match e with
  | unexpectedCharacter .. => e.detail ++ " at offset " ++ toString e.offset
  | _ => "syntax error at offset " ++ toString e.offset ++ ": " ++ e.detail

end ParseError
end CircuitExpr
