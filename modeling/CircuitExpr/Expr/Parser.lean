/-
# From tokens to trees

The notation, from the loosest binding to the tightest:

> choice: operands `?` choice `:` choice, or operands
>
> operands: signed, joined by the operators of `BinaryOp.precedence`
>
> signed: `+`, `-` or `!` before signed, or primary
>
> primary: a number, a choice in parentheses, `V(node)`, `V(node,reference)`,
> `I(device)`, `@device[property]`, a call, or an identifier

`V` and `I` may be small letters.  An identifier is the constant that the given
table knows by its name, or else a variable.  The name of a node, a device or a
property is an identifier or a number, taken as it is written.

Operators are read by climbing: `operands least` reads the operands joined by
operators that bind at least as tightly as `least`, and `climb` goes on with what
was read as the left operand.  The functions read from the front of a list of
tokens and return the rest, which is shorter; together with their order above this
is why they come to an end.
-/

import CircuitExpr.Expr
import CircuitExpr.Token.Lexer

namespace CircuitExpr
namespace Expr
namespace Parser

variable {ρ : Type}

/-- What was read, and the tokens after it, fewer than `n`. -/
structure Parsed (ρ α : Type) (n : Nat) where
  /-- What was read. -/
  value : α
  /-- The tokens after it. -/
  rest : List (Token ρ)
  /-- There are fewer than `n` of them. -/
  rest_length : rest.length < n

/-- The same with a larger bound. -/
def Parsed.weaken {α : Type} {m n : Nat} (p : Parsed ρ α m) (h : m ≤ n) : Parsed ρ α n :=
  ⟨p.value, p.rest, Nat.lt_of_lt_of_le p.rest_length h⟩

/-- The outcome of reading from the front of fewer than `n` tokens. -/
abbrev Outcome (ρ α : Type) (n : Nat) := Except ParseError (Parsed ρ α n)

/-- What is known while a text is read. -/
structure Context (ρ : Type) where
  /-- The constants with a name. -/
  constant? : String → Option ρ
  /-- The length of the text. -/
  stop : Nat

/-- The error of tokens that start with something else than is wanted. -/
def unexpected (context : Context ρ) (wanted : Wanted) : List (Token ρ) → ParseError
  | [] => .unexpectedEnd wanted context.stop
  | t :: _ => .unexpectedToken wanted t.lexeme t.offset

/-- Reads one given symbol. -/
def symbol (context : Context ρ) (s : Symbol) (wanted : Wanted) (ts : List (Token ρ)) :
    Outcome ρ Unit ts.length :=
  match ts with
  | ⟨.symbol s', lexeme, offset⟩ :: rest =>
    if s' = s then .ok ⟨(), rest, Nat.lt_succ_self _⟩
    else .error (unexpected context wanted (⟨.symbol s', lexeme, offset⟩ :: rest))
  | ts => .error (unexpected context wanted ts)

/-- Reads the name of a node, a device or a property. -/
def name (context : Context ρ) (wanted : Wanted) (ts : List (Token ρ)) :
    Outcome ρ String ts.length :=
  match ts with
  | ⟨.identifier, lexeme, _⟩ :: rest => .ok ⟨lexeme, rest, Nat.lt_succ_self _⟩
  | ⟨.number _, lexeme, _⟩ :: rest => .ok ⟨lexeme, rest, Nat.lt_succ_self _⟩
  | ts => .error (unexpected context wanted ts)

/-- Reads the node after the comma of a voltage, if a comma comes first. -/
def reference (context : Context ρ) (ts : List (Token ρ)) :
    Outcome ρ (Option String) (ts.length + 1) :=
  match ts with
  | ⟨.symbol .comma, _, _⟩ :: rest =>
    match name context .referenceNodeName rest with
    | .error e => .error e
    | .ok node => .ok ⟨some node.value, node.rest, by
        have := node.rest_length
        simp only [List.length_cons]
        omega⟩
  | ts => .ok ⟨none, ts, Nat.lt_succ_self _⟩

/-- Reads a voltage after its opening parenthesis. -/
def voltage (context : Context ρ) (ts : List (Token ρ)) : Outcome ρ Variable ts.length :=
  match name context .nodeName ts with
  | .error e => .error e
  | .ok node =>
    match reference context node.rest with
    | .error e => .error e
    | .ok against =>
      match symbol context .rightParen .rightParen against.rest with
      | .error e => .error e
      | .ok close => .ok ⟨⟨.voltage, node.value, against.value⟩, close.rest, by
          have := node.rest_length
          have := against.rest_length
          have := close.rest_length
          omega⟩

/-- Reads a current after its opening parenthesis. -/
def current (context : Context ρ) (ts : List (Token ρ)) : Outcome ρ Variable ts.length :=
  match name context .deviceName ts with
  | .error e => .error e
  | .ok device =>
    match symbol context .rightParen .rightParen device.rest with
    | .error e => .error e
    | .ok close => .ok ⟨.current device.value, close.rest, by
        have := device.rest_length
        have := close.rest_length
        omega⟩

/-- Reads a property after its mark. -/
def property (context : Context ρ) (ts : List (Token ρ)) : Outcome ρ Variable ts.length :=
  match name context .deviceName ts with
  | .error e => .error e
  | .ok device =>
    match symbol context .leftBracket .leftBracket device.rest with
    | .error e => .error e
    | .ok opening =>
      match name context .propertyName opening.rest with
      | .error e => .error e
      | .ok property =>
        match symbol context .rightBracket .rightBracket property.rest with
        | .error e => .error e
        | .ok close => .ok ⟨.property device.value property.value, close.rest, by
            have := device.rest_length
            have := opening.rest_length
            have := property.rest_length
            have := close.rest_length
            omega⟩

/-- A word that stands alone: a constant, or a variable. -/
def word (context : Context ρ) (name : String) : Expr ρ :=
  match context.constant? name with
  | some x => .constant x
  | none => .var (.named name)

/-- Does a word before a parenthesis announce a voltage? -/
def isVoltage (name : String) : Bool := name == "v" || name == "V"

/-- Does a word before a parenthesis announce a current? -/
def isCurrent (name : String) : Bool := name == "i" || name == "I"

/-- The least strength that the right operand of an operator must have. -/
def rightStrength (op : BinaryOp) : Nat :=
  if op.isRightAssociative then op.precedence else op.precedence + 1

/-- Fewer tokens than given. -/
abbrev Shorter (ts : List (Token ρ)) := { rest : List (Token ρ) // rest.length < ts.length }

/-- The operator between operands that the tokens start with, and the tokens after it. -/
def operator? (ts : List (Token ρ)) : Option (BinaryOp × Shorter ts) :=
  match ts with
  | ⟨.symbol s, _, _⟩ :: rest => s.operator?.map fun op => (op, ⟨rest, Nat.lt_succ_self _⟩)
  | _ => none

/-- Do the tokens start with this symbol?  If so, the tokens after it. -/
def after? (s : Symbol) (ts : List (Token ρ)) : Option (Shorter ts) :=
  match ts with
  | ⟨.symbol s', _, _⟩ :: rest => if s' = s then some ⟨rest, Nat.lt_succ_self _⟩ else none
  | _ => none

mutual

/-- Reads a choice, or operands. -/
def choice (context : Context ρ) (ts : List (Token ρ)) : Outcome ρ (Expr ρ) ts.length :=
  match operands context 1 ts with
  | .error e => .error e
  | .ok condition =>
    match after? .question condition.rest with
    | none => .ok condition
    | some ⟨rest, h⟩ =>
      have := condition.rest_length
      match choice context rest with
      | .error e => .error e
      | .ok ifTrue =>
        match symbol context .colon .colon ifTrue.rest with
        | .error e => .error e
        | .ok colon =>
          have := ifTrue.rest_length
          have := colon.rest_length
          match choice context colon.rest with
          | .error e => .error e
          | .ok ifFalse =>
            .ok ⟨.conditional condition.value ifTrue.value ifFalse.value, ifFalse.rest, by
              have := ifFalse.rest_length
              omega⟩
termination_by (ts.length, 4)

/-- Reads the operands joined by operators of strength `least` or more. -/
def operands (context : Context ρ) (least : Nat) (ts : List (Token ρ)) :
    Outcome ρ (Expr ρ) ts.length :=
  match signed context ts with
  | .error e => .error e
  | .ok left =>
    have := left.rest_length
    match climb context least left.value left.rest with
    | .error e => .error e
    | .ok whole => .ok (whole.weaken (Nat.succ_le_of_lt left.rest_length))
termination_by (ts.length, 3)

/-- Reads operators of strength `least` or more with their right operands, after a
left operand. -/
def climb (context : Context ρ) (least : Nat) (left : Expr ρ) (ts : List (Token ρ)) :
    Outcome ρ (Expr ρ) (ts.length + 1) :=
  match operator? ts with
  | none => .ok ⟨left, ts, Nat.lt_succ_self _⟩
  | some (op, ⟨rest, h⟩) =>
    if op.precedence < least then .ok ⟨left, ts, Nat.lt_succ_self _⟩
    else match operands context (rightStrength op) rest with
      | .error e => .error e
      | .ok right =>
        have := right.rest_length
        match climb context least (.binary op left right.value) right.rest with
        | .error e => .error e
        | .ok whole => .ok (whole.weaken (by omega))
termination_by (ts.length, 0)

/-- Reads an operand with the operators before it. -/
def signed (context : Context ρ) (ts : List (Token ρ)) : Outcome ρ (Expr ρ) ts.length :=
  match ts with
  | ⟨.symbol s, lexeme, offset⟩ :: rest =>
    match s.sign? with
    | none => primary context (⟨.symbol s, lexeme, offset⟩ :: rest)
    | some op =>
      match signed context rest with
      | .error e => .error e
      | .ok x => .ok ⟨.unary op x.value, x.rest, Nat.lt_succ_of_lt x.rest_length⟩
  | ts => primary context ts
termination_by (ts.length, 2)

/-- Reads an operand without operators before it. -/
def primary (context : Context ρ) (ts : List (Token ρ)) : Outcome ρ (Expr ρ) ts.length :=
  match ts with
  | ⟨.number x, _, _⟩ :: rest => .ok ⟨.constant x, rest, Nat.lt_succ_self _⟩
  | ⟨.symbol .leftParen, _, _⟩ :: rest =>
    match choice context rest with
    | .error e => .error e
    | .ok inner =>
      match symbol context .rightParen .rightParen inner.rest with
      | .error e => .error e
      | .ok close => .ok ⟨inner.value, close.rest, by
          have := inner.rest_length
          have := close.rest_length
          simp only [List.length_cons]
          omega⟩
  | ⟨.symbol .atSign, _, _⟩ :: rest =>
    match property context rest with
    | .error e => .error e
    | .ok v => .ok ⟨.var v.value, v.rest, Nat.lt_succ_of_lt v.rest_length⟩
  | ⟨.identifier, name, _⟩ :: rest =>
    match after? .leftParen rest with
    | none => .ok ⟨word context name, rest, Nat.lt_succ_self _⟩
    | some ⟨inner, h⟩ =>
      match call context name inner with
      | .error e => .error e
      | .ok x => .ok (x.weaken (by simp only [List.length_cons]; omega))
  | ts => .error (unexpected context .operand ts)
termination_by (ts.length, 1)

/-- Reads what follows a word and its opening parenthesis. -/
def call (context : Context ρ) (name : String) (ts : List (Token ρ)) :
    Outcome ρ (Expr ρ) ts.length :=
  if isVoltage name then
    match voltage context ts with
    | .error e => .error e
    | .ok v => .ok ⟨.var v.value, v.rest, v.rest_length⟩
  else if isCurrent name then
    match current context ts with
    | .error e => .error e
    | .ok v => .ok ⟨.var v.value, v.rest, v.rest_length⟩
  else match after? .rightParen ts with
    | some ⟨rest, h⟩ => .ok ⟨.call name [], rest, h⟩
    | none =>
      match arguments context ts with
      | .error e => .error e
      | .ok args => .ok ⟨.call name args.value, args.rest, args.rest_length⟩
termination_by (ts.length, 6)

/-- Reads at least one argument and the closing parenthesis. -/
def arguments (context : Context ρ) (ts : List (Token ρ)) :
    Outcome ρ (List (Expr ρ)) ts.length :=
  match choice context ts with
  | .error e => .error e
  | .ok first =>
    have := first.rest_length
    match after? .comma first.rest with
    | some ⟨rest, h⟩ =>
      match arguments context rest with
      | .error e => .error e
      | .ok others => .ok ⟨first.value :: others.value, others.rest, by
          have := others.rest_length
          omega⟩
    | none =>
      match symbol context .rightParen .rightParenOrComma first.rest with
      | .error e => .error e
      | .ok close => .ok ⟨[first.value], close.rest, by
          have := close.rest_length
          omega⟩
termination_by (ts.length, 5)

end

/-- Reads a whole sequence of tokens. -/
def whole (context : Context ρ) (ts : List (Token ρ)) : Except ParseError (Expr ρ) :=
  match choice context ts with
  | .error e => .error e
  | .ok x =>
    match x.rest with
    | [] => .ok x.value
    | t :: _ => .error (.trailingToken t.lexeme t.offset)

end Parser

/-- Reads an expression, given the constants with a name. -/
def parse {ρ : Type} [Scalar ρ] (constant? : String → Option ρ) (text : String) :
    Except ParseError (Expr ρ) :=
  match (Tokens.ofText text : Except ParseError (Tokens ρ)) with
  | .error e => .error e
  | .ok ts => Parser.whole ⟨constant?, ts.stop⟩ ts.tokens

end Expr
end CircuitExpr
