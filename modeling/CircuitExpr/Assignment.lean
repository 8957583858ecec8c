/-
# Assignments

An assignment `variable=value` is split at its first `=`.  The left side is the text
of a variable; the right side is an expression without variables, so that suffixes,
constants and functions may be used in it.
-/

import CircuitExpr.Bindings
import CircuitExpr.Expr.Parser
import CircuitExpr.Expr.Text

namespace CircuitExpr
namespace Assignment

/-- Why a text is no assignment. -/
inductive Error where
  /-- There is no `=`. -/
  | incomplete (text : String)
  /-- One of the sides is no expression. -/
  | parse (cause : ParseError)
  /-- The left side is something else than a variable; its text is given. -/
  | notVariable (text : String)
  /-- The right side cannot be evaluated. -/
  | build (cause : BuildError)
deriving DecidableEq, Repr

/-- The message of an error. -/
def Error.message : Error → String
  | incomplete text => "expected <variable>=<value>, got '" ++ text ++ "'"
  | parse cause => cause.message
  | notVariable text => "'" ++ text ++ "' is not a variable"
  | build cause => cause.message

/-- What stands before and after the first `=`. -/
def split? (text : String) : Option (String × String) :=
  let cs := text.toList
  match cs.dropWhile (· != '=') with
  | [] => none
  | _ :: after => some (String.ofList (cs.takeWhile (· != '=')), String.ofList after)

variable {ρ : Type} [Scalar ρ] [Numeral ρ]

/-- Reads a variable. -/
def readVariable (w : Vocabulary ρ) (text : String) : Except Error Variable :=
  match Expr.parse w.constant? text with
  | .error e => .error (.parse e)
  | .ok (.var v) => .ok v
  | .ok e => .error (.notVariable e.text)

/-- Reads a value. -/
def readValue (s : Setting ρ Cell ρ) (text : String) : Except Error ρ :=
  match Expr.parse s.vocabulary.constant? text with
  | .error e => .error (.parse e)
  | .ok e =>
    match (Evaluator.build s Bindings.empty.resolver e ()).1 with
    | .error e => .error (.build e)
    | .ok value => .ok ((value.value? s.backend fun _ => Scalar.nan).getD Scalar.nan)

/-- Reads an assignment. -/
def read (s : Setting ρ Cell ρ) (text : String) : Except Error (Variable × ρ) :=
  match split? text with
  | none => .error (.incomplete text)
  | some (left, right) => do
    let v ← readVariable s.vocabulary left
    let x ← readValue s right
    return (v, x)

end Assignment
end CircuitExpr
