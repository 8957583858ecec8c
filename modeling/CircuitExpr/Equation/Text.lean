/-
# Equations as text

`describe` shows an equation over several lines: its text, tree, variables and
derivatives.  `listing` names each of its parts on one line, and so does the listing
of a system.
-/

import CircuitExpr.EquationSystem
import CircuitExpr.Expr.Listing
import CircuitExpr.Expr.Text
import CircuitExpr.Text.Colour

namespace CircuitExpr

variable {ρ S α : Type} [Numeral ρ]

/-- Some lines, each ended. -/
def linesText (ls : List String) : String := String.join (ls.map fun l => l ++ "\n")

/-- A label in front of a text. -/
def labelled (colours : Bool) (label : String) (text : String) : String :=
  Colour.paint .cyan colours label ++ ":" ++ text

/-- The texts of some variables, in brackets. -/
def variablesText (vs : List Variable) : String := bracketed (vs.map Variable.text)

/-- The text of a derivative by a variable. -/
def derivativeText (v : Variable) (d : Expr ρ) : String := "d/d" ++ v.text ++ ": " ++ d.text

/-- The lines about derivatives, one for each derivative that there is. -/
def derivativesLines (colours : Bool) (derivatives : Option (List String)) : List String :=
  match derivatives with
  | none => [labelled colours "Derivatives" (" " ++ Colour.paint .red colours "not differentiable")]
  | some ds => labelled colours "Derivatives" "" :: ds.map fun d => "    " ++ d

namespace Derivatives

/-- The texts of derivatives. -/
def texts (ds : Derivatives ρ) : List String := ds.entries.map fun e => derivativeText e.1 e.2

/-- The listing of derivatives. -/
def listing (ds : Derivatives ρ) : String :=
  "\x7b" ++ ", ".intercalate (ds.entries.map fun e => e.1.listing ++ ": " ++ e.2.listing)
    ++ "\x7d"

end Derivatives

namespace Equation

/-- An equation over several lines. -/
def describe (colours : Bool) (q : Equation ρ S α) : String :=
  let inner := [labelled colours "Equation" (" " ++ q.text),
      labelled colours "Tree" (" " ++ q.expr.text),
      labelled colours "Variables" (" " ++ variablesText q.vars)]
    ++ derivativesLines colours (q.derivatives.map Derivatives.texts)
  linesText ("\x7b" :: inner.map (fun l => "    " ++ l) ++ ["\x7d"])

/-- The listing of an equation. -/
def listing (q : Equation ρ S α) : String :=
  let derivatives := match q.derivatives with
    | none => "None"
    | some ds => "Some(" ++ ds.listing ++ ")"
  "Equation \x7b text: " ++ Text.quote q.text ++ ", node: " ++ q.expr.listing
    ++ ", variables: " ++ bracketed (q.vars.map Variable.listing)
    ++ ", derivatives: " ++ derivatives ++ " \x7d"

end Equation

/-- The listing of a system of equations: its texts and variables. -/
def EquationSystem.listing {ρ S α : Type} (y : EquationSystem ρ S α) : String :=
  "EquationSystem \x7b equations: " ++ bracketed (y.texts.map Text.quote)
    ++ ", variables: " ++ bracketed (y.vars.map Variable.listing) ++ " \x7d"

end CircuitExpr
