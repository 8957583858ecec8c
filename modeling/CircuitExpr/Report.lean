/-
# Reports

The report on an expression shows its tree, its variables, its derivatives and its
value.  The value, and those of the derivatives, are shown only when every variable
of the expression is assigned one; otherwise the report names the variables that are
not.

A report that fails keeps the lines before the failure.
-/

import CircuitExpr.Assignment
import CircuitExpr.Equation.Text

namespace CircuitExpr

/-- A report: what was shown, and the message of the error that ended it early. -/
structure Report where
  /-- The lines shown. -/
  shown : String
  /-- The message of the error, if there was one. -/
  failure : Option String

namespace Report

variable {ρ : Type} [Scalar ρ] [Numeral ρ]

/-- The text of a value; one that is missing is shown as undefined. -/
def valueText (x : Option ρ) : String := Numeral.text (x.getD Scalar.nan)

/-- The lines about the tree and its variables. -/
def treeLines (colours : Bool) (e : Expr ρ) : List String :=
  [labelled colours "Tree" (" " ++ e.text),
    labelled colours "Variables" (" " ++ variablesText e.vars)]

/-- The lines about an expression some of whose variables have no value. -/
def openLines (colours : Bool) (w : Vocabulary ρ) (e : Expr ρ) (unset : List Variable) :
    List String :=
  let names := ", ".intercalate (unset.map Variable.text)
  derivativesLines colours ((e.derive w e.vars).map Derivatives.texts)
    ++ [labelled colours "Value"
      (" unset variables " ++ Colour.paint .yellow colours names ++ " (use --set)")]

/-- The text of a derivative of an equation with its value. -/
def slopeText (b : Backend ρ Cell ρ) (memory : Cell → ρ) (q : Equation ρ Cell ρ) (v : Variable)
    (d : Expr ρ) : Except EquationError String :=
  (q.derivativeBy v).map fun slope =>
    derivativeText v d ++ " = " ++ valueText (slope.value? b memory)

/-- The lines about an equation all of whose variables have values. -/
def valueLines (colours : Bool) (b : Backend ρ Cell ρ) (memory : Cell → ρ) (q : Equation ρ Cell ρ) :
    Except EquationError (List String) := do
  let derivatives ← match q.derivatives with
    | none => pure none
    | some ds => some <$> ds.entries.mapM fun e => slopeText b memory q e.1 e.2
  return derivativesLines colours derivatives
    ++ [labelled colours "Value" (" " ++ valueText (q.eval b memory))]

/-- The report on an expression, given the values of some variables. -/
def ofValues (colours : Bool) (s : Setting ρ Cell ρ) (values : List (Variable × ρ)) (text : String) :
    Report :=
  match Expr.parse s.vocabulary.constant? text with
  | .error e => ⟨"", some e.message⟩
  | .ok e =>
    let (bindings, store) := Bindings.empty.insertAll Store.empty values
    let unset := e.vars.filter fun v => !bindings.contains v
    if unset.isEmpty then
      let outcome := (Equation.ofText s bindings.resolver text ()).1.bind
        (valueLines colours s.backend fun c => store.getD c Scalar.nan)
      match outcome with
      | .error e' => ⟨linesText (treeLines colours e), some e'.message⟩
      | .ok more => ⟨linesText (treeLines colours e ++ more), none⟩
    else ⟨linesText (treeLines colours e ++ openLines colours s.vocabulary e unset), none⟩

/-- The report on an expression, given assignments. -/
def ofAssignments (colours : Bool) (s : Setting ρ Cell ρ) (assignments : List String) (text : String) :
    Report :=
  match assignments.mapM (Assignment.read s) with
  | .error e => ⟨"", some e.message⟩
  | .ok values => ofValues colours s values text

end Report
end CircuitExpr
