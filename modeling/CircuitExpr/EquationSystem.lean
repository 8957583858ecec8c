/-
# Systems of equations

The equations of a system are differentiated by the same variables in the same
order, so that their derivatives form a matrix, the Jacobian: a row for each
equation, a column for each variable.

Values and Jacobian can also be written into places that the caller provides.  The
number of places is checked first, of the Jacobian row by row; rows before one that
fails stay written.
-/

import CircuitExpr.Equation

namespace CircuitExpr

/-- Equations differentiated by the same variables. -/
structure EquationSystem (ρ S α : Type) where
  /-- The equations. -/
  rows : List (Equation ρ S α)
  /-- The variables, in the order of the columns. -/
  vars : List Variable

namespace EquationSystem

variable {ρ S α σ : Type} [Scalar ρ]

/-- Differentiates expressions by some variables and builds the evaluators. -/
def ofExprs (s : Setting ρ S α) (host : Resolver σ S) (exprs : List (String × Expr ρ))
    (vars : List Variable) : Attempt EquationError σ (EquationSystem ρ S α) :=
  .andThen (.each (fun t => Equation.ofExpr s host t.1 t.2 vars) exprs) fun rows =>
    .done ⟨rows, vars⟩

/-- Reads the texts of a system; the first that is no expression is the error. -/
def readAll (s : Setting ρ S α) (texts : List String) :
    Except EquationError (List (String × Expr ρ)) :=
  texts.mapM fun text => (Equation.read s text).map fun e => (text, e)

/-- The variables of some expressions, each where it occurs first. -/
def unionOfVariables (exprs : List (Expr ρ)) : List Variable :=
  OrderedMap.distinct (exprs.flatMap Expr.vars)

/-- The system of some texts, differentiated by all their variables. -/
def ofTexts (s : Setting ρ S α) (host : Resolver σ S) (texts : List String) :
    Attempt EquationError σ (EquationSystem ρ S α) :=
  .andThen (.ofExcept (readAll s texts)) fun exprs =>
    ofExprs s host exprs (unionOfVariables (exprs.map Prod.snd))

/-- The system of some texts, differentiated by the given variables. -/
def ofTextsBy (s : Setting ρ S α) (host : Resolver σ S) (vars : List Variable)
    (texts : List String) : Attempt EquationError σ (EquationSystem ρ S α) :=
  .andThen (.ofExcept (readAll s texts)) fun exprs => ofExprs s host exprs vars

/-- The texts of the equations. -/
def texts (y : EquationSystem ρ S α) : List String := y.rows.map Equation.text

/-- How many equations there are. -/
def size (y : EquationSystem ρ S α) : Nat := y.rows.length

/-- Are there no equations? -/
def isEmpty (y : EquationSystem ρ S α) : Bool := y.rows.isEmpty

/-- Do all equations have derivatives? -/
def isDifferentiable (y : EquationSystem ρ S α) : Bool := y.rows.all Equation.isDifferentiable

/-- The values of the equations. -/
def eval (b : Backend ρ S α) (memory : S → α) (y : EquationSystem ρ S α) : List (Option α) :=
  y.rows.map (Equation.eval b memory)

/-- The matrix of derivatives. -/
def jacobian (b : Backend ρ S α) (memory : S → α) (y : EquationSystem ρ S α) :
    Except EquationError (List (List (Option α))) :=
  y.rows.mapM (Equation.gradient b memory)

/-- The derivatives of all equations by one variable. -/
def column (b : Backend ρ S α) (memory : S → α) (y : EquationSystem ρ S α) (v : Variable) :
    Except EquationError (List (Option α)) :=
  y.rows.mapM fun q => (q.derivativeBy v).map (Evaluator.value? b memory)

/-- Writes the values of some equations into places, one after the other, as long as there
are both. -/
def fillValues (b : Backend ρ S α) (memory : S → α) :
    List (Equation ρ S α) → List (Option α) → List (Option α)
  | q :: qs, _ :: places => q.eval b memory :: fillValues b memory qs places
  | _, places => places

/-- Writes the values of the equations into as many places. -/
def evalInto (b : Backend ρ S α) (memory : S → α) (y : EquationSystem ρ S α)
    (places : List (Option α)) : Except EquationError Unit × List (Option α) :=
  if places.length = y.size then (.ok (), fillValues b memory y.rows places)
  else (.error (.invalidOutputLength y.size places.length), places)

/-- Writes the derivatives of an equation by some variables into as many places, up to
the first that does not exist. -/
def fillRow (b : Backend ρ S α) (memory : S → α) (q : Equation ρ S α) :
    List Variable → List (Option α) → Except EquationError Unit × List (Option α)
  | v :: vs, place :: places =>
    match q.derivativeBy v with
    | .error e => (.error e, place :: places)
    | .ok slope =>
      let (result, rest) := fillRow b memory q vs places
      (result, slope.value? b memory :: rest)
  | _, places => (.ok (), places)

/-- Writes the derivatives of some equations into as many rows, up to the first row
that fails. -/
def fillRows (b : Backend ρ S α) (memory : S → α) (vars : List Variable) :
    List (Equation ρ S α) → List (List (Option α)) →
      Except EquationError Unit × List (List (Option α))
  | q :: qs, row :: rows =>
    if row.length = vars.length then
      match fillRow b memory q vars row with
      | (.error e, row) => (.error e, row :: rows)
      | (.ok _, row) =>
        let (result, rest) := fillRows b memory vars qs rows
        (result, row :: rest)
    else (.error (.invalidOutputLength vars.length row.length), row :: rows)
  | _, rows => (.ok (), rows)

/-- Writes the matrix of derivatives into as many rows. -/
def jacobianInto (b : Backend ρ S α) (memory : S → α) (y : EquationSystem ρ S α)
    (places : List (List (Option α))) :
    Except EquationError Unit × List (List (Option α)) :=
  if places.length = y.size then fillRows b memory y.vars y.rows places
  else (.error (.invalidOutputLength y.size places.length), places)

end EquationSystem
end CircuitExpr
