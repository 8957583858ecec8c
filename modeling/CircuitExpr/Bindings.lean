/-
# Cells for variables

Bindings give variables their cells.  A variable keeps the cell, and its place in
the order, that it got when it was inserted first.  Two bindings may name the same
cells: a copy of bindings sees every later write to the cells that it knows, and
none of the variables that are inserted elsewhere.
-/

import CircuitExpr.Evaluator.Build
import CircuitExpr.Store

namespace CircuitExpr

/-- The cells of some variables. -/
structure Bindings where
  /-- The cells, in the order in which the variables were inserted. -/
  cells : OrderedMap Variable Cell

namespace Bindings

variable {α : Type}

/-- The bindings of no variable. -/
def empty : Bindings := ⟨.empty⟩

/-- The cell of a variable. -/
def cell? (b : Bindings) (v : Variable) : Option Cell := b.cells.get? v

/-- Gives a variable a value: in its cell, or in a new one. -/
def insert (b : Bindings) (s : Store α) (v : Variable) (x : α) : Cell × Bindings × Store α :=
  match b.cell? v with
  | some c => (c, b, s.set c x)
  | none => (s.nextCell, ⟨b.cells.insert v s.nextCell⟩, s.add x)

/-- Writes to the cell of a variable.  The answer is whether it has one. -/
def set (b : Bindings) (s : Store α) (v : Variable) (x : α) : Bool × Store α :=
  match b.cell? v with
  | some c => (true, s.set c x)
  | none => (false, s)

/-- The value of a variable. -/
def get? (b : Bindings) (s : Store α) (v : Variable) : Option α := (b.cell? v).bind s.get?

/-- Does the variable have a cell? -/
def contains (b : Bindings) (v : Variable) : Bool := b.cells.contains v

/-- The variables in the order in which they were inserted. -/
def vars (b : Bindings) : List Variable := b.cells.keys

/-- How many variables there are. -/
def size (b : Bindings) : Nat := b.cells.size

/-- Are there no variables? -/
def isEmpty (b : Bindings) : Bool := b.cells.isEmpty

/-- Gives values to some variables, one after the other. -/
def insertAll (b : Bindings) (s : Store α) (values : List (Variable × α)) :
    Bindings × Store α :=
  values.foldl (fun (b, s) (v, x) => (b.insert s v x).2) (b, s)

/-- The host whose sources are the cells. -/
def resolver (b : Bindings) : Resolver Unit Cell := fun v state => (b.cell? v, state)

end Bindings
end CircuitExpr
