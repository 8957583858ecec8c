/-
# Cells

A store keeps values in cells.  A cell is a place, not a value: whoever holds it
reads what was written there last, by whomever.  Cells are made by the store and
never go away.
-/

namespace CircuitExpr

/-- A place for a value. -/
structure Cell where
  /-- Which of the places of the store it is. -/
  index : Nat
deriving DecidableEq, Repr

/-- The values in all cells. -/
structure Store (α : Type) where
  /-- The values, the cell made first in front. -/
  values : Array α

namespace Store

variable {α : Type}

/-- The store without cells. -/
def empty : Store α := ⟨#[]⟩

/-- How many cells there are. -/
def size (s : Store α) : Nat := s.values.size

/-- The cell that is made next. -/
def nextCell (s : Store α) : Cell := ⟨s.size⟩

/-- The store with one more cell, the next one, and a value in it. -/
def add (s : Store α) (x : α) : Store α := ⟨s.values.push x⟩

/-- The value in a cell, if the cell is in the store. -/
def get? (s : Store α) (c : Cell) : Option α := s.values[c.index]?

/-- The store with a value written to a cell. -/
def set (s : Store α) (c : Cell) (x : α) : Store α := ⟨s.values.setIfInBounds c.index x⟩

/-- The value in a cell, or another if the cell is not in the store. -/
def getD (s : Store α) (c : Cell) (otherwise : α) : α := (s.get? c).getD otherwise

/-- **A write is seen in its own cell and in no other.** -/
theorem get?_set (s : Store α) (c d : Cell) (x : α) :
    (s.set c x).get? d = if c = d then (s.get? d).map fun _ => x else s.get? d := by
  have h : c = d ↔ c.index = d.index := by cases c; cases d; simp
  by_cases hcd : c = d
  · subst hcd
    by_cases hc : c.index < s.values.size <;>
      simp [get?, set, hc]
  · have hi : c.index ≠ d.index := fun hi => hcd (h.mpr hi)
    simp [get?, set, hcd, hi]

/-- **A new cell holds its value,** and the others what they held. -/
theorem get?_add (s : Store α) (x : α) (d : Cell) :
    (s.add x).get? d = if d = s.nextCell then some x else s.get? d := by
  have h : d = s.nextCell ↔ d.index = s.values.size := by
    cases d; simp [nextCell, size]
  simp only [get?, add, h, Array.getElem?_push]

end Store
end CircuitExpr
