/-
# The names that an expression may use

A vocabulary holds functions and constants under their names.  Case does not
matter: both are kept under the name in small letters.  Giving a name again
replaces what it meant.
-/

import CircuitExpr.NamedFunction
import CircuitExpr.OrderedMap
import CircuitExpr.Text.Lowercase

namespace CircuitExpr

/-- Functions and constants by name. -/
structure Vocabulary (ρ : Type) where
  /-- The functions, under their names in small letters. -/
  functions : OrderedMap String (NamedFunction ρ)
  /-- The constants, under their names in small letters. -/
  constants : OrderedMap String ρ

namespace Vocabulary

variable {ρ : Type}

/-- The vocabulary without names. -/
def empty : Vocabulary ρ := ⟨.empty, .empty⟩

/-- The function of a name. -/
def function? (w : Vocabulary ρ) (name : String) : Option (NamedFunction ρ) :=
  w.functions.get? (Text.lowercase name)

/-- The function of a name that takes this many arguments. -/
def functionOf? (w : Vocabulary ρ) (name : String) (arity : Nat) : Option (NamedFunction ρ) :=
  (w.function? name).filter fun f => f.arity == arity

/-- The constant of a name. -/
def constant? (w : Vocabulary ρ) (name : String) : Option ρ :=
  w.constants.get? (Text.lowercase name)

/-- The vocabulary with a function added or replaced. -/
def register (w : Vocabulary ρ) (f : NamedFunction ρ) : Vocabulary ρ :=
  { w with functions := w.functions.insert (Text.lowercase f.name) f }

/-- The vocabulary with some functions added or replaced, one after the other. -/
def registerAll (w : Vocabulary ρ) (fs : List (NamedFunction ρ)) : Vocabulary ρ :=
  fs.foldl register w

/-- The vocabulary with a constant added or replaced. -/
def define (w : Vocabulary ρ) (name : String) (value : ρ) : Vocabulary ρ :=
  { w with constants := w.constants.insert (Text.lowercase name) value }

/-- The names of the functions, in the order of their code points. -/
def names (w : Vocabulary ρ) : List String :=
  (w.functions.values.map NamedFunction.name).mergeSort fun a b => decide (a ≤ b)

/-- How many functions there are. -/
def size (w : Vocabulary ρ) : Nat := w.functions.size

/-- Are there no functions? -/
def isEmpty (w : Vocabulary ρ) : Bool := w.functions.isEmpty

/-- A function that was added is found, whatever the case of its name. -/
theorem function?_register (w : Vocabulary ρ) (f : NamedFunction ρ) (name : String) :
    (w.register f).function? name =
      if Text.lowercase f.name = Text.lowercase name then some f else w.function? name :=
  OrderedMap.get?_insert ..

end Vocabulary
end CircuitExpr
