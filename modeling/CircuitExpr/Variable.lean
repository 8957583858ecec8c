/-
# Variables

A variable is a quantity of the circuit that an expression depends on.

| kind | text | the reference is |
| --- | --- | --- |
| voltage | `V(node)`, `V(node,reference)` | the node that the voltage is measured against |
| current | `I(device)` | not written |
| property | `@device[property]`, `@device` | the property |
| named | `name` | not written |

Two variables are the same when kind, name and reference agree, also where their
texts do not tell them apart.
-/

namespace CircuitExpr

/-- The kinds of quantities. -/
inductive Variable.Kind where
  /-- The voltage of a node, or between two nodes. -/
  | voltage
  /-- The current through a device. -/
  | current
  /-- A property of a device. -/
  | property
  /-- A quantity known by its name alone. -/
  | named
deriving DecidableEq, Repr

/-- A quantity that an expression depends on. -/
structure Variable where
  /-- What kind of quantity it is. -/
  kind : Variable.Kind
  /-- The node, device or quantity. -/
  name : String
  /-- The node a voltage is measured against, or the property of a device. -/
  reference : Option String
deriving DecidableEq, Repr

namespace Variable

/-- The voltage of a node. -/
def voltage (node : String) : Variable := ⟨.voltage, node, none⟩

/-- The voltage of a node measured against another. -/
def voltageBetween (node reference : String) : Variable := ⟨.voltage, node, some reference⟩

/-- The current through a device. -/
def current (device : String) : Variable := ⟨.current, device, none⟩

/-- A property of a device. -/
def property (device name : String) : Variable := ⟨.property, device, some name⟩

/-- A quantity known by its name alone. -/
def named (name : String) : Variable := ⟨.named, name, none⟩

/-- The text of a variable inside an expression. -/
def text (v : Variable) : String :=
  match v.kind, v.reference with
  | .voltage, none => "V(" ++ v.name ++ ")"
  | .voltage, some reference => "V(" ++ v.name ++ "," ++ reference ++ ")"
  | .current, _ => "I(" ++ v.name ++ ")"
  | .property, some property => "@" ++ v.name ++ "[" ++ property ++ "]"
  | .property, none => "@" ++ v.name
  | .named, _ => v.name

/-- A word by which variables are looked up quickly. -/
def digest (v : Variable) : UInt64 :=
  let kind : UInt64 := match v.kind with
    | .voltage => 0
    | .current => 1
    | .property => 2
    | .named => 3
  mixHash kind (mixHash (hash v.name) (hash v.reference))

end Variable
end CircuitExpr
