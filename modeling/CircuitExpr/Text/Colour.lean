/-
# Colours

Labels and warnings are coloured on terminals by the standard escape sequences.
Elsewhere the text stays as it is.
-/

namespace CircuitExpr

/-- The colours of the output. -/
inductive Colour where
  /-- Of errors, and of what does not exist. -/
  | red
  /-- Of what is left to do. -/
  | yellow
  /-- Of labels. -/
  | cyan
deriving DecidableEq, Repr

namespace Colour

/-- The number of a colour on a terminal. -/
def code : Colour → String
  | red => "31"
  | yellow => "33"
  | cyan => "36"

/-- A text in a colour, if there are colours. -/
def paint (c : Colour) (colours : Bool) (text : String) : String :=
  if colours then "\x1b[" ++ c.code ++ "m" ++ text ++ "\x1b[0m" else text

/-- Is a setting of the environment switched on? -/
def isOn (setting : String) : Bool := setting != "0"

/-- Are there colours?  The environment can force them, forbid them, or forbid them on
terminals; without its word there are colours on terminals only. -/
def wanted (force forbid allow : Option String) (terminal : Bool) : Bool :=
  if force.any isOn then true
  else if forbid.isSome then false
  else allow.all isOn && terminal

end Colour
end CircuitExpr
