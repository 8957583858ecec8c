/-
# Double precision numbers as text

`write` puts a number down with the fewest digits that read back, in a given
style; `writeDigits` with a fixed count of digits.  `read?` reads an optional sign
followed by a decimal number, `inf`, `infinity` or `nan`, the names in any case,
and rounds once, to nearest.
-/

import CircuitExpr.Double
import CircuitExpr.Decimal.Style

namespace CircuitExpr
namespace Double

/-- The sign in front of a number; an undefined result has none. -/
def signText (x : Double) : String := if !x.isNaN && x.isNegative then "-" else ""

/-- The text of a number, its magnitude turned into digits by `digits`. -/
def writeWith (style : Decimal.Style) (zero : Decimal) (digits : Nat → Int → Decimal)
    (x : Double) : String :=
  signText x ++ match x.toFloat.toModel.unpack with
    | .notANumber => style.nan
    | .infinity _ => "inf"
    | .zero _ => Decimal.write style zero
    | .finite _ m q _ => Decimal.write style (digits m q)

/-- The text of a number with the fewest digits that read back. -/
def write (style : Decimal.Style) (x : Double) : String :=
  writeWith style ⟨0, 0⟩ (fun m q => (Decimal.shortest m q).trim) x

/-- A first digit, `n - 1` more after a point, and a power of ten. -/
def writeDigits (n : Nat) (x : Double) : String :=
  signText x ++ match x.toFloat.toModel.unpack with
    | .notANumber => Decimal.Style.scientific.nan
    | .infinity _ => "inf"
    | .zero _ =>
      String.ofList (if n ≤ 1 then ['0'] else '0' :: '.' :: Decimal.zeros (n - 1)) ++ "e0"
    | .finite _ m q _ => Decimal.write Decimal.Style.scientific (Decimal.significant n m q)

/-- Reads the magnitude of a number. -/
def readMagnitude? (cs : List Char) : Option Double :=
  let name := String.ofList (cs.map Char.toLower)
  if name == "inf" || name == "infinity" then some infinity
  else if name == "nan" then some nan
  else (Decimal.read? cs).map fun d => ofDecimal d.significand d.exponent

/-- Reads a number that takes up the whole text. -/
def read? (text : String) : Option Double :=
  match text.toList with
  | '-' :: cs => (readMagnitude? cs).map neg
  | '+' :: cs => readMagnitude? cs
  | cs => readMagnitude? cs

end Double

instance : Numeral Double where
  text := Double.write Decimal.Style.plain
  inspect := Double.write Decimal.Style.listing

end CircuitExpr
