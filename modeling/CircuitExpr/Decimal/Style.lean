/-
# Written forms of decimal numbers

Numbers appear in the output in three forms, which differ in four decisions:

| form | positional for | an integer ends in | not a number |
| --- | --- | --- | --- |
| `plain` | every magnitude | its last digit | `NaN` |
| `listing` | `10 ^ -4` up to `10 ^ 16` | `.0` | `NaN` |
| `scientific` | no magnitude | its last digit | `nan` |

The other form is a first digit, the remaining digits after a point, and the power
of ten after `e`: no sign on a positive power and no padding.
-/

import CircuitExpr.Decimal.Shortest

namespace CircuitExpr
namespace Decimal

/-- The decisions that fix how numbers are written. -/
structure Style where
  /-- Is a number whose first digit counts `10 ^ k` written without a power of ten? -/
  positional : Int → Bool
  /-- What an integer without a power of ten ends in. -/
  point : String
  /-- The text of an undefined result. -/
  nan : String

namespace Style

/-- Digits and a point only, as a constant is written inside an expression. -/
def plain : Style := ⟨fun _ => true, "", "NaN"⟩

/-- The form in which a tree is listed exactly. -/
def listing : Style := ⟨fun k => decide (-5 < k) && decide (k < 16), ".0", "NaN"⟩

/-- A power of ten on every number. -/
def scientific : Style := ⟨fun _ => false, "", "nan"⟩

end Style

/-- A run of zeros. -/
def zeros (n : Nat) : List Char := List.replicate n '0'

/-- Digits with a point where the unit is; `whole` follows an integer. -/
def positional (whole : String) (digits : List Char) (exponent : Int) : String :=
  if 0 ≤ exponent then String.ofList (digits ++ zeros exponent.toNat) ++ whole
  else
    let places := (-exponent).toNat
    let padded := zeros (places + 1 - digits.length) ++ digits
    let split := padded.length - places
    String.ofList (padded.take split ++ '.' :: padded.drop split)

/-- A first digit, the others after a point, and the power of ten. -/
def scientific (digits : List Char) (exponent : Int) : String :=
  let power := exponent + (digits.length : Int) - 1
  let mantissa := match digits with
    | [] => []
    | [d] => [d]
    | d :: ds => d :: '.' :: ds
  String.ofList mantissa ++ "e" ++ toString power

/-- The text of a decimal number, digit by digit as given. -/
def write (style : Style) (d : Decimal) : String :=
  let digits := Nat.toDigits 10 d.significand
  if style.positional (d.exponent + (digits.length : Int) - 1) then
    positional style.point digits d.exponent
  else scientific digits d.exponent

end Decimal
end CircuitExpr
