/-
# Decimal numbers and how they are read

A decimal number is a whole number of units `10 ^ exponent`.  `Decimal.read?`
reads the unsigned notation

> digits, or digits `.` digits with at least one digit in all, then optionally
> `e` or `E`, a sign or none, and at least one digit

and nothing else: no blank, no sign in front, no digit separator.
-/

namespace CircuitExpr

/-- The number `significand * 10 ^ exponent`. -/
structure Decimal where
  /-- How many units. -/
  significand : Nat
  /-- The power of ten that is the unit. -/
  exponent : Int
deriving DecidableEq, Repr

namespace Decimal

/-- The whole number that a run of digits writes. -/
def ofDigits (cs : List Char) : Nat :=
  cs.foldl (fun n c => 10 * n + (c.toNat - '0'.toNat)) 0

/-- A run of at least one digit, read as a whole number. -/
def readNat? (cs : List Char) : Option Nat :=
  if cs.isEmpty || !cs.all Char.isDigit then none else some (ofDigits cs)

/-- What may follow the digits: nothing, or a power of ten with its mark. -/
def readExponent? : List Char → Option Int
  | [] => some 0
  | mark :: cs =>
    if mark == 'e' || mark == 'E' then
      match cs with
      | '-' :: ds => (readNat? ds).map fun n => -(n : Int)
      | '+' :: ds => (readNat? ds).map fun n => (n : Int)
      | ds => (readNat? ds).map fun n => (n : Int)
    else none

/-- The digits after the point, if there is a point, and what follows them. -/
def splitFraction : List Char → List Char × List Char
  | '.' :: cs => (cs.takeWhile Char.isDigit, cs.dropWhile Char.isDigit)
  | cs => ([], cs)

/-- Reads an unsigned decimal number that takes up the whole text. -/
def read? (cs : List Char) : Option Decimal :=
  let whole := cs.takeWhile Char.isDigit
  let (fraction, rest) := splitFraction (cs.dropWhile Char.isDigit)
  if whole.isEmpty && fraction.isEmpty then none
  else (readExponent? rest).map fun e => ⟨ofDigits (whole ++ fraction), e - fraction.length⟩

end Decimal
end CircuitExpr
