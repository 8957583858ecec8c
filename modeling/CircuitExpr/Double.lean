/-
# Double precision numbers

The numbers that the program computes with.  `Float` has a single result of
undefined operations, without a sign; the square root of a complex number on its
cut looks at the sign of an undefined real part as at any other.  So a `Double` is
a `Float` that is a number, or an undefined result with a sign.

| operation | on numbers | on undefined operands |
| --- | --- | --- |
| `-x` | the other sign | the other sign |
| `abs x` | the sign cleared | the sign cleared |
| `x + y` and the like | the `Float` operation | the first undefined operand |
| `exp x` and the like | the `Float` operation | the operand |
| `x == y`, `x < y`, `x <= y` | the `Float` comparison | false |

An operation on numbers that has no result is undefined with the sign set.  Two
functions have values that do not depend on an undefined operand: a power with the
exponent zero or the base one is one, and the hypotenuse over an infinite leg is
infinite.
-/

import CircuitExpr.Double.Exact
import CircuitExpr.Scalar

namespace CircuitExpr

/-- A double precision number, or the result of an undefined operation. -/
inductive Double where
  /-- The result of an undefined operation, with its sign. -/
  | undefined (negative : Bool)
  /-- A number or an infinity. -/
  | defined (x : Float) (isNumber : x.isNaN = false)

namespace Double

/-- The outcome of an operation on numbers. -/
def ofFloat (x : Float) : Double :=
  match h : x.isNaN with
  | true => undefined true
  | false => defined x h

/-- The number without the sign of an undefined result. -/
def toFloat : Double → Float
  | undefined _ => 0 / 0
  | defined x _ => x

instance : DecidableEq Double
  | undefined a, undefined b =>
    if h : a = b then isTrue (h ▸ rfl) else isFalse (by simpa using h)
  | defined x _, defined y _ =>
    if h : x = y then isTrue (by subst h; rfl) else isFalse (by simpa using h)
  | undefined _, defined _ _ => isFalse nofun
  | defined _ _, undefined _ => isFalse nofun

/-- A function of one number. -/
def lift (f : Float → Float) : Double → Double
  | undefined s => undefined s
  | defined x _ => ofFloat (f x)

/-- A function of two numbers; the first undefined operand is its result. -/
def lift₂ (f : Float → Float → Float) : Double → Double → Double
  | undefined s, _ => undefined s
  | defined _ _, undefined s => undefined s
  | defined x _, defined y _ => ofFloat (f x y)

/-- A comparison of numbers; nothing compares with an undefined result. -/
def compare (r : Float → Float → Bool) : Double → Double → Bool
  | defined x _, defined y _ => r x y
  | _, _ => false

/-- The number nearest to `m * 10 ^ e`. -/
def ofDecimal (m : Nat) (e : Int) : Double :=
  ofFloat (Float.ofScientific m (decide (e < 0)) e.natAbs)

/-- The undefined result without a sign. -/
def nan : Double := undefined false

/-- The number `1 / 0`. -/
def infinity : Double := ofFloat (1 / 0)

/-- The number with the other sign. -/
def neg : Double → Double
  | undefined s => undefined !s
  | defined x _ => ofFloat (-x)

/-- The magnitude. -/
def abs : Double → Double
  | undefined _ => undefined false
  | defined x _ => ofFloat x.abs

/-- Is this an undefined result? -/
def isNaN : Double → Bool
  | undefined _ => true
  | defined _ _ => false

/-- Is this an infinity of either sign? -/
def isInf : Double → Bool
  | undefined _ => false
  | defined x _ => x.isInf

/-- Is the sign bit set? -/
def isNegative : Double → Bool
  | undefined s => s
  | defined x _ => x.toBits >>> 63 == 1

/-- The integer that a number is, if it is one. -/
def toInt? : Double → Option Int
  | undefined _ => none
  | defined x _ => Exact.toInt? x

/-- Zero and an undefined result without their signs; any other number itself. -/
def key : Double → Double
  | undefined _ => undefined false
  | defined x h => if x == 0 then ofFloat 0 else defined x h

/-- The first number raised to the second. -/
def pow (x y : Double) : Double :=
  if compare (· == ·) x (ofFloat 1) || compare (· == ·) y (ofFloat 0) then ofFloat 1
  else lift₂ Float.pow x y

/-- The length of the hypotenuse over two legs. -/
def hypot (x y : Double) : Double :=
  if x.isInf || y.isInf then infinity else lift₂ Exact.hypot x y

end Double

instance scalarDouble : Scalar Double where
  zero := Double.ofFloat 0
  one := Double.ofFloat 1
  add := Double.lift₂ Float.add
  sub := Double.lift₂ Float.sub
  mul := Double.lift₂ Float.mul
  div := Double.lift₂ Float.div
  neg := Double.neg
  mod := Double.lift₂ Double.Exact.remainder
  decEq := inferInstance
  key := Double.key
  digest x := x.toFloat.toBits
  ofDecimal := Double.ofDecimal
  eq := Double.compare (· == ·)
  lt := Double.compare Float.lt
  le := Double.compare Float.le
  toInt? := Double.toInt?
  isNaN := Double.isNaN
  isInf := Double.isInf
  isNegative := Double.isNegative
  nan := Double.nan
  infinity := Double.infinity
  ln10 := Double.ofFloat 2.302585092994046
  abs := Double.abs
  floor := Double.lift Float.floor
  ceil := Double.lift Float.ceil
  round := Double.lift Float.round
  trunc := Double.lift Double.Exact.trunc
  sqrt := Double.lift Float.sqrt
  exp := Double.lift Float.exp
  ln := Double.lift Float.log
  log10 := Double.lift Float.log10
  sin := Double.lift Float.sin
  cos := Double.lift Float.cos
  tan := Double.lift Float.tan
  asin := Double.lift Float.asin
  acos := Double.lift Float.acos
  atan := Double.lift Float.atan
  sinh := Double.lift Float.sinh
  cosh := Double.lift Float.cosh
  tanh := Double.lift Float.tanh
  asinh := Double.lift Float.asinh
  acosh := Double.lift Float.acosh
  atanh := Double.lift Float.atanh
  pow := Double.pow
  hypot := Double.hypot
  atan2 := Double.lift₂ Float.atan2

end CircuitExpr
