/-
# Decimal digits of a binary number

A positive binary number `m * 2 ^ q` is written in decimal in one of two ways.

* `shortest` takes the fewest digits that read back.  Of the decimals with that
  many digits which round to the number it takes the nearest, and the upper one
  when two are equally near.
* `significant n` takes exactly `n` digits, rounded from the exact value, a half
  going to the even neighbour.

All comparisons are between natural numbers: `c * 10 ^ p` and `m * 2 ^ q` are
compared by cross multiplication.  A decimal rounds to `m * 2 ^ q` when it lies
between the points half-way to the neighbours of `m * 2 ^ q`, these included when
`m` is even.  The half-way points are whole multiples of `2 ^ (q - 2)`.
-/

import CircuitExpr.Decimal

namespace CircuitExpr
namespace Decimal

/-- A power of ten. -/
def powerOfTen (n : Nat) : Nat := Nat.pow 10 n

/-- The number `m * 2 ^ q` in units of `10 ^ p`, as a fraction. -/
def inUnits (m : Nat) (q p : Int) : Nat × Nat :=
  ((m <<< q.toNat) * powerOfTen (-p).toNat, (1 <<< (-q).toNat) * powerOfTen p.toNat)

/-- Is `10 ^ k` at most `m * 2 ^ q`? -/
def reaches (m : Nat) (q k : Int) : Bool :=
  let (a, b) := inUnits m q k
  b ≤ a

/-- The power of ten of the first digit of `m * 2 ^ q`.  The logarithm of `m * 2 ^ q`
is estimated from that to base two, which is off by one at most. -/
def leading (m : Nat) (q : Int) : Int :=
  let k := ((m.log2 : Int) + q) * 30103 / 100000
  if reaches m q (k + 1) then k + 1 else if reaches m q k then k else k - 1

/-- The half-way points around `m * 2 ^ q` in units of `2 ^ (q - 2)`.  Below a power of
two the numbers lie closer together, except among the smallest. -/
def halfway (m : Nat) (q : Int) : Nat × Nat :=
  (if m = 1 <<< 52 && decide (-1074 < q) then 4 * m - 1 else 4 * m - 2, 4 * m + 2)

/-- The multiple of `10 ^ p` that stands for `m * 2 ^ q`, if one rounds to it. -/
def onGrid? (m : Nat) (q p : Int) : Option Nat :=
  let (low, high) := halfway m q
  let (a, b) := inUnits 1 (q - 2) p
  let below := 4 * m * a / b
  let reads (c : Nat) : Bool :=
    if m % 2 = 0 then low * a ≤ c * b && c * b ≤ high * a
    else low * a < c * b && c * b < high * a
  match reads below, reads (below + 1) with
  | true, true =>
    if 4 * m * a - below * b < (below + 1) * b - 4 * m * a then some below else some (below + 1)
  | true, false => some below
  | false, true => some (below + 1)
  | false, false => none

/-- The quotient rounded to the nearest whole number, a half going to the even one. -/
def divideToEven (a b : Nat) : Nat :=
  let n := a / b
  let r := a % b
  if 2 * r < b then n else if b < 2 * r then n + 1 else n + n % 2

/-- Exactly `n` digits of `m * 2 ^ q`. -/
def significant (n : Nat) (m : Nat) (q : Int) : Decimal :=
  let p := leading m q - n + 1
  let (a, b) := inUnits m q p
  let c := divideToEven a b
  if c = powerOfTen n then ⟨powerOfTen (n - 1), p + 1⟩ else ⟨c, p⟩

/-- The fewest digits that read back as `m * 2 ^ q`.  Seventeen always do. -/
def shortest (m : Nat) (q : Int) : Decimal :=
  let k := leading m q
  let hit := (List.range 17).findSome? fun (i : Nat) =>
    (onGrid? m q (k - i)).map fun c => (⟨c, k - i⟩ : Decimal)
  hit.getD (significant 17 m q)

/-- The same number without zeros at the end of its digits. -/
def trim (d : Decimal) : Decimal :=
  if h : d.significand ≠ 0 ∧ d.significand % 10 = 0 then
    trim ⟨d.significand / 10, d.exponent + 1⟩
  else d
termination_by d.significand
decreasing_by
  exact Nat.div_lt_self (Nat.pos_of_ne_zero h.1) (by decide)

end Decimal
end CircuitExpr
