/-
# Powers by repeated squaring

A natural power is computed in a loop that looks at the exponent one binary digit after the
other, from the last one on, and squares the base in every turn but the last
(`Squaring.turn`).  With the product so far in `result`, every turn keeps
`result * base ^ exponent` (`Squaring.goal_turn`), and after as many turns as the exponent
has binary digits there is no exponent left.  So the loop multiplies by the power, in any
monoid (`powerLoop_eq`).

An integer power of a negative exponent is the reciprocal of a natural power, also for
`-2 ^ 31`, whose magnitude has 32 binary digits.  The exponents `0`, `1` and `2` are answered
without a loop, with what the loop would give (`integerPower_eq_loop`).
-/

import Mathlib
import CircuitExpr.Power

namespace CircuitExpr

/-- Where the loop of a natural power stands. -/
structure Squaring (α : Type) where
  /-- What has been multiplied together. -/
  result : α
  /-- The base, squared in every turn. -/
  base : α
  /-- The binary digits of the exponent that are left. -/
  exponent : ℕ

namespace Squaring

variable {α : Type}

/-- The loop before its first turn. -/
def start [One α] (base : α) (exponent : ℕ) : Squaring α := ⟨1, base, exponent⟩

/-- One turn of the loop.  It leaves alone a loop that has come to its end. -/
def turn [Mul α] (s : Squaring α) : Squaring α where
  result := if s.exponent % 2 = 1 then s.result * s.base else s.result
  base := if s.exponent / 2 = 0 then s.base else s.base * s.base
  exponent := s.exponent / 2

section Turns

variable [Mul α] (s : Squaring α)

/-- Each turn halves the exponent. -/
theorem exponent_iterate (k : ℕ) : (turn^[k] s).exponent = s.exponent / 2 ^ k := by
  induction k with
  | zero => exact (Nat.div_one _).symm
  | succ k ih =>
    rw [Function.iterate_succ_apply', turn, ih, Nat.div_div_eq_div_mul, pow_succ]

/-- **The loop ends after as many turns as the exponent has binary digits,** and not before. -/
theorem exponent_iterate_eq_zero_iff (k : ℕ) :
    (turn^[k] s).exponent = 0 ↔ s.exponent.size ≤ k := by
  rw [exponent_iterate, Nat.div_eq_zero_iff_lt (Nat.two_pow_pos k), Nat.size_le]

/-- A turn changes nothing in what the loop will give. -/
theorem powerLoop_turn :
    powerLoop s.turn.result s.turn.base s.turn.exponent =
      powerLoop s.result s.base s.exponent := by
  rw [powerLoop.eq_def s.result]
  split
  · rename_i h
    rw [powerLoop, if_pos (by rw [turn, h]), turn, h]
    rfl
  · rfl

/-- Some turns leave the outcome of the loop as it is. -/
theorem powerLoop_iterate (k : ℕ) :
    powerLoop (turn^[k] s).result (turn^[k] s).base (turn^[k] s).exponent =
      powerLoop s.result s.base s.exponent := by
  induction k with
  | zero => rfl
  | succ k ih => rw [Function.iterate_succ_apply', powerLoop_turn, ih]

/-- What the loop gives is the result at its end. -/
theorem powerLoop_eq_result {k : ℕ} (hk : s.exponent.size ≤ k) :
    powerLoop s.result s.base s.exponent = (turn^[k] s).result := by
  rw [← powerLoop_iterate s k, powerLoop, if_pos ((exponent_iterate_eq_zero_iff s k).mpr hk)]

end Turns

section Invariant

variable [Monoid α] (s : Squaring α)

/-- What the loop is to give. -/
def goal : α := s.result * s.base ^ s.exponent

/-- **A turn keeps the goal.** -/
theorem goal_turn : s.turn.goal = s.goal := by
  -- in the last turn the base is not squared, but then no power of it is left
  have hbase : s.turn.base ^ (s.exponent / 2) = (s.base * s.base) ^ (s.exponent / 2) := by
    change (if s.exponent / 2 = 0 then s.base else s.base * s.base) ^ (s.exponent / 2) = _
    split
    · rename_i h
      rw [h, pow_zero, pow_zero]
    · rfl
  change (if s.exponent % 2 = 1 then s.result * s.base else s.result) *
    s.turn.base ^ (s.exponent / 2) = s.result * s.base ^ s.exponent
  rw [hbase, ← pow_two, ← pow_mul]
  split
  · rename_i hodd
    rw [mul_assoc, ← pow_succ', show 2 * (s.exponent / 2) + 1 = s.exponent by omega]
  · rename_i heven
    rw [show 2 * (s.exponent / 2) = s.exponent by omega]

/-- **All turns keep the goal.** -/
theorem goal_iterate (k : ℕ) : (turn^[k] s).goal = s.goal := by
  induction k with
  | zero => rfl
  | succ k ih => rw [Function.iterate_succ_apply', goal_turn, ih]

/-- At the start the goal is the power. -/
theorem goal_start (base : α) (exponent : ℕ) : (start base exponent).goal = base ^ exponent :=
  one_mul _

end Invariant
end Squaring

/-- Repeated squaring multiplies by the power. -/
theorem powerLoop_eq {α : Type} [Monoid α] (result base : α) (n : ℕ) :
    powerLoop result base n = result * base ^ n := by
  let s : Squaring α := ⟨result, base, n⟩
  have hgoal : (Squaring.turn^[n.size] s).goal = (Squaring.turn^[n.size] s).result := by
    rw [Squaring.goal, (s.exponent_iterate_eq_zero_iff _).mpr le_rfl, pow_zero, mul_one]
  exact (s.powerLoop_eq_result le_rfl).trans (hgoal.symm.trans (s.goal_iterate _))

/-- A repeated product is the power. -/
theorem naturalPower_eq {α : Type} [Monoid α] (base : α) (n : ℕ) :
    naturalPower base n = base ^ n := by
  rw [naturalPower, powerLoop_eq, one_mul]

/-- **The answers for the exponents `0`, `1` and `2` are those of the loop.** -/
theorem integerPower_eq_loop {α : Type} [DivInvMonoid α] (base : α) (n : Int32) :
    integerPower base n =
      if n < 0 then 1 / naturalPower base n.toInt.natAbs else naturalPower base n.toInt.natAbs := by
  unfold integerPower
  by_cases h0 : n = 0
  · rw [if_pos h0, h0, if_neg (by decide), naturalPower_eq]
    exact (pow_zero base).symm
  by_cases h1 : n = 1
  · rw [if_neg h0, if_pos h1, h1, if_neg (by decide), naturalPower_eq]
    exact (pow_one base).symm
  by_cases h2 : n = 2
  · rw [if_neg h0, if_neg h1, if_pos h2, h2, if_neg (by decide), naturalPower_eq]
    exact (pow_two base).symm
  rw [if_neg h0, if_neg h1, if_neg h2]

/-- **An integer power is the power of the field.** -/
theorem integerPower_eq {K : Type} [Field K] (x : K) (n : Int32) :
    integerPower x n = x ^ n.toInt := by
  rw [integerPower_eq_loop, naturalPower_eq, ← zpow_natCast]
  have hlt : n < 0 ↔ n.toInt < 0 := Int32.lt_iff_toInt_lt
  split
  · rename_i hneg
    rw [Int.ofNat_natAbs_of_nonpos (hlt.mp hneg).le, zpow_neg, one_div, inv_inv]
  · rename_i hneg
    rw [Int.natAbs_of_nonneg (not_lt.mp (mt hlt.mpr hneg))]

example (x : ℚ) : integerPower x Int32.minValue = x ^ (-2147483648 : ℤ) := integerPower_eq x _

/-- **Repeated squaring computes powers,** in every field and for every exponent of 32 bits.
An integer power is the power of the field, and the answers without a loop are those of the
loop; the magnitude of an exponent is one of 32 bits without a sign.  The loop for such an
exponent ends after as many turns as it has binary digits, so after at most 32.  Every turn
keeps `result * base ^ exponent`, which is the power, and leaves to the loop the same result,
which at its end stands there.  Of the base nothing is asked, since the reciprocal of zero in
a field is taken to be zero. -/
theorem squaring_computes_powers {K : Type} [Field K] (b : K) :
    (∀ n : Int32, integerPower b n = b ^ n.toInt) ∧
    (∀ n : Int32, ∃ m : UInt32, m.toNat = n.toInt.natAbs ∧
      integerPower b n = if n < 0 then 1 / naturalPower b m.toNat else naturalPower b m.toNat) ∧
    ∀ m : UInt32, naturalPower b m.toNat = b ^ m.toNat ∧ m.toNat.size ≤ 32 ∧
      ∀ k : ℕ, let s := Squaring.turn^[k] (.start b m.toNat)
        s.result * s.base ^ s.exponent = b ^ m.toNat ∧
        powerLoop s.result s.base s.exponent = naturalPower b m.toNat ∧
        (s.exponent = 0 ↔ m.toNat.size ≤ k) ∧
        (s.exponent = 0 → s.result = naturalPower b m.toNat) := by
  refine ⟨integerPower_eq b, fun n => ?_, fun m => ⟨naturalPower_eq b _, ?_, fun k => ?_⟩⟩
  · have hn : n.toInt.natAbs < UInt32.size := by
      have := n.toInt_lt
      have := n.le_toInt
      simp only [UInt32.size]
      omega
    refine ⟨.ofNat n.toInt.natAbs, UInt32.toNat_ofNat_of_lt' hn, ?_⟩
    rw [UInt32.toNat_ofNat_of_lt' hn, integerPower_eq_loop]
  · exact Nat.size_le.mpr m.toNat_lt
  · have hloop := Squaring.powerLoop_iterate (.start b m.toNat) k
    refine ⟨?_, hloop, Squaring.exponent_iterate_eq_zero_iff _ k, fun hend => ?_⟩
    · exact (Squaring.goal_iterate _ k).trans (Squaring.goal_start b m.toNat)
    · rw [powerLoop, if_pos hend] at hloop
      exact hloop

end CircuitExpr
