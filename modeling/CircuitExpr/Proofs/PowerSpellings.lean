/-
# The spellings of a power

A power may be written `x ^ 3`, `x ^ y` or `pow(x, y)`.  With a constant exponent that is
an integer it is multiplied out when the evaluator is built; otherwise the exponent is
looked at in each run, by the operator and by the function alike.  The three give the same
value, whatever the base, the exponent and the guard against division by zero, and the
operator and the function have the same derivatives (`power_spellings_agree`).

The integer exponent of a product is never rounded.  A finite double is a mantissa times a
power of two, hence a rational number (`Double.rational?`); its integer exponent is there
exactly if that number is an integer of at most 31 bits, and then it is that integer
(`Double.integerExponent?_iff`).
-/

import Mathlib
import CircuitExpr.Proofs.EitherBackend
import CircuitExpr.Proofs.GuardedValues
import CircuitExpr.Proofs.SharedParts

namespace CircuitExpr

/-! ### The number that a double is -/

namespace Double

/-- The number that a double is; an infinity and an undefined result are none. -/
def rational? : Double → Option ℚ
  | undefined _ => none
  | defined x _ =>
    match x.toModel.unpack with
    | .zero _ => some 0
    | .finite s m e _ => some (s.apply m * ((2 : ℕ) : ℚ) ^ e)
    | _ => none

/-- A mantissa times a power of two is an integer if nothing is left below the point. -/
theorem mul_two_zpow_eq_iff (m : ℕ) (e n : ℤ) : (m : ℚ) * ((2 : ℕ) : ℚ) ^ e = n ↔
    m % (1 <<< (-e).toNat) = 0 ∧ ((m <<< e.toNat / 1 <<< (-e).toNat : ℕ) : ℤ) = n := by
  rw [Nat.shiftLeft_eq, Nat.shiftLeft_eq, one_mul]
  obtain ⟨k, rfl | rfl⟩ := e.eq_nat_or_neg
  · have hneg : (-(k : ℤ)).toNat = 0 := by omega
    rw [hneg, Int.toNat_natCast, zpow_natCast, pow_zero, Nat.mod_one, Nat.div_one]
    constructor
    · exact fun h => ⟨rfl, by exact_mod_cast h⟩
    · rintro ⟨-, rfl⟩
      push_cast
      rfl
  · have hpos : (0 : ℚ) < ((2 : ℕ) : ℚ) ^ k := by positivity
    have hzero : (-(k : ℤ)).toNat = 0 := by omega
    rw [neg_neg, hzero, Int.toNat_natCast, zpow_neg, zpow_natCast, pow_zero, mul_one,
      ← div_eq_mul_inv, div_eq_iff hpos.ne', ← Nat.dvd_iff_mod_eq_zero]
    constructor
    · intro h
      have hm : (m : ℤ) = n * (2 ^ k : ℕ) := by exact_mod_cast h
      have hdvd : 2 ^ k ∣ m := Int.natCast_dvd_natCast.mp ⟨n, by rw [hm, mul_comm]⟩
      refine ⟨hdvd, ?_⟩
      rw [Int.natCast_div, hm, Int.mul_ediv_cancel _ (by positivity)]
    · rintro ⟨⟨j, rfl⟩, rfl⟩
      rw [Nat.mul_div_cancel_left _ (by positivity)]
      push_cast
      ring

/-- A double is an integer if the number that it is, is one. -/
theorem toInt?_eq_some {c : Double} {n : ℤ} : c.toInt? = some n ↔ c.rational? = some (n : ℚ) := by
  cases c with
  | undefined s => exact ⟨nofun, nofun⟩
  | defined x h =>
    rw [toInt?, Exact.toInt?, rational?]
    cases x.toModel.unpack with
    | notANumber => exact ⟨nofun, nofun⟩
    | infinity s => exact ⟨nofun, nofun⟩
    | zero s => simp [eq_comm]
    | finite s m e hm =>
      cases s with
      | positive =>
        have h := mul_two_zpow_eq_iff m e n
        simp only [Option.ite_none_right_eq_some, Option.some.injEq]
        exact h.symm
      | negative =>
        have h := mul_two_zpow_eq_iff m e (-n)
        simp only [Option.ite_none_right_eq_some, Option.some.injEq]
        simp only [Float.Model.UnpackedFloat.Sign.apply]
        push_cast at h ⊢
        rw [neg_mul, neg_eq_iff_eq_neg, neg_eq_iff_eq_neg, h]

/-- **An integer exponent is the number itself,** an integer of at most 31 bits. -/
theorem integerExponent?_iff {c : Double} {n : Int32} : integerExponent? c = some n ↔
    c.rational? = some (n.toInt : ℚ) ∧ n.toInt.natAbs ≤ 2147483647 :=
  integerExponent?_eq_some_iff.trans (and_congr_left' toInt?_eq_some)

end Double

/-! ### Powers in either backend -/

namespace Backend.RealOrComplex

variable {ρ S α : Type} [Scalar ρ] {b : Backend ρ S α}

/-- A power with an integer exponent is multiplied out, with either backend. -/
theorem pow_ofReal (h0 : Scalar.eq (0 : ρ) 0 = true) (hb : b.RealOrComplex) {c : ρ} {n : Int32}
    (hn : integerExponent? c = some n) (x : α) : b.pow x (b.ofReal c) = b.powi x n := by
  cases hb with
  | real fudge => simp only [Backend.real, realPow, id, hn]
  | complex fudge laplace =>
    simp only [Backend.complex, complexPow, Complex.ofReal, h0, if_true, hn]

/-- The power with the exponent zero is one. -/
theorem powi_zero (hb : b.RealOrComplex) (x : α) : b.powi x 0 = b.ofReal 1 := by
  cases hb <;> rfl

/-- The function `pow` is the power of the backend. -/
theorem implementation_pow (hb : b.RealOrComplex) :
    ∃ g, b.implementation Vocabulary.pow = some (.plain g) ∧
      ∀ x y, g b.fudge [x, y] = some (b.pow x y) := by
  cases hb with
  | real fudge => exact ⟨_, rfl, fun _ _ => rfl⟩
  | complex fudge laplace =>
    have hname : ¬IsTimeOperator (Vocabulary.pow : NamedFunction ρ).name :=
      not_isTimeOperator (by simp [Vocabulary.builtinFunctions]) (by simp [Vocabulary.pow])
    exact ⟨_, complex_implementation hname fudge laplace, fun _ _ => rfl⟩

end Backend.RealOrComplex

namespace Expr

section Spellings

variable {ρ α S : Type} [Scalar ρ] {b : Backend ρ S α} {p : Point S α} {f g : Expr ρ} {x : α} {c : ρ}

/-- The function `pow` is found under its name in any case. -/
theorem functionOf?_pow {name : String} (hname : Text.lowercase name = "pow") :
    (Vocabulary.builtin : Vocabulary ρ).functionOf? name 2 = some Vocabulary.pow :=
  Vocabulary.builtin_functionOf?_eq_some.mpr
    ⟨by simp [Vocabulary.builtinFunctions], hname.symm, rfl⟩

/-- The operator yields the power, whether the exponent is a constant or not. -/
theorem yields_power (h0 : Scalar.eq (0 : ρ) 0 = true) (hb : b.RealOrComplex)
    (hf : Yields ⟨.builtin, b⟩ p f x) (hg : Yields ⟨.builtin, b⟩ p g (b.ofReal c)) :
    Yields ⟨.builtin, b⟩ p (.binary .pow f g) (b.pow x (b.ofReal c)) := by
  refine hf.power hg fun hzero => ?_
  obtain ⟨c', hc', hinteger⟩ := Option.bind_eq_some_iff.mp (beq_iff_eq.mp hzero)
  obtain rfl := asConstant?_eq_some.mp hc'
  have hsame : b.ofReal c = b.ofReal c' := hg.unique (.ofReal c')
  change b.pow x (b.ofReal c) = b.ofReal 1
  rw [hsame, hb.pow_ofReal h0 hinteger, hb.powi_zero]

/-- The function yields the power. -/
theorem yields_pow_call (hb : b.RealOrComplex) {name : String}
    (hname : Text.lowercase name = "pow") {y : α} (hf : Yields ⟨.builtin, b⟩ p f x)
    (hg : Yields ⟨.builtin, b⟩ p g y) :
    Yields ⟨.builtin, b⟩ p (.call name [f, g]) (b.pow x y) := by
  obtain ⟨h, himplementation, hvalue⟩ := hb.implementation_pow
  have hargs : List.Forall₂ (Yields ⟨.builtin, b⟩ p) [f, g] [x, y] := .cons hf (.cons hg .nil)
  refine .call (f := Vocabulary.pow) (g := .plain h) ?_ ?_ hargs ?_
  · exact functionOf?_pow hname
  · exact himplementation
  · exact hvalue x y

/-- The function is differentiated as the operator is. -/
theorem derivatives_pow_call {name : String} (hname : Text.lowercase name = "pow")
    (wanted : List Variable) (f g : Expr ρ) :
    (Expr.binary .pow f g).derivatives .builtin wanted =
      (Expr.call name [f, g]).derivatives .builtin wanted := by
  refine derivatives_eq_of_step rfl fun ds hds => ?_
  obtain ⟨df, dg, rfl⟩ := List.length_eq_two.mp hds
  rw [Derivative.step, Derivative.step, List.length_cons, List.length_singleton,
    functionOf?_pow hname]
  rfl

end Spellings

variable {α S σ : Type} {b : Backend Double S α} {source? : Variable → Option S}

/-- **All spellings of a power agree.**  Of two trees let the first one be worth `x` and the
second one the exponent `c`.  Then the power with `c` as a constant, the power with the second
tree as its exponent, and the call of `pow` on both are worth the same; if the power is
multiplied out, the exponent of the product is `c` itself.  The operator and the function have
the same derivatives, by the same variables in the same order. -/
theorem power_spellings_agree (hb : b.RealOrComplex) {host : Resolver σ S}
    (hhost : host.Steady source?) {name : String} (hname : Text.lowercase name = "pow")
    (f g : Expr Double) :
    (∀ (state : σ) (memory : S → α) (x : α) (c : Double),
      Computes ⟨.builtin, b⟩ host state memory f x →
      Computes ⟨.builtin, b⟩ host state memory g (b.ofReal c) →
      ∃ r,
        Computes ⟨.builtin, b⟩ host state memory (.binary .pow f (.constant c)) r ∧
        Computes ⟨.builtin, b⟩ host state memory (.binary .pow f g) r ∧
        Computes ⟨.builtin, b⟩ host state memory (.call name [f, g]) r ∧
        ∀ n, integerExponent? c = some n →
          r = b.powi x n ∧ c.rational? = some (n.toInt : ℚ)) ∧
    ∀ wanted, Option.Rel Derivatives.Alike ((Expr.binary .pow f g).derive .builtin wanted)
      ((Expr.call name [f, g]).derive .builtin wanted) := by
  have h0 : Scalar.eq (0 : Double) 0 = true := by decide
  refine ⟨fun state memory x c hf hg => ⟨b.pow x (b.ofReal c), ?_⟩, fun wanted => ?_⟩
  · simp only [computes_iff (s := ⟨.builtin, b⟩) (hb.multipliesOut h0) hhost] at hf hg ⊢
    refine ⟨yields_power h0 hb hf (.ofReal c), yields_power h0 hb hf hg,
      yields_pow_call hb hname hf hg, fun n hn => ?_⟩
    exact ⟨hb.pow_ofReal h0 hn x, (Double.integerExponent?_iff.mp hn).1⟩
  · exact derive_alike_of_derivatives_eq Vocabulary.respectsKeys_builtin
      (derivatives_pow_call hname wanted f g)

/-- The largest exponent that is multiplied out. -/
def largestExponent : Double := Scalar.ofDecimal 2147483647 0

/-- The values of the variables: an exponent `n`, and an undefined base. -/
def undefinedBase : Variable → Double := fun v =>
  if v = .named "n" then largestExponent else Double.nan

/-- The spellings of an undefined number to the largest power that is multiplied out. -/
theorem power_spellings_largestExponent :
    integerExponent? largestExponent = some 2147483647 ∧
    ∃ r,
      Computes ⟨.builtin, .real 0⟩ (.recording some) [] undefinedBase
        (.binary .pow (.var (.named "x")) (.constant largestExponent)) r ∧
      Computes ⟨.builtin, .real 0⟩ (.recording some) [] undefinedBase
        (.binary .pow (.var (.named "x")) (.var (.named "n"))) r ∧
      Computes ⟨.builtin, .real 0⟩ (.recording some) [] undefinedBase
        (.call "POW" [.var (.named "x"), .var (.named "n")]) r ∧
      largestExponent.rational? = some 2147483647 := by
  have hexponent : integerExponent? largestExponent = some 2147483647 := by decide +kernel
  have hname : Text.lowercase "POW" = "pow" := by decide +kernel
  have hhost := Resolver.steady_recording (some : Variable → Option Variable)
  have hvar (v : Variable) : Computes ⟨.builtin, .real 0⟩ (.recording some) [] undefinedBase
      (.var v) (undefinedBase v) :=
    (computes_real_iff hhost).mpr (Yields.sourced rfl)
  obtain ⟨r, hconstant, hvariable, hcall, hproduct⟩ :=
    (power_spellings_agree (.real 0) hhost hname (.var (.named "x")) (.var (.named "n"))).1
      [] undefinedBase Double.nan largestExponent (hvar (.named "x")) (hvar (.named "n"))
  exact ⟨hexponent, r, hconstant, hvariable, hcall, (hproduct _ hexponent).2⟩

end Expr
end CircuitExpr
