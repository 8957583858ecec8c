/-
# Backends on checked numbers

Divisors and the bases of negative powers are kept away from zero by a guard that is greater
than zero.  A guarded number `d` stands for `u` (`KeptFromZero`):

| | |
| --- | --- |
| the modulus of `d` | at least the guard |
| `d` | `u`, if the modulus of `u` is at least the guard |
| the real part of `d` otherwise | negative if that of `u` is, and positive if not |

So a backend computes on checked numbers, for which a division by zero has no result, what it
computes on numbers (`Backend.CheckedBy`).  This takes an argument in three places: the guard
of a complex number moves the real part only; the reciprocal of a negative power divides by
what repeated squaring makes of the guarded base; and a quotient of complex numbers divides by
the square of the modulus.
-/

import Mathlib
import CircuitExpr.Proofs.CheckedNumbers
import CircuitExpr.Proofs.EitherBackend

namespace CircuitExpr

open CircuitExpr.Complex (ofReal)
open Checked (number)

/-! ### The guard -/

/-- The number `d` stands for `u` and is at least as far from zero as the guard. -/
structure KeptFromZero (fudge : ℝ) (u d : Complex ℝ) : Prop where
  /-- The modulus is at least that of the guard. -/
  modulus : fudge ≤ d.norm
  /-- What is large enough is left alone. -/
  alone : fudge ≤ u.norm → d = u
  /-- A negative real part stays negative. -/
  negative : u.norm < fudge → u.re < 0 → d.re < 0
  /-- A real part that is not negative becomes positive. -/
  positive : u.norm < fudge → 0 ≤ u.re → 0 < d.re

namespace Complex

/-- The absolute value is the root of the sum of squares. -/
theorem norm_eq (z : Complex ℝ) : z.norm = Real.sqrt (z.re ^ 2 + z.im ^ 2) := rfl

/-- The modulus is at least as large as the real part. -/
theorem abs_re_le_norm (z : Complex ℝ) : |z.re| ≤ z.norm := by
  rw [norm_eq, ← Real.sqrt_sq_eq_abs]
  exact Real.sqrt_le_sqrt (le_add_of_nonneg_right (sq_nonneg z.im))

/-- What has a modulus divides. -/
theorem normSquare_ne_zero {z : Complex ℝ} (hz : 0 < z.norm) : z.normSquare ≠ 0 := by
  rw [norm_eq, Real.sqrt_pos] at hz
  rw [normSquare, ← pow_two, ← pow_two]
  exact hz.ne'

end Complex

section Guards

variable {fudge : ℝ}

/-- **The guard keeps complex numbers away from zero.** -/
theorem keptFromZero_guardComplex (hfudge : 0 < fudge) (z : Complex ℝ) :
    KeptFromZero fudge z (guardComplex fudge z) := by
  obtain hle | hlt := le_or_gt fudge z.norm
  · have halone : guardComplex fudge z = z := if_pos (Scalar.le_iff.mpr hle)
    rw [halone]
    exact ⟨hle, fun _ => rfl, fun h => absurd h hle.not_gt, fun h => absurd h hle.not_gt⟩
  · -- the real part is smaller than the guard and moves by it, away from zero
    have hmoved : guardComplex fudge z = ⟨guardReal fudge z.re, z.im⟩ :=
      if_neg fun h => (Scalar.le_iff.mp h).not_gt hlt
    have hre : |z.re| < fudge := (Complex.abs_re_le_norm z).trans_lt hlt
    have hmodulus (h : fudge ≤ |guardReal fudge z.re|) :
        fudge ≤ (⟨guardReal fudge z.re, z.im⟩ : Complex ℝ).norm :=
      h.trans (Complex.abs_re_le_norm ⟨guardReal fudge z.re, z.im⟩)
    rw [hmoved]
    obtain hnonneg | hneg := le_or_gt 0 z.re
    · rw [guardReal_of_lt hre hnonneg] at hmodulus ⊢
      have hpos : 0 < z.re + fudge := by linarith
      exact ⟨hmodulus (by rw [abs_of_pos hpos]; linarith), fun h => absurd h hlt.not_ge,
        fun _ h => absurd h hnonneg.not_gt, fun _ _ => hpos⟩
    · rw [guardReal_of_neg hre hneg] at hmodulus ⊢
      have hneg' : z.re - fudge < 0 := by linarith
      exact ⟨hmodulus (by rw [abs_of_neg hneg']; linarith), fun h => absurd h hlt.not_ge,
        fun _ _ => hneg', fun _ h => absurd h hneg.not_ge⟩

/-- The guard keeps real numbers away from zero. -/
theorem keptFromZero_guardReal (hfudge : 0 < fudge) (x : ℝ) :
    KeptFromZero fudge (ofReal x) (ofReal (guardReal fudge x)) := by
  rw [← guardComplex_ofReal]
  exact keptFromZero_guardComplex hfudge (ofReal x)

/-- A guarded divisor is not zero. -/
theorem normSquare_guardComplex_ne_zero (hfudge : 0 < fudge) (z : Complex ℝ) :
    (guardComplex fudge z).normSquare ≠ 0 :=
  Complex.normSquare_ne_zero (hfudge.trans_le (keptFromZero_guardComplex hfudge z).modulus)

/-- Whether an exponent is negative can be told from its bits. -/
theorem ofInt_neg_iff {n : ℤ} (hn : n.natAbs ≤ 2147483647) : Int32.ofInt n < 0 ↔ n < 0 := by
  rw [Int32.lt_iff_toInt_lt, toInt_ofInt_of_natAbs_le hn, Int32.toInt_zero]

/-- A power with an integer exponent: a negative one guards the base. -/
theorem realPow_of_intCast (fudge x : ℝ) {n : ℤ} (hn : n.natAbs ≤ 2147483647) :
    realPow fudge x n =
      integerPower (if n < 0 then guardReal fudge x else x) (Int32.ofInt n) := by
  rw [realPow, integerExponent?_intCast hn]
  simp only [ofInt_neg_iff hn]
  split_ifs <;> rfl

/-- A power whose exponent is a whole number is a repeated product, of the guarded base if the
exponent is negative. -/
theorem complexPow_of_intCast (fudge : ℝ) (z : Complex ℝ) {n : ℤ} (hn : n.natAbs ≤ 2147483647) :
    complexPow fudge z (ofReal n) =
      integerPower (if n < 0 then guardComplex fudge z else z) (Int32.ofInt n) := by
  rw [complexPow_exponent_ofReal, integerExponent?_intCast hn]
  simp only [ofInt_neg_iff hn]
  split_ifs <;> rfl

/-- On checked numbers, too. -/
theorem complexPow_checked (hfudge : 0 < fudge) (z : Complex ℝ) {n : ℤ}
    (hn : n.natAbs ≤ 2147483647) :
    complexPow (number fudge) z.checked (ofReal (n : ℝ)).checked =
      (complexPow fudge z (ofReal n)).checked := by
  have hexponent : complexPow (number fudge) z.checked (ofReal (n : ℝ)).checked =
      if Int32.ofInt n < 0 then integerPower (guardComplex (number fudge) z.checked) (Int32.ofInt n)
      else integerPower z.checked (Int32.ofInt n) := by
    have him : Scalar.eq (ofReal (n : ℝ)).checked.im 0 = true := Scalar.eq_iff.mpr rfl
    have hre : integerExponent? (ofReal (n : ℝ)).checked.re = some (Int32.ofInt n) :=
      integerExponent?_intCast (K := ℝ) hn
    rw [complexPow, if_pos him, hre]
  rw [hexponent, complexPow_of_intCast fudge z hn]
  simp only [ofInt_neg_iff hn, Complex.guardComplex_checked]
  split_ifs with hneg
  · exact Complex.integerPower_checked fun _ => normSquare_guardComplex_ne_zero hfudge z
  · exact Complex.integerPower_checked fun h => absurd ((ofInt_neg_iff hn).mp h) hneg

end Guards

/-! ### What is computed on checked numbers -/

/-- The constants of the built-in vocabulary are the same numbers, checked or not. -/
theorem Vocabulary.constant?_checked (name : String) :
    (builtin : Vocabulary (Checked ℝ)).constant? name =
      ((builtin : Vocabulary ℝ).constant? name).map number := by
  have hconstants {ρ : Type} [Scalar ρ] : (builtin : Vocabulary ρ).constants =
      (OrderedMap.empty.insert (Text.lowercase "pi")
        (Scalar.ofDecimal 3141592653589793 (-15))).insert (Text.lowercase "e")
        (Scalar.ofDecimal 2718281828459045 (-15)) := rfl
  rw [constant?, constant?, hconstants, hconstants]
  simp only [OrderedMap.get?_insert, OrderedMap.get?_empty]
  split_ifs <;> rfl

/-- A backend computes on checked numbers what another computes on numbers, as far as the
guard keeps it from dividing by zero. -/
structure Backend.CheckedBy {S α β : Type} (φ : α → β) (b : Backend ℝ S α)
    (b' : Backend (Checked ℝ) S β) : Prop where
  /-- Constants correspond. -/
  ofReal (c : ℝ) : b'.ofReal (number c) = φ (b.ofReal c)
  /-- The same values count as true. -/
  isTrue (x : α) : b'.isTrue (φ x) = b.isTrue x
  /-- Values with the other sign correspond. -/
  neg (x : α) : b'.neg (φ x) = φ (b.neg x)
  /-- The results of an operator correspond, remainders and powers apart. -/
  combine {op : BinaryOp} (hmod : op ≠ .mod) (hpow : op ≠ .pow) (x y : α) :
    Evaluator.combine b' op (φ x) (φ y) = φ (Evaluator.combine b op x y)
  /-- Powers with integer exponents correspond. -/
  pow (x : α) {n : ℤ} (hn : n.natAbs ≤ 2147483647) :
    b'.pow (φ x) (φ (b.ofReal n)) = φ (b.pow x (b.ofReal n))
  /-- An exponent that is zero gives one. -/
  pow_zero (x : α) {c : ℝ} (hc : integerExponent? c = some 0) :
    b.pow x (b.ofReal c) = b.ofReal 1
  /-- Functions without values of their own, as the operators in time are, correspond. -/
  time {name : String} {g : Meaning ℝ S α}
    (hg : b.implementation (Vocabulary.linearInTime name) = some g) :
    ∃ g', b'.implementation (Vocabulary.linearInTime name) = some g' ∧
      ∀ (memory : S → α) x, ∃ a, g.values memory b.fudge [x] = some a ∧
        g'.values (fun i => φ (memory i)) b'.fudge [φ x] = some (φ a)

namespace Backend

variable {S : Type} {fudge : ℝ}

/-- **The backend of real values divides by zero nowhere.** -/
theorem real_checkedBy (hfudge : 0 < fudge) :
    (real fudge : Backend ℝ S ℝ).CheckedBy number (real (number fudge)) where
  ofReal _ := rfl
  isTrue _ := rfl
  neg _ := rfl
  combine {op} hmod hpow x y := by
    have hanswer (answer : Bool) :
        (real (number fudge) : Backend (Checked ℝ) S (Checked ℝ)).ofBool answer =
          number ((real fudge : Backend ℝ S ℝ).ofBool answer) := by
      cases answer <;> rfl
    cases op with
    | mod => exact absurd rfl hmod
    | pow => exact absurd rfl hpow
    | div =>
      change number x / guardReal (number fudge) (number y) = number (x / guardReal fudge y)
      rw [Checked.guardReal_number, Checked.number_div (guardReal_ne_zero (.inl hfudge))]
    | add | sub | mul => rfl
    | and => exact hanswer (Scalar.ne x 0 && Scalar.ne y 0)
    | or => exact hanswer (Scalar.ne x 0 || Scalar.ne y 0)
    | xor => exact hanswer (Scalar.ne x 0 != Scalar.ne y 0)
    | eq => exact hanswer (compareReal .eq x y)
    | ne => exact hanswer (compareReal .ne x y)
    | lt => exact hanswer (compareReal .lt x y)
    | le => exact hanswer (compareReal .le x y)
    | gt => exact hanswer (compareReal .gt x y)
    | ge => exact hanswer (compareReal .ge x y)
  pow x n hn := Checked.realPow_number hfudge x (integerExponent?_intCast hn)
  pow_zero x c hc := realPow_of_integerExponent?_eq_zero fudge x hc
  time hg := by cases hg

/-- **The backend of complex values divides by zero nowhere.** -/
theorem complex_checkedBy (hfudge : 0 < fudge) (laplace : Option S) :
    (complex fudge laplace).CheckedBy Complex.checked
      (complex (number fudge) laplace) where
  ofReal _ := rfl
  isTrue _ := rfl
  neg _ := rfl
  combine {op} hmod hpow z w := by
    have hanswer (answer : Bool) :
        (complex (number fudge) laplace).ofBool answer =
          ((complex fudge laplace).ofBool answer).checked := by
      cases answer <;> rfl
    cases op with
    | mod => exact absurd rfl hmod
    | pow => exact absurd rfl hpow
    | div =>
      change z.checked / guardComplex (number fudge) w.checked =
        (z / guardComplex fudge w).checked
      rw [Complex.guardComplex_checked,
        Complex.checked_div (normSquare_guardComplex_ne_zero hfudge w)]
    | add | sub | mul => rfl
    | and =>
      exact hanswer ((complex fudge laplace).isTrue z && (complex fudge laplace).isTrue w)
    | or =>
      exact hanswer ((complex fudge laplace).isTrue z || (complex fudge laplace).isTrue w)
    | xor =>
      exact hanswer ((complex fudge laplace).isTrue z != (complex fudge laplace).isTrue w)
    | eq => exact hanswer (compareComplex .eq z w)
    | ne => exact hanswer (compareComplex .ne z w)
    | lt => exact hanswer (compareComplex .lt z w)
    | le => exact hanswer (compareComplex .le z w)
    | gt => exact hanswer (compareComplex .gt z w)
    | ge => exact hanswer (compareComplex .ge z w)
  pow z n hn := complexPow_checked hfudge z hn
  pow_zero z c hc := by
    change complexPow fudge z (Complex.ofReal c) = Complex.ofReal 1
    rw [complexPow_exponent_ofReal, hc]
    rfl
  time {name} g hg := by
    change (laplace? laplace name).or none = some g at hg
    rw [Option.or_none] at hg
    cases laplace with
    | none => cases hg
    | some source =>
      have hchecked : (complex (number fudge) (some source)).implementation
          (Vocabulary.linearInTime name) = laplace? (some source) name := Option.or_none
      rw [hchecked]
      simp only [laplace?] at hg ⊢
      split_ifs at hg ⊢ with hddt hidt
      · obtain rfl := Option.some.inj hg
        exact ⟨_, rfl, fun memory z => ⟨memory source * z, rfl, rfl⟩⟩
      · obtain rfl := Option.some.inj hg
        refine ⟨_, rfl, fun memory z => ⟨z / guardComplex fudge (memory source), rfl, ?_⟩⟩
        change some (z.checked / guardComplex (number fudge) (memory source).checked) = _
        rw [Complex.guardComplex_checked,
          Complex.checked_div (normSquare_guardComplex_ne_zero hfudge (memory source))]

end Backend

end CircuitExpr
