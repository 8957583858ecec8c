/-
# Constants folded without the guard

Quotients and powers are computed in two places: an evaluator computes them under the guard,
and the operators that fold compute them at once if both operands are constants, with the
plain quotient and the plain power.  The two differ just where the guard, or the rule that
takes the magnitude of a base, would have come in:

| operands | folded | evaluated |
| --- | --- | --- |
| constants, `a / b`, the divisor not zero | `a / b` | `a / guardReal fudge b` |
| constants, `a ^ b` | the power of the real numbers | `realPow fudge a b` |
| any others | the same | the same |

So a quotient of constants folds to another number if the divisor is smaller than the guard
and neither operand is zero.  A power of constants does so for a negative integer exponent
if the base is smaller than the guard, and for an exponent that is no integer if the base is
smaller than the guard or negative: a negative base raised to such an exponent is not the
power of its magnitude, unless the exponent is an even number beyond the 31 bits.

The power of the real numbers is taken to be the real part of the principal value.  For a
negative base it is the power of the magnitude times a cosine, so below the guard the two
powers can still meet by chance, where the cosine makes up for the guard.
-/

import Mathlib
import CircuitExpr.Proofs.RealEmbedding

namespace CircuitExpr

open CircuitExpr.Expr (Yields Computes Buildable)

/-! ### Plain and guarded arithmetic -/

section Arithmetic

/-- Just the numbers that are large enough are left alone. -/
theorem guardReal_eq_self_iff {K : Type} [Field K] [LinearOrder K] [FloorRing K]
    [AnalyticFunctions K] [IsStrictOrderedRing K] {fudge x : K} (hfudge : 0 < fudge) :
    guardReal fudge x = x ↔ fudge ≤ |x| := by
  refine ⟨fun h => ?_, guardReal_of_le⟩
  by_contra hlt
  rw [not_le] at hlt
  obtain hx | hx := le_or_gt 0 x
  · rw [guardReal_of_lt hlt hx, add_eq_left] at h
    exact hfudge.ne' h
  · rw [guardReal_of_neg hlt hx, sub_eq_self] at h
    exact hfudge.ne' h

variable {fudge a b : ℝ}

/-- A plain quotient is the guarded one just where the divisor is left alone, or the
dividend is zero. -/
theorem div_eq_div_guardReal_iff (hfudge : 0 < fudge) (hb : b ≠ 0) :
    a / b = a / guardReal fudge b ↔ a = 0 ∨ fudge ≤ |b| := by
  rw [div_eq_div_iff hb (guardReal_ne_zero (.inl hfudge)), mul_eq_mul_left_iff,
    guardReal_eq_self_iff hfudge, or_comm]

/-- Where the plain power of two real numbers is the one that is computed under the guard. -/
def PowersAgree (fudge a b : ℝ) : Prop :=
  match integerExponent? b with
  | some n => 0 ≤ n ∨ fudge ≤ |a|
  | none =>
    if 0 ≤ a ∨ fudge ≤ |a| then fudge ≤ |a| ∧ (0 ≤ a ∨ ∃ k : ℤ, b = k + k)
    else Real.cos (b * Real.pi) = (1 + fudge / |a|) ^ b

/-- An integer power takes the base as it is, and only a negative one guards it. -/
theorem rpow_eq_realPow_iff_of_integer (hfudge : 0 < fudge) {n : Int32}
    (hb : integerExponent? b = some n) :
    a ^ b = realPow fudge a b ↔ 0 ≤ n ∨ fudge ≤ |a| := by
  obtain ⟨rfl, -⟩ := integerExponent?_eq_some hb
  rw [Real.rpow_intCast, realPow, hb]
  simp only [integerPower_eq]
  by_cases hn : n < 0
  · have hneg : n.toInt < 0 := Int32.lt_iff_toInt_lt.mp hn
    rw [if_pos hn, or_iff_right (Int32.not_le.mpr hn), ← guardReal_eq_self_iff hfudge]
    refine ⟨fun h => ?_, fun h => by rw [h]⟩
    -- the magnitudes have the same power, so they are the same
    have habs : |a| ^ n.toInt = |guardReal fudge a| ^ n.toInt := by rw [← abs_zpow, h, abs_zpow]
    have hequal : |a| = |guardReal fudge a| :=
      (zpow_left_inj₀ (abs_nonneg _) (abs_nonneg _) hneg.ne).mp habs
    rw [abs_guardReal] at hequal
    rw [guardReal_eq_self_iff hfudge, ← abs_abs a]
    exact (guardReal_eq_self_iff hfudge).mp hequal.symm
  · rw [if_neg hn]
    exact iff_of_true rfl (.inl (Int32.not_lt.mp hn))

/-- Any other power is that of the guarded magnitude. -/
theorem realPow_eq_guarded (hb : integerExponent? b = none) :
    realPow fudge a b = guardReal fudge |a| ^ b := by
  rw [realPow, hb]
  rfl

/-- The power of a negative number is that of its magnitude times a cosine. -/
theorem rpow_of_neg (ha : a < 0) (b : ℝ) : a ^ b = |a| ^ b * Real.cos (b * Real.pi) := by
  rw [Real.rpow_def_of_neg ha, Real.rpow_def_of_pos (abs_pos.mpr ha.ne), Real.log_abs]

/-- A power of a base that is large enough or positive is the guarded one for an even
exponent, or a positive base. -/
theorem rpow_eq_realPow_iff_of_magnitude (hfudge : 0 < fudge) (hb : integerExponent? b = none)
    (ha : 0 ≤ a ∨ fudge ≤ |a|) :
    a ^ b = realPow fudge a b ↔ fudge ≤ |a| ∧ (0 ≤ a ∨ ∃ k : ℤ, b = k + k) := by
  have hguarded : realPow fudge a b = guardReal fudge |a| ^ b := realPow_eq_guarded hb
  obtain hnonneg | hneg := le_or_gt 0 a
  · have hb0 : b ≠ 0 := by
      rintro rfl
      have hzero : integerExponent? ((0 : ℤ) : ℝ) = some 0 := integerExponent?_intCast (by decide)
      rw [Int.cast_zero, hb] at hzero
      cases hzero
    have hguard : 0 ≤ guardReal fudge a := by
      rw [← abs_of_nonneg hnonneg, ← abs_guardReal]
      exact abs_nonneg _
    rw [hguarded, abs_of_nonneg hnonneg, Real.rpow_left_inj hnonneg hguard hb0, eq_comm,
      guardReal_eq_self_iff hfudge, abs_of_nonneg hnonneg]
    exact (and_iff_left (.inl hnonneg)).symm
  · have hle : fudge ≤ |a| := ha.resolve_left hneg.not_ge
    have hcos : Real.cos (b * Real.pi) = 1 ↔ ∃ k : ℤ, b = k + k := by
      rw [Real.cos_eq_one_iff]
      refine exists_congr fun k => ?_
      rw [← two_mul, mul_comm (k : ℝ), mul_right_comm, mul_left_inj' Real.pi_ne_zero, eq_comm]
    have hpow : 0 < |a| ^ b := Real.rpow_pos_of_pos (hfudge.trans_le hle) b
    rw [hguarded, guardReal_of_le (by rwa [abs_abs]), rpow_of_neg hneg, mul_eq_left₀ hpow.ne', hcos,
      and_iff_right hle, or_iff_right hneg.not_ge]

/-- Below the guard the power of a negative base is the guarded one where the cosine makes up
for the guard. -/
theorem rpow_eq_realPow_iff_of_small (hfudge : 0 < fudge) (hb : integerExponent? b = none)
    (ha : a < 0) (hlt : |a| < fudge) :
    a ^ b = realPow fudge a b ↔ Real.cos (b * Real.pi) = (1 + fudge / |a|) ^ b := by
  have hpos : 0 < |a| := abs_pos.mpr ha.ne
  have hpow : |a| ^ b ≠ 0 := (Real.rpow_pos_of_pos hpos b).ne'
  have hguarded : realPow fudge a b = |a| ^ b * (1 + fudge / |a|) ^ b := by
    rw [realPow_eq_guarded hb, guardReal_of_lt (by rwa [abs_abs]) hpos.le,
      ← Real.mul_rpow hpos.le (by positivity), mul_add, mul_one, mul_div_cancel₀ fudge hpos.ne']
  rw [rpow_of_neg ha, hguarded, mul_right_inj' hpow]

/-- **The plain power is the guarded one** for an integer exponent that is not negative, and
for a base that is large enough, if it is positive or the exponent even; a negative base below
the guard has such a power by chance only. -/
theorem rpow_eq_realPow_iff (hfudge : 0 < fudge) :
    a ^ b = realPow fudge a b ↔ PowersAgree fudge a b := by
  unfold PowersAgree
  cases hb : integerExponent? b with
  | some n => exact rpow_eq_realPow_iff_of_integer hfudge hb
  | none =>
    dsimp only
    split_ifs with h
    · exact rpow_eq_realPow_iff_of_magnitude hfudge hb h
    · rw [not_or, not_le, not_le] at h
      exact rpow_eq_realPow_iff_of_small hfudge hb h.1 h.2

end Arithmetic

/-! ### What folds and what is evaluated -/

namespace Expr

section Folding

variable {S : Type} {w : Vocabulary ℝ} {fudge : ℝ} {p : Point S ℝ} {x y : Expr ℝ} {a b : ℝ}

/-- Are both operands constants? -/
def BothConstant (x y : Expr ℝ) : Prop :=
  x.asConstant?.isSome = true ∧ y.asConstant?.isSome = true

instance (x y : Expr ℝ) : Decidable (BothConstant x y) := inferInstanceAs (Decidable (_ ∧ _))

/-- What the folded quotient of two trees with the values `a` and `b` is worth. -/
noncomputable def foldedQuotient (fudge : ℝ) (x y : Expr ℝ) (a b : ℝ) : ℝ :=
  if BothConstant x y ∧ b ≠ 0 then a / b else a / guardReal fudge b

/-- What the folded power of two trees with the values `a` and `b` is worth. -/
noncomputable def foldedPower (fudge : ℝ) (x y : Expr ℝ) (a b : ℝ) : ℝ :=
  if BothConstant x y then a ^ b else realPow fudge a b

/-- A quotient by zero or of a tree that is no constant does not escape the guard. -/
theorem foldedQuotient_of_not (h : ¬(BothConstant x y ∧ b ≠ 0)) :
    foldedQuotient fudge x y a b = a / guardReal fudge b := if_neg h

/-- **A quotient of two constants folds to the plain one,** any other is guarded. -/
theorem Yields.folded_div (hfudge : fudge ≤ 1) (hx : Yields ⟨w, .real fudge⟩ p x a)
    (hy : Yields ⟨w, .real fudge⟩ p y b) :
    Yields ⟨w, .real fudge⟩ p (x / y) (foldedQuotient fudge x y a b) := by
  cases hd : y.asConstant? with
  | none =>
    rw [foldedQuotient_of_not (by simp [BothConstant, hd])]
    exact hx.div_guarded hy hd
  | some d =>
    obtain rfl := asConstant?_eq_some.mp hd
    obtain rfl := hy.unique (constant d)
    change Yields _ p (Expr.div x (.constant b)) _
    unfold Expr.div
    cases hc : x.asConstant? with
    | none =>
      rw [foldedQuotient_of_not (by simp [BothConstant, hc])]
      simp only [asConstant?]
      split
      · rename_i h1
        rwa [Scalar.eq_iff.mp h1, guardReal_of_le (by rwa [abs_one]), div_one]
      · exact hx.plain_div hy
    | some c =>
      obtain rfl := asConstant?_eq_some.mp hc
      obtain rfl := hx.unique (constant c)
      simp only [asConstant?, foldedQuotient, BothConstant, Option.isSome_some, true_and,
        Scalar.ne_iff, Scalar.eq_iff]
      split_ifs with h0 ha
      · exact constant _
      · rw [ha, zero_div]
        exact constant 0
      · exact hx.plain_div hy

/-- **A power of two constants folds to the plain one,** any other is guarded. -/
theorem Yields.folded_pow (hx : Yields ⟨w, .real fudge⟩ p x a)
    (hy : Yields ⟨w, .real fudge⟩ p y b) :
    Yields ⟨w, .real fudge⟩ p (x.pow y) (foldedPower fudge x y a b) := by
  unfold foldedPower
  cases hd : y.asConstant? with
  | none =>
    rw [if_neg (by simp [BothConstant, hd]), show x.pow y = .binary .pow x y by simp [Expr.pow, hd]]
    exact hx.plain_pow hy
  | some d =>
    cases hc : x.asConstant? with
    | none =>
      rw [if_neg (by simp [BothConstant, hc])]
      exact hx.pow hc hy
    | some c =>
      rw [if_pos (by simp [BothConstant, hc, hd])]
      obtain rfl := asConstant?_eq_some.mp hd
      obtain rfl := hy.unique (constant d)
      obtain rfl := asConstant?_eq_some.mp hc
      obtain rfl := hx.unique (constant c)
      simp only [Expr.pow, asConstant?, Scalar.eq_iff]
      split_ifs with h1 h0
      · rwa [h1, Real.rpow_one]
      · rw [h0, Real.rpow_zero]
        exact constant 1
      · exact constant _

end Folding

section Agreement

variable {σ S : Type}

/-- Both trees compute the same numbers. -/
def SameResults (s : Setting ℝ S ℝ) (host : Resolver σ S) (state : σ) (memory : S → ℝ)
    (x y : Expr ℝ) : Prop :=
  ∀ r, Computes s host state memory x r ↔ Computes s host state memory y r

/-- Trees that compute a number each compute the same if these are the same. -/
theorem sameResults_iff {s : Setting ℝ S ℝ} (hs : s.backend.MultipliesOut) {host : Resolver σ S}
    {source? : Variable → Option S} (hhost : host.Steady source?) {state : σ} {memory : S → ℝ}
    {x y : Expr ℝ} {a b : ℝ} (hx : Computes s host state memory x a)
    (hy : Computes s host state memory y b) : SameResults s host state memory x y ↔ a = b := by
  unfold SameResults
  simp only [computes_iff hs hhost] at hx hy ⊢
  constructor
  · intro h
    exact ((h a).mp hx).unique hy
  · rintro rfl r
    exact ⟨fun h => hx.unique h ▸ hy, fun h => hy.unique h ▸ hx⟩

/-- **Folding agrees with the evaluator, two constants apart.**  Let `x` and `y` be
buildable.  Then they have values `a` and `b`, the folded quotient and power are worth
`foldedQuotient` and `foldedPower`, and the operators that do not fold are guarded.  The
quotients have the same result unless both operands are constants that are not zero and the
divisor is smaller than the guard.  The powers have the same result unless both operands are
constants, and of these in the cases that `PowersAgree` lists, and in no other. -/
theorem folding_agrees {w : Vocabulary ℝ} {fudge : ℝ} (hfudge : 0 < fudge) (hle : fudge ≤ 1)
    (htotal : (⟨w, .real fudge⟩ : Setting ℝ S ℝ).Total) {host : Resolver σ S}
    {source? : Variable → Option S} (hhost : host.Steady source?) {x y : Expr ℝ}
    (hx : Buildable ⟨w, .real fudge⟩ source? x) (hy : Buildable ⟨w, .real fudge⟩ source? y)
    (state : σ) (memory : S → ℝ) :
    ∃ a b, Computes ⟨w, .real fudge⟩ host state memory x a ∧
      Computes ⟨w, .real fudge⟩ host state memory y b ∧
      Computes ⟨w, .real fudge⟩ host state memory (x / y) (foldedQuotient fudge x y a b) ∧
      Computes ⟨w, .real fudge⟩ host state memory (.binary .div x y) (a / guardReal fudge b) ∧
      Computes ⟨w, .real fudge⟩ host state memory (x.pow y) (foldedPower fudge x y a b) ∧
      Computes ⟨w, .real fudge⟩ host state memory (.binary .pow x y) (realPow fudge a b) ∧
      (SameResults ⟨w, .real fudge⟩ host state memory (x / y) (.binary .div x y) ↔
        (BothConstant x y → a = 0 ∨ b = 0 ∨ fudge ≤ |b|)) ∧
      (¬BothConstant x y →
        SameResults ⟨w, .real fudge⟩ host state memory (x.pow y) (.binary .pow x y)) ∧
      (BothConstant x y →
        (SameResults ⟨w, .real fudge⟩ host state memory (x.pow y) (.binary .pow x y) ↔
          PowersAgree fudge a b)) := by
  have hyields {e : Expr ℝ} {r : ℝ} : Yields ⟨w, .real fudge⟩ ⟨source?, memory⟩ e r →
      Computes ⟨w, .real fudge⟩ host state memory e r := (computes_real_iff hhost).mpr
  obtain ⟨a, ha⟩ := Buildable.exists_yields (p := ⟨source?, memory⟩) htotal hx
  obtain ⟨b, hb⟩ := Buildable.exists_yields (p := ⟨source?, memory⟩) htotal hy
  have hquotients := sameResults_iff (Backend.real_multipliesOut fudge) hhost
    (hyields (ha.folded_div hle hb)) (hyields (ha.plain_div hb))
  have hpowers := sameResults_iff (Backend.real_multipliesOut fudge) hhost
    (hyields (ha.folded_pow hb)) (hyields (ha.plain_pow hb))
  refine ⟨a, b, hyields ha, hyields hb, hyields (ha.folded_div hle hb), hyields (ha.plain_div hb),
    hyields (ha.folded_pow hb), hyields (ha.plain_pow hb), ?_, fun hnot => ?_, fun hboth => ?_⟩
  · rw [hquotients]
    by_cases hfold : BothConstant x y ∧ b ≠ 0
    · rw [foldedQuotient, if_pos hfold, div_eq_div_guardReal_iff hfudge hfold.2]
      simp [hfold.1, hfold.2]
    · rw [foldedQuotient_of_not hfold]
      exact iff_of_true rfl fun hboth => .inr (.inl (not_not.mp fun h => hfold ⟨hboth, h⟩))
  · rw [hpowers, foldedPower, if_neg hnot]
  · rw [hpowers, foldedPower, if_pos hboth]
    exact rpow_eq_realPow_iff hfudge

/-- Under a guard of `1/100` the quotient `1 / b` and the power `b ^ -1`, built by folding,
compute at `b = 1/1000` what the evaluator makes of the notation. -/
theorem folding_agrees_reciprocal :
    SameResults ⟨.builtin, .real (1 / 100)⟩ (.recording some) [] (fun _ => 1 / 1000)
        (.constant 1 / .var (.named "b")) (.binary .div (.constant 1) (.var (.named "b"))) ∧
      SameResults ⟨.builtin, .real (1 / 100)⟩ (.recording some) [] (fun _ => 1 / 1000)
        ((Expr.var (.named "b")).pow (.constant (-1)))
        (.binary .pow (.var (.named "b")) (.constant (-1))) := by
  have hfudge : (0 : ℝ) < 1 / 100 := by norm_num
  have hle : (1 / 100 : ℝ) ≤ 1 := by norm_num
  have hhost := Resolver.steady_recording (S := Variable) some
  have hb : Buildable ⟨.builtin, .real (1 / 100 : ℝ)⟩ some (.var (.named "b")) :=
    (Yields.sourced (p := ⟨some, fun _ => 1 / 1000⟩) rfl).buildable
  obtain ⟨_, _, -, -, -, -, -, -, hquotient, -, -⟩ := folding_agrees hfudge hle
    (Setting.total_builtin _) hhost (buildable_constant 1) hb [] fun _ => 1 / 1000
  obtain ⟨_, _, -, -, -, -, -, -, -, hpower, -⟩ := folding_agrees hfudge hle
    (Setting.total_builtin _) hhost hb (buildable_constant (-1)) [] fun _ => 1 / 1000
  exact ⟨hquotient.mpr fun h => absurd h.2 Bool.false_ne_true,
    hpower fun h => Bool.false_ne_true h.1⟩

/-- Of constants it does not: `1 / (1/1000)` folds to `1000` and is evaluated, under a guard of
`1/100`, to `1000/11`; `(-4) ^ (1/2)` is evaluated to `2`, the root of the magnitude, and
does not fold to it. -/
theorem folded_constants_unguarded :
    (Computes ⟨.builtin, .real (1 / 100 : ℝ)⟩ (.recording some) [] (fun _ => 0)
        (.constant 1 / .constant (1 / 1000)) 1000 ∧
      Computes ⟨.builtin, .real (1 / 100 : ℝ)⟩ (.recording some) [] (fun _ => 0)
        (.binary .div (.constant 1) (.constant (1 / 1000))) (1000 / 11) ∧
      ¬SameResults ⟨.builtin, .real (1 / 100)⟩ (.recording some) [] (fun _ => 0)
        (.constant 1 / .constant (1 / 1000))
        (.binary .div (.constant 1) (.constant (1 / 1000)))) ∧
    Computes ⟨.builtin, .real (1 / 100 : ℝ)⟩ (.recording some) [] (fun _ => 0)
      (.binary .pow (.constant (-4)) (.constant (1 / 2))) 2 ∧
    ¬SameResults ⟨.builtin, .real (1 / 100)⟩ (.recording some) [] (fun _ => 0)
      ((Expr.constant (-4)).pow (.constant (1 / 2)))
      (.binary .pow (.constant (-4)) (.constant (1 / 2))) := by
  have hhost := Resolver.steady_recording (S := Variable) some
  have hconstant (c : ℝ) :
      Yields ⟨.builtin, .real (1 / 100)⟩ (⟨some, fun _ => 0⟩ : Point Variable ℝ) (.constant c) c :=
    Yields.constant c
  have hboth (c d : ℝ) : BothConstant (.constant c) (.constant d) := ⟨rfl, rfl⟩
  have hfolded := (hconstant 1).folded_div (by norm_num) (hconstant (1 / 1000))
  rw [foldedQuotient, if_pos ⟨hboth _ _, by norm_num⟩,
    show (1 : ℝ) / (1 / 1000) = 1000 by norm_num] at hfolded
  have hguarded := (hconstant 1).plain_div (hconstant (1 / 1000))
  rw [guardReal_of_lt (by norm_num [abs_of_pos]) (by norm_num),
    show (1 : ℝ) / (1 / 1000 + 1 / 100) = 1000 / 11 by norm_num] at hguarded
  have hhalf : integerExponent? (1 / 2 : ℝ) = none := integerExponent?_eq_none fun n hn => by
    have htwice : (1 : ℝ) = ((n + n : ℤ) : ℝ) := by push_cast; linarith
    have hodd : (1 : ℤ) = n + n := by exact_mod_cast htwice
    omega
  have hroot : realPow (1 / 100 : ℝ) (-4) (1 / 2) = 2 := by
    rw [realPow_of_integerExponent?_eq_none hhalf (by norm_num [abs_of_neg])]
    change |(-4 : ℝ)| ^ (1 / 2 : ℝ) = 2
    rw [← Real.sqrt_eq_rpow, show |(-4 : ℝ)| = 2 ^ 2 by norm_num [abs_of_neg]]
    exact Real.sqrt_sq zero_le_two
  have hpower := (hconstant (-4)).plain_pow (hconstant (1 / 2))
  have hevaluated := hpower
  rw [hroot] at hevaluated
  have hprincipal := (hconstant (-4)).folded_pow (hconstant (1 / 2))
  rw [foldedPower, if_pos (hboth _ _)] at hprincipal
  refine ⟨⟨(computes_real_iff hhost).mpr hfolded, (computes_real_iff hhost).mpr hguarded, ?_⟩,
    (computes_real_iff hhost).mpr hevaluated, ?_⟩
  · rw [sameResults_iff (Backend.real_multipliesOut _) hhost
      ((computes_real_iff hhost).mpr hfolded) ((computes_real_iff hhost).mpr hguarded)]
    norm_num
  · rw [sameResults_iff (Backend.real_multipliesOut _) hhost
      ((computes_real_iff hhost).mpr hprincipal) ((computes_real_iff hhost).mpr hpower),
      rpow_eq_realPow_iff_of_magnitude (by norm_num) hhalf (.inr (by norm_num [abs_of_neg]))]
    rintro ⟨-, hnonneg | ⟨k, hk⟩⟩
    · norm_num at hnonneg
    · have hquarter : (1 : ℝ) = ((4 * k : ℤ) : ℝ) := by push_cast; linarith
      have hwhole : (1 : ℤ) = 4 * k := by exact_mod_cast hquarter
      omega

end Agreement
end Expr
end CircuitExpr
