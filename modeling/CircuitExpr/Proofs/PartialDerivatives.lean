/-
# The table of partial derivatives

The chain rule needs the partial derivatives of the functions, and the vocabulary lists
them as trees: of `atan(u)` it is `1 / (1 + u ^ 2)`.  Over the real numbers, without a
guard, each of these trees is worth the slope of the function in that argument
(`partials_are_slopes`), whatever the arguments are, as long as their values are *smooth*:
inside the domain of the function, and off its kinks and cuts.

| function | smooth arguments |
| --- | --- |
| `exp`, `sin`, `cos`, `atan`, `sinh`, `cosh`, `tanh`, `asinh` | all |
| `log`, `ln`, `log10`, `sqrt` | `0 < a` |
| `abs` | `a ≠ 0` |
| `tan` | `cos a ≠ 0` |
| `asin`, `acos`, `atanh` | `-1 < a < 1` |
| `acosh` | `1 < a` |
| `hypot(a, b)` | `a ≠ 0` or `b ≠ 0` |
| `pow(a, c)` | `0 < a` |
| `pwr(a, c)` | `a ≠ 0` |
| `atan2(a, b)` | `0 < b` or `a ≠ 0` |

The arguments of a function may be constants, and then the operators of the table fold: a
square becomes the square that analysis computes, which is the one that is multiplied out.
A rule that emits nothing for an argument has a constant there.
-/

import Mathlib
import CircuitExpr.Proofs.RealSlopes

namespace CircuitExpr

namespace Vocabulary

/-! ### Smooth arguments -/

/-- The arguments lie inside the domain of the function, and off its kinks and cuts. -/
inductive SmoothAt : NamedFunction ℝ → List ℝ → Prop
  /-- Functions without a boundary. -/
  | everywhere {f : NamedFunction ℝ} {a : ℝ} :
    f ∈ [exp, sin, cos, atan, sinh, cosh, tanh, asinh] → SmoothAt f [a]
  /-- The logarithms and the root. -/
  | positive {f : NamedFunction ℝ} {a : ℝ} :
    f ∈ [naturalLogarithm "log", naturalLogarithm "ln", log10, sqrt] → 0 < a → SmoothAt f [a]
  /-- The magnitude has a kink at zero. -/
  | abs {a : ℝ} : a ≠ 0 → SmoothAt Vocabulary.abs [a]
  /-- The tangent has poles. -/
  | tan {a : ℝ} : Real.cos a ≠ 0 → SmoothAt Vocabulary.tan [a]
  /-- Inverse functions between minus one and one. -/
  | openUnit {f : NamedFunction ℝ} {a : ℝ} :
    f ∈ [asin, acos, atanh] → -1 < a → a < 1 → SmoothAt f [a]
  /-- The inverse of the hyperbolic cosine. -/
  | acosh {a : ℝ} : 1 < a → SmoothAt Vocabulary.acosh [a]
  /-- The hypotenuse has a kink where both legs are zero. -/
  | hypot {a b : ℝ} : a ≠ 0 ∨ b ≠ 0 → SmoothAt Vocabulary.hypot [a, b]
  /-- The power of a positive base. -/
  | pow {a c : ℝ} : 0 < a → SmoothAt Vocabulary.pow [a, c]
  /-- The signed power has a kink at zero. -/
  | pwr {a c : ℝ} : a ≠ 0 → SmoothAt Vocabulary.pwr [a, c]
  /-- The angle jumps along the negative axis. -/
  | atan2 {a b : ℝ} : 0 < b ∨ a ≠ 0 → SmoothAt Vocabulary.atan2 [a, b]

/-- **Every built-in function with partial derivatives is smooth somewhere.** -/
theorem exists_smoothAt {f : NamedFunction ℝ} (hf : f ∈ builtinFunctions)
    {rule : List (Expr ℝ) → List (Option (Expr ℝ))} (hrule : f.derivative = some (.partials rule)) :
    ∃ values, SmoothAt f values := by
  revert f rule
  simp only [builtinFunctions, roundings, List.cons_append, List.nil_append,
    List.forall_mem_cons]
  and_intros
  all_goals first
    | exact List.forall_mem_nil _
    | exact fun _ => ⟨[1], .abs one_ne_zero⟩
    | exact fun _ => ⟨[2], .acosh one_lt_two⟩
    | exact fun _ => ⟨[1, 0], .hypot (.inl one_ne_zero)⟩
    | exact fun _ => ⟨[1, 0], .pow one_pos⟩
    | exact fun _ => ⟨[1, 0], .pwr one_ne_zero⟩
    | exact fun _ => ⟨[0, 1], .atan2 (.inl one_pos)⟩
    | exact fun _ => ⟨[0], .tan (Real.cos_zero.trans_ne one_ne_zero)⟩
    | (refine fun _ => ⟨[0], .everywhere ?_⟩; simp; done)
    | (refine fun _ => ⟨[1], .positive ?_ one_pos⟩; simp; done)
    | (refine fun _ => ⟨[0], .openUnit ?_ neg_one_lt_zero one_pos⟩; simp; done)
    | (intro rule hrule; cases hrule)

end Vocabulary

namespace Expr

/-! ### What a rule emits -/

/-- What a rule may emit for the argument at `i`, given the values of the arguments. -/
inductive EmitsAt (worth : Expr ℝ → ℝ → Prop) (g : Implementation ℝ ℝ) (args : List (Expr ℝ))
    (values : List ℝ) (i : ℕ) : Option (Expr ℝ) → Prop
  /-- A tree worth the slope of the function in this argument, the others kept. -/
  | slope {d : Expr ℝ} {φ : ℝ → ℝ} {a r : ℝ} : worth d r → values[i]? = some a →
    (∀ t, g 0 (values.set i t) = some (φ t)) → HasDerivAt φ r a →
    EmitsAt worth g args values i (some d)
  /-- Nothing, for a constant. -/
  | constant {c : ℝ} : args[i]? = some (.constant c) → EmitsAt worth g args values i none

/-- The function has values and a rule, and the rule emits slopes. -/
def EmitsSlopes (worth : Expr ℝ → ℝ → Prop) (f : NamedFunction ℝ) (args : List (Expr ℝ))
    (values : List ℝ) : Prop :=
  ∃ g rule, f.real = some g ∧ f.derivative = some (.partials rule) ∧
    (rule args).length = args.length ∧
    ∀ i entry, (rule args)[i]? = some entry → EmitsAt worth g args values i entry

variable {worth : Expr ℝ → ℝ → Prop} {u v : Expr ℝ} {a b r : ℝ}

/-- A function of one argument. -/
theorem EmitsSlopes.one {name : String} {φ : ℝ → ℝ} {ψ : Complex ℝ → Complex ℝ}
    {δ : Expr ℝ → Expr ℝ} (hd : worth (δ u) r) (hφ : HasDerivAt φ r a) :
    EmitsSlopes worth (.unary name φ ψ δ) [u] [a] := by
  refine ⟨_, _, rfl, rfl, rfl, fun i entry h => ?_⟩
  match i with
  | 0 =>
    cases h
    exact .slope hd rfl (fun _ => rfl) hφ
  | i + 1 => cases h

/-- A function of two arguments. -/
theorem EmitsSlopes.two {f : NamedFunction ℝ} {g : Implementation ℝ ℝ}
    {rule : List (Expr ℝ) → List (Option (Expr ℝ))} (hg : f.real = some g)
    (hrule : f.derivative = some (.partials rule)) {left right : Option (Expr ℝ)}
    (hentries : rule [u, v] = [left, right]) (hleft : EmitsAt worth g [u, v] [a, b] 0 left)
    (hright : EmitsAt worth g [u, v] [a, b] 1 right) : EmitsSlopes worth f [u, v] [a, b] := by
  refine ⟨g, rule, hg, hrule, by rw [hentries]; rfl, fun i entry h => ?_⟩
  rw [hentries] at h
  match i with
  | 0 =>
    cases h
    exact hleft
  | 1 =>
    cases h
    exact hright
  | i + 2 => cases h

/-! ### Trees of the table -/

section Trees

open Vocabulary

variable {S : Type} {p : Point S ℝ}

/-- What the trees of the table call. -/
theorem mem_builtinFunctions_of_called {f : NamedFunction ℝ}
    (hf : f ∈ [exp, sin, cos, sinh, cosh, tanh, Vocabulary.sqrt, Vocabulary.abs,
      naturalLogarithm "log", piecewiseConstant "sgn" Scalar.sign, hypot, Vocabulary.pwr]) :
    f ∈ builtinFunctions := by
  revert f
  simp only [List.forall_mem_cons]
  simp [builtinFunctions, roundings]

/-- A call of a built-in function that has real values. -/
theorem Yields.call_builtin {f : NamedFunction ℝ} (hf : f ∈ builtinFunctions)
    {g : Implementation ℝ ℝ} (hreal : f.real = some g) {args : List (Expr ℝ)}
    {values : List ℝ} (harity : f.arity = args.length)
    (hargs : List.Forall₂ (Yields ⟨.builtin, .real 0⟩ p) args values)
    (hr : g 0 values = some r) : Yields ⟨.builtin, .real 0⟩ p (.call f.name args) r := by
  refine .call (f := f) (g := .plain g) ?_ ?_ hargs ?_
  · exact builtin_functionOf?_eq_some.mpr ⟨hf, (lowercase_name hf).symm, harity⟩
  · exact Backend.real_implementation_eq_some.mpr ⟨g, hreal, rfl⟩
  · exact hr

/-- A call of a built-in function of one argument. -/
theorem Yields.call_one {f : NamedFunction ℝ} (hf : f ∈ builtinFunctions) {φ : ℝ → ℝ}
    (hreal : f.real = some (.unary φ)) (harity : f.arity = 1)
    (hu : Yields ⟨.builtin, .real 0⟩ p u a) :
    Yields ⟨.builtin, .real 0⟩ p (.call f.name [u]) (φ a) := by
  have hargs : List.Forall₂ (Yields ⟨.builtin, .real 0⟩ p) [u] [a] := .cons hu .nil
  exact .call_builtin hf hreal harity hargs rfl

/-- A call of a built-in function of two arguments. -/
theorem Yields.call_two {f : NamedFunction ℝ} (hf : f ∈ builtinFunctions)
    {g : Implementation ℝ ℝ} (hreal : f.real = some g) (harity : f.arity = 2)
    (hu : Yields ⟨.builtin, .real 0⟩ p u a) (hv : Yields ⟨.builtin, .real 0⟩ p v b)
    (hr : g 0 [a, b] = some r) : Yields ⟨.builtin, .real 0⟩ p (.call f.name [u, v]) r := by
  have hargs : List.Forall₂ (Yields ⟨.builtin, .real 0⟩ p) [u, v] [a, b] :=
    .cons hu (.cons hv .nil)
  exact .call_builtin hf hreal harity hargs hr

/-- Without a guard every quotient is that of the field. -/
theorem Yields.quotient (hu : Yields ⟨.builtin, .real 0⟩ p u a)
    (hv : Yields ⟨.builtin, .real 0⟩ p v b) : Yields ⟨.builtin, .real 0⟩ p (u / v) (a / b) :=
  hu.div hv (abs_nonneg b)

/-- The square, whether it is multiplied out or folds. -/
theorem Yields.square (hu : Yields ⟨.builtin, .real 0⟩ p u a) :
    Yields ⟨.builtin, .real 0⟩ p (square u) (a ^ 2) := by
  have hrealPow : realPow 0 a 2 = a ^ 2 := realPow_intCast a (n := 2) (by decide)
  have hsquare := hu.pow_of_constants (Yields.constant Scalar.two) fun _ => by
    rw [Scalar.two_eq, hrealPow]
    exact Real.rpow_two a
  rw [Scalar.two_eq (K := ℝ), hrealPow] at hsquare
  rwa [Vocabulary.square, Scalar.two_eq]

/-- The power of a positive base. -/
theorem Yields.pow_of_pos (hu : Yields ⟨.builtin, .real 0⟩ p u a)
    (hv : Yields ⟨.builtin, .real 0⟩ p v b) (ha : 0 < a) :
    Yields ⟨.builtin, .real 0⟩ p (u.pow v) (a ^ b) := by
  have hpow := hu.pow_of_constants hv fun _ => (realPow_of_pos ha b).symm
  rwa [realPow_of_pos ha] at hpow

/-- A root is worth the root of the value. -/
theorem Yields.root (hu : Yields ⟨.builtin, .real 0⟩ p u a) :
    Yields ⟨.builtin, .real 0⟩ p (root u) (Real.sqrt a) :=
  hu.call_one (f := sqrt) (mem_builtinFunctions_of_called (by simp)) rfl rfl

/-! ### One argument -/

/-- Functions without a boundary. -/
theorem emitsSlopes_everywhere {f : NamedFunction ℝ}
    (hf : f ∈ [exp, sin, cos, atan, sinh, cosh, tanh, asinh])
    (hu : Yields ⟨.builtin, .real 0⟩ p u a) :
    EmitsSlopes (Yields ⟨.builtin, .real 0⟩ p) f [u] [a] := by
  have hone : Yields ⟨.builtin, .real 0⟩ p (Expr.one : Expr ℝ) 1 := Yields.constant 1
  simp only [List.mem_cons, List.not_mem_nil, or_false] at hf
  obtain rfl | rfl | rfl | rfl | rfl | rfl | rfl | rfl := hf
  · exact .one (hu.call_one (f := exp) (mem_builtinFunctions_of_called (by simp)) rfl rfl)
      (Real.hasDerivAt_exp a)
  · exact .one (hu.call_one (f := cos) (mem_builtinFunctions_of_called (by simp)) rfl rfl)
      (Real.hasDerivAt_sin a)
  · have hsin := hu.call_one (f := sin) (mem_builtinFunctions_of_called (by simp)) rfl rfl
    exact .one (Yields.valuation.neg hsin) (Real.hasDerivAt_cos a)
  · exact .one (hone.quotient (Yields.valuation.add hone hu.square)) (Real.hasDerivAt_arctan a)
  · exact .one (hu.call_one (f := cosh) (mem_builtinFunctions_of_called (by simp)) rfl rfl)
      (Real.hasDerivAt_sinh a)
  · exact .one (hu.call_one (f := sinh) (mem_builtinFunctions_of_called (by simp)) rfl rfl)
      (Real.hasDerivAt_cosh a)
  · have htanh := hu.call_one (f := tanh) (mem_builtinFunctions_of_called (by simp)) rfl rfl
    exact .one (Yields.valuation.sub hone htanh.square) (hasDerivAt_tanh a)
  · refine .one (hone.quotient (Yields.valuation.add hu.square hone).root) ?_
    exact (Real.hasDerivAt_arsinh a).congr_deriv (by rw [one_div, add_comm])

/-- The logarithms and the root. -/
theorem emitsSlopes_positive {f : NamedFunction ℝ}
    (hf : f ∈ [naturalLogarithm "log", naturalLogarithm "ln", log10, sqrt]) (ha : 0 < a)
    (hu : Yields ⟨.builtin, .real 0⟩ p u a) :
    EmitsSlopes (Yields ⟨.builtin, .real 0⟩ p) f [u] [a] := by
  have hone : Yields ⟨.builtin, .real 0⟩ p (Expr.one : Expr ℝ) 1 := Yields.constant 1
  have hlog : HasDerivAt Real.log (1 / a) a :=
    (Real.hasDerivAt_log ha.ne').congr_deriv (one_div a).symm
  simp only [List.mem_cons, List.not_mem_nil, or_false] at hf
  obtain rfl | rfl | rfl | rfl := hf
  · exact .one (hone.quotient hu) hlog
  · exact .one (hone.quotient hu) hlog
  · exact .one (hone.quotient (Yields.valuation.mul hu (Yields.constant Scalar.ln10)))
      (hasDerivAt_log10 ha)
  · refine .one ((Yields.constant Scalar.half).quotient hu.root) ?_
    refine (Real.hasDerivAt_sqrt ha.ne').congr_deriv ?_
    rw [Scalar.half_eq, div_div]

/-- The magnitude, off its kink. -/
theorem emitsSlopes_abs (ha : a ≠ 0) (hu : Yields ⟨.builtin, .real 0⟩ p u a) :
    EmitsSlopes (Yields ⟨.builtin, .real 0⟩ p) abs [u] [a] :=
  .one (hu.call_one (f := piecewiseConstant "sgn" Scalar.sign)
    (mem_builtinFunctions_of_called (by simp)) rfl rfl) (hasDerivAt_abs_sign ha)

/-- The tangent, off its poles. -/
theorem emitsSlopes_tan (ha : Real.cos a ≠ 0) (hu : Yields ⟨.builtin, .real 0⟩ p u a) :
    EmitsSlopes (Yields ⟨.builtin, .real 0⟩ p) tan [u] [a] := by
  have hcos := hu.call_one (f := cos) (mem_builtinFunctions_of_called (by simp)) rfl rfl
  exact .one ((Yields.constant 1).quotient hcos.square) (Real.hasDerivAt_tan ha)

/-- Inverse functions between minus one and one. -/
theorem emitsSlopes_openUnit {f : NamedFunction ℝ} (hf : f ∈ [asin, acos, atanh])
    (hlo : -1 < a) (hhi : a < 1) (hu : Yields ⟨.builtin, .real 0⟩ p u a) :
    EmitsSlopes (Yields ⟨.builtin, .real 0⟩ p) f [u] [a] := by
  have hone : Yields ⟨.builtin, .real 0⟩ p (Expr.one : Expr ℝ) 1 := Yields.constant 1
  have hrest := Yields.valuation.sub hone hu.square
  simp only [List.mem_cons, List.not_mem_nil, or_false] at hf
  obtain rfl | rfl | rfl := hf
  · exact .one (hone.quotient hrest.root) (Real.hasDerivAt_arcsin hlo.ne' hhi.ne)
  · refine .one ((Yields.constant (-1)).quotient hrest.root) ?_
    exact (Real.hasDerivAt_arccos hlo.ne' hhi.ne).congr_deriv (neg_div _ _).symm
  · exact .one (hone.quotient hrest) (hasDerivAt_artanh hlo hhi)

/-- The inverse of the hyperbolic cosine. -/
theorem emitsSlopes_acosh (ha : 1 < a) (hu : Yields ⟨.builtin, .real 0⟩ p u a) :
    EmitsSlopes (Yields ⟨.builtin, .real 0⟩ p) acosh [u] [a] := by
  have hone : Yields ⟨.builtin, .real 0⟩ p (Expr.one : Expr ℝ) 1 := Yields.constant 1
  refine .one (hone.quotient (Yields.valuation.sub hu.square hone).root) ?_
  exact (Real.hasDerivAt_arcosh ha).congr_deriv (one_div _).symm

/-! ### Two arguments -/

/-- The hypotenuse, off the origin. -/
theorem emitsSlopes_hypot (h : a ≠ 0 ∨ b ≠ 0) (hu : Yields ⟨.builtin, .real 0⟩ p u a)
    (hv : Yields ⟨.builtin, .real 0⟩ p v b) :
    EmitsSlopes (Yields ⟨.builtin, .real 0⟩ p) hypot [u, v] [a, b] := by
  have hhypot := hu.call_two (f := hypot) (mem_builtinFunctions_of_called (by simp)) rfl rfl hv rfl
  refine .two rfl rfl rfl (.slope (hu.quotient hhypot) rfl (fun _ => rfl) (hasDerivAt_hypot h))
    (.slope (hv.quotient hhypot) rfl (fun _ => rfl) ?_)
  have hright := hasDerivAt_hypot h.symm
  simp only [add_comm _ (a ^ 2)] at hright
  exact hright

/-- The angle, off the negative axis. -/
theorem emitsSlopes_atan2 (h : 0 < b ∨ a ≠ 0) (hu : Yields ⟨.builtin, .real 0⟩ p u a)
    (hv : Yields ⟨.builtin, .real 0⟩ p v b) :
    EmitsSlopes (Yields ⟨.builtin, .real 0⟩ p) atan2 [u, v] [a, b] := by
  have hsum := Yields.valuation.add hv.square hu.square
  exact .two rfl rfl rfl
    (.slope (hv.quotient hsum) rfl (fun _ => rfl) (hasDerivAt_atan2_ordinate h))
    (.slope ((Yields.valuation.neg hu).quotient hsum) rfl (fun _ => rfl)
      (hasDerivAt_atan2_abscissa h))

/-- The derivative of a power by its base, for each spelling of the exponent. -/
theorem yields_powerByBase_of_pos (ha : 0 < a) (hu : Yields ⟨.builtin, .real 0⟩ p u a)
    (hv : Yields ⟨.builtin, .real 0⟩ p v b) :
    Yields ⟨.builtin, .real 0⟩ p (powerByBase u v) (b * a ^ (b - 1)) := by
  unfold powerByBase
  split
  · rename_i c hc
    obtain rfl := asConstant?_eq_some.mp hc
    obtain rfl := hv.unique (Yields.constant c)
    split
    · exact Yields.valuation.mul hv (hu.pow_of_pos (Yields.constant (b - 1)) ha)
    · rw [Real.rpow_sub_one ha.ne']
      exact Yields.valuation.mul hv ((hu.pow_of_pos hv ha).quotient hu)
  · have hpred := Yields.valuation.sub hv (Yields.constant 1)
    exact Yields.valuation.mul hv (hu.pow_of_pos hpred ha)

/-- The power of a positive base.  Nothing is emitted for a constant exponent. -/
theorem emitsSlopes_pow (ha : 0 < a) (hu : Yields ⟨.builtin, .real 0⟩ p u a)
    (hv : Yields ⟨.builtin, .real 0⟩ p v b) :
    EmitsSlopes (Yields ⟨.builtin, .real 0⟩ p) Vocabulary.pow [u, v] [a, b] := by
  have hlog := hu.call_one (f := naturalLogarithm "log")
    (mem_builtinFunctions_of_called (by simp)) rfl rfl
  refine .two rfl rfl rfl (.slope (yields_powerByBase_of_pos ha hu hv) rfl (fun _ => rfl)
    (hasDerivAt_realPow_base ha)) ?_
  unfold powerByExponent
  split
  · rename_i c hc
    exact .constant (congrArg some (asConstant?_eq_some.mp hc))
  · exact .slope (Yields.valuation.mul hlog (hu.pow_of_pos hv ha)) rfl (fun _ => rfl)
      (hasDerivAt_realPow_exponent ha)

/-- The signed power, off its kink. -/
theorem emitsSlopes_pwr (ha : a ≠ 0) (hu : Yields ⟨.builtin, .real 0⟩ p u a)
    (hv : Yields ⟨.builtin, .real 0⟩ p v b) :
    EmitsSlopes (Yields ⟨.builtin, .real 0⟩ p) pwr [u, v] [a, b] := by
  have habs := hu.call_one (f := Vocabulary.abs) (mem_builtinFunctions_of_called (by simp)) rfl rfl
  have hlog := habs.call_one (f := naturalLogarithm "log")
    (mem_builtinFunctions_of_called (by simp)) rfl rfl
  have hpwr := hu.call_two (f := pwr) (mem_builtinFunctions_of_called (by simp)) rfl rfl hv rfl
  have hpred := Yields.valuation.sub hv (Yields.constant 1)
  refine .two rfl rfl rfl (.slope (Yields.valuation.mul hv
    (habs.pow_of_pos hpred (abs_pos.mpr ha))) rfl (fun _ => rfl) (hasDerivAt_signedPow_base ha)) ?_
  split
  · rename_i c hc
    exact .constant (congrArg some (asConstant?_eq_some.mp hc))
  · exact .slope (Yields.valuation.mul hlog hpwr) rfl (fun _ => rfl)
      (hasDerivAt_signedPow_exponent ha)

/-- **At smooth arguments every rule emits slopes.** -/
theorem emitsSlopes {f : NamedFunction ℝ} {args : List (Expr ℝ)} {values : List ℝ}
    (hargs : List.Forall₂ (Yields ⟨.builtin, .real 0⟩ p) args values)
    (hsmooth : SmoothAt f values) :
    EmitsSlopes (Yields ⟨.builtin, .real 0⟩ p) f args values := by
  -- one case for each row of the table of smooth arguments
  cases hsmooth with
  | everywhere hf =>
    obtain _ | ⟨hu, ⟨⟩⟩ := hargs
    exact emitsSlopes_everywhere hf hu
  | positive hf ha =>
    obtain _ | ⟨hu, ⟨⟩⟩ := hargs
    exact emitsSlopes_positive hf ha hu
  | abs ha =>
    obtain _ | ⟨hu, ⟨⟩⟩ := hargs
    exact emitsSlopes_abs ha hu
  | tan ha =>
    obtain _ | ⟨hu, ⟨⟩⟩ := hargs
    exact emitsSlopes_tan ha hu
  | openUnit hf hlo hhi =>
    obtain _ | ⟨hu, ⟨⟩⟩ := hargs
    exact emitsSlopes_openUnit hf hlo hhi hu
  | acosh ha =>
    obtain _ | ⟨hu, ⟨⟩⟩ := hargs
    exact emitsSlopes_acosh ha hu
  | hypot h =>
    obtain _ | ⟨hu, _ | ⟨hv, ⟨⟩⟩⟩ := hargs
    exact emitsSlopes_hypot h hu hv
  | pow ha =>
    obtain _ | ⟨hu, _ | ⟨hv, ⟨⟩⟩⟩ := hargs
    exact emitsSlopes_pow ha hu hv
  | pwr ha =>
    obtain _ | ⟨hu, _ | ⟨hv, ⟨⟩⟩⟩ := hargs
    exact emitsSlopes_pwr ha hu hv
  | atan2 h =>
    obtain _ | ⟨hu, _ | ⟨hv, ⟨⟩⟩⟩ := hargs
    exact emitsSlopes_atan2 h hu hv

end Trees

/-- **The table of partial derivatives is calculus.**  Let the rule of a built-in function
be a list of partial derivatives.  There are smooth arguments of the function; and if trees
compute smooth arguments, then the rule emits one entry for each of them, either a tree
that computes the slope of the function in this argument, or nothing if the argument is a
constant. -/
theorem partials_are_slopes {f : NamedFunction ℝ} (hf : f ∈ Vocabulary.builtinFunctions)
    {rule : List (Expr ℝ) → List (Option (Expr ℝ))} (hrule : f.derivative = some (.partials rule))
    {σ S : Type} {host : Resolver σ S} {source? : Variable → Option S}
    (hhost : host.Steady source?) :
    (∃ values, Vocabulary.SmoothAt f values) ∧
    ∀ (state : σ) (memory : S → ℝ) (args : List (Expr ℝ)) (values : List ℝ),
      List.Forall₂ (Computes ⟨.builtin, .real 0⟩ host state memory) args values →
      Vocabulary.SmoothAt f values →
      ∃ g, f.real = some g ∧ (rule args).length = args.length ∧
        ∀ i entry, (rule args)[i]? = some entry →
          EmitsAt (Computes ⟨.builtin, .real 0⟩ host state memory) g args values i entry := by
  refine ⟨Vocabulary.exists_smoothAt hf hrule, fun state memory args values hargs hsmooth => ?_⟩
  rw [computes_eq_yields (Backend.real_multipliesOut 0) hhost] at hargs ⊢
  obtain ⟨g, rule', hg, hrule', hlength, hentries⟩ := emitsSlopes hargs hsmooth
  obtain rfl : rule = rule' := by
    have h := hrule.symm.trans hrule'
    injection h with h
    injection h
  exact ⟨g, hg, hlength, hentries⟩

/-- What is emitted as a slope is worth the slope. -/
theorem EmitsAt.worth_of_hasDerivAt {worth : Expr ℝ → ℝ → Prop} {g : Implementation ℝ ℝ}
    {args : List (Expr ℝ)} {values : List ℝ} {i : ℕ} {d : Expr ℝ}
    (h : EmitsAt worth g args values i (some d)) {φ : ℝ → ℝ} {a r : ℝ} (ha : values[i]? = some a)
    (hφ : ∀ t, g 0 (values.set i t) = some (φ t)) (hr : HasDerivAt φ r a) : worth d r := by
  obtain ⟨hd, ha', hφ', hr'⟩ := h
  obtain rfl := Option.some.inj (ha.symm.trans ha')
  obtain rfl := funext fun t => Option.some.inj ((hφ t).symm.trans (hφ' t))
  rwa [hr.unique hr']

/-- The values of the variables: a point in the left half plane. -/
noncomputable def leftPoint : Variable → ℝ := fun v => if v = .named "y" then 4 else -3

/-- The slopes of the angle of the point `(-3, 4)`. -/
theorem partials_leftPoint :
    ∃ dy dx, Vocabulary.atan2Partials [.var (.named "y"), .var (.named "x")] =
        [some dy, some dx] ∧
      Computes ⟨.builtin, .real 0⟩ (.recording some) [] leftPoint dy (-3 / 25) ∧
      Computes ⟨.builtin, .real 0⟩ (.recording some) [] leftPoint dx (-4 / 25) := by
  have hhost := Resolver.steady_recording (some : Variable → Option Variable)
  have hvar (v : Variable) : Computes ⟨.builtin, .real 0⟩ (.recording some) [] leftPoint
      (.var v) (leftPoint v) :=
    (computes_real_iff hhost).mpr (Yields.sourced rfl)
  have hx : leftPoint (.named "x") = -3 := if_neg (by decide)
  have hy : leftPoint (.named "y") = 4 := if_pos rfl
  have hoff : (0 : ℝ) < -3 ∨ (4 : ℝ) ≠ 0 := .inr four_ne_zero
  have hargs : List.Forall₂ (Computes ⟨.builtin, .real 0⟩ (.recording some) [] leftPoint)
      [.var (.named "y"), .var (.named "x")] [4, -3] :=
    .cons (hy ▸ hvar (.named "y")) (.cons (hx ▸ hvar (.named "x")) .nil)
  obtain ⟨g, hg, -, hemits⟩ := (partials_are_slopes (f := Vocabulary.atan2)
    (by simp [Vocabulary.builtinFunctions]) rfl hhost).2 [] leftPoint _ _ hargs (.atan2 hoff)
  obtain rfl := Option.some.inj hg
  refine ⟨_, _, rfl, ?_, ?_⟩
  · have hslope := (hasDerivAt_atan2_ordinate hoff).congr_deriv
      (show (-3 : ℝ) / ((-3) ^ 2 + 4 ^ 2) = -3 / 25 by norm_num)
    exact (hemits 0 _ rfl).worth_of_hasDerivAt rfl (fun _ => rfl) hslope
  · have hslope := (hasDerivAt_atan2_abscissa hoff).congr_deriv
      (show (-4 : ℝ) / ((-3) ^ 2 + 4 ^ 2) = -4 / 25 by norm_num)
    exact (hemits 1 _ rfl).worth_of_hasDerivAt rfl (fun _ => rfl) hslope

end Expr
end CircuitExpr
