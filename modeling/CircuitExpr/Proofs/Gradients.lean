/-
# The gradient and the list of variables

An equation may be asked for derivatives by any list of variables.  A variable that the
expression does not have gets derivative zero.  A variable that is listed twice has one
evaluator and gets one place in the gradient, although the equation keeps the list as it was
given: the places follow the variables without their repetitions, and so they follow the
list only if no variable is repeated (`gradient_follows_distinct`).
-/

import Mathlib
import CircuitExpr.Proofs.Differentiability
import CircuitExpr.Proofs.StackedEquations

namespace CircuitExpr
namespace Equation

open Attempt
open Vocabulary (orZero)

variable {ρ S α σ : Type} [Scalar ρ] {s : Setting ρ S α} {host : Resolver σ S} {e : Expr ρ}
  {vars : List Variable} {q : Equation ρ S α} {text : String} {state : σ}

/-- An equation by a list is put together from what is read. -/
theorem exists_read_of_ofTextBy (h : (ofTextBy s host vars text state).1 = .ok q) :
    ∃ e, (assemble s host text e vars (e.derive s.vocabulary vars) state).1 = .ok q := by
  have hread := h
  rw [ofTextBy, fst_andThen] at hread
  obtain ⟨e, he, -⟩ := bind_eq_ok.mp hread
  exact ⟨e, (ofTextBy_eq text vars state he).symm.trans h⟩

/-- The evaluators of an equation were built from its derivatives, whatever the host. -/
theorem derivativeBy_of_assemble {ds? : Option (Derivatives ρ)}
    (h : (assemble s host text e vars ds? state).1 = .ok q) : q.expr = e ∧
      ∀ ds, ds? = some ds → ∀ v ∈ vars, ∃ x state',
        (Evaluator.build s host (orZero (ds.get? v)) state').1 = .ok x ∧
          q.derivativeBy v = .ok x := by
  cases ds? with
  | none =>
    obtain ⟨value, -, rfl⟩ := assemble_none_eq_ok.mp h
    refine ⟨rfl, fun ds hds => ?_⟩
    cases hds
  | some ds =>
    obtain ⟨value, slopes, -, hslopes, rfl⟩ := assemble_some_eq_ok.mp h
    refine ⟨rfl, fun ds' hds v hv => ?_⟩
    obtain rfl := Option.some.inj hds
    obtain ⟨x, state', hx, hfound⟩ := (get?_of_buildSlopes hslopes v).1 hv
    exact ⟨x, state', hx, derivativeBy_eq_ok rfl hfound⟩

/-- **The gradient has a place for each variable of the list, but one only for a variable that
is repeated.**  It is there for any host and at any moment, and each place holds the derivative
by its variable.  The derivative by a variable that the expression does not have, or does not
depend on, is zero. -/
theorem gradient_follows_distinct (h : (ofTextBy s host vars text state).1 = .ok q)
    (hq : q.isDifferentiable = true) (memory : S → α) :
    q.vars = vars ∧
    (∃ xs, q.gradient s.backend memory = .ok xs ∧
      List.Forall₂ (fun v x => q.slopeBy s.backend memory v = .ok x)
        (OrderedMap.distinct q.vars) xs ∧
      (xs.length = q.vars.length ↔ q.vars.Nodup) ∧
      (q.vars.Nodup → List.Forall₂ (fun v x => q.slopeBy s.backend memory v = .ok x) q.vars xs)) ∧
    ∃ ds, q.derivatives = some ds ∧ (∀ v, v ∉ q.expr.vars → ds.get? v = none) ∧
      ∀ v ∈ q.vars, ds.get? v = none →
        q.slopeBy s.backend memory v = .ok (some (s.backend.ofReal 0)) := by
  obtain ⟨e, he⟩ := exists_read_of_ofTextBy h
  obtain ⟨hvars, hderivatives⟩ := assemble_eq_ok he
  obtain ⟨hexpr, hslopes⟩ := derivativeBy_of_assemble he
  obtain ⟨ds, hds⟩ := Option.isSome_iff_exists.mp hq
  rw [hderivatives] at hds
  subst hvars
  refine ⟨rfl, ?_, ds, hderivatives.trans hds, fun v hv => ?_, fun v hv hnone => ?_⟩
  · have hgradient : q.gradient s.backend memory =
        (OrderedMap.distinct q.vars).mapM (q.slopeBy s.backend memory) :=
      gradient_eq_mapM (covers_of_assemble he) (.inl hq)
    obtain ⟨xs, hxs⟩ : ∃ xs, q.gradient s.backend memory = .ok xs := by
      obtain ⟨-, hxs⟩ | ⟨hnot, -⟩ :=
        EquationSystem.gradient_cases s.backend memory (covers_of_assemble he)
      · exact hxs
      · rw [hq] at hnot
        cases hnot
    have hplaces := mapM_eq_ok.mp (hgradient.symm.trans hxs)
    refine ⟨xs, hxs, hplaces, ?_, fun hnodup => ?_⟩
    · rw [← hplaces.length_eq, OrderedMap.length_distinct_eq_iff]
    · rwa [OrderedMap.distinct_of_nodup hnodup] at hplaces
  · -- The variables of the list that do not occur may as well be left out of it.
    have hfewer : e.derive s.vocabulary (q.vars.filter (· ∈ e.vars)) = some ds := by
      refine (Expr.deriveWith_congr fun u hu => ?_).trans hds
      rw [List.mem_filter, decide_eq_true_eq, Expr.mem_vars]
      exact and_iff_left hu
    refine Expr.get?_eq_none_of_derive hfewer fun hmem => hv ?_
    rw [hexpr]
    exact of_decide_eq_true (List.mem_filter.mp hmem).2
  · obtain ⟨x, state', hx, hfound⟩ := hslopes ds hds v hv
    rw [hnone] at hx
    obtain rfl := Except.ok.inj hx
    rw [slopeBy, hfound]
    rfl

/-- The names of built-in functions, on real numbers. -/
def builtinSetting : Setting Double Variable Double := ⟨.builtin, .real 0⟩

/-- The text `a` comes to the variable, with derivative one if it is asked for. -/
theorem ofTextBy_variable (vars : List Variable) (asked : List Variable) :
    (ofTextBy builtinSetting (.recording some) vars "a" asked).1 =
      (assemble builtinSetting (.recording some) "a" (.var (.named "a")) vars
        (some (if .named "a" ∈ vars then .single (.named "a") .one else .empty)) asked).1 := by
  have hread : read builtinSetting "a" = .ok (.var (.named "a")) := by
    rw [read, builtinSetting, parse_a constant?_a]
    rfl
  rw [ofTextBy_eq "a" vars asked hread, Expr.derive_var]

/-- The gradient of `a` by an absent variable and by `a`. -/
theorem absentVariable_gradient :
    ∃ q : Equation Double Variable Double,
      (ofTextBy builtinSetting (.recording some) [.named "b", .named "a"] "a" []).1 = .ok q ∧
      q.isDifferentiable = true ∧
      ∀ memory, ∃ xs, q.gradient (.real 0) memory = .ok xs ∧ xs.length = 2 := by
  obtain ⟨q, hq, hdifferentiable⟩ : ∃ q : Equation Double Variable Double,
      (ofTextBy builtinSetting (.recording some) [.named "b", .named "a"] "a" []).1 = .ok q ∧
        q.isDifferentiable = true := by
    rw [ofTextBy_variable]
    exact ⟨_, rfl, rfl⟩
  refine ⟨q, hq, hdifferentiable, fun memory => ?_⟩
  obtain ⟨hvars, ⟨xs, hxs, -, hlength, -⟩, -⟩ :=
    gradient_follows_distinct hq hdifferentiable memory
  rw [hvars] at hlength
  exact ⟨xs, hxs, hlength.mpr (by decide)⟩

/-- The equation of `a` by `a` and `a` again lists two variables, and its gradient has one
place. -/
theorem repeatedVariable_gradient :
    ∃ q : Equation Double Variable Double,
      (ofTextBy builtinSetting (.recording some) [.named "a", .named "a"] "a" []).1 = .ok q ∧
      q.isDifferentiable = true ∧ q.vars = [.named "a", .named "a"] ∧
      ∀ memory, q.gradient (.real 0) memory = .ok [some 1] := by
  rw [ofTextBy_variable]
  exact ⟨_, rfl, rfl, rfl, fun memory => rfl⟩

end Equation
end CircuitExpr
