/-
# Differentiating adds no failure

An equation fails when its text cannot be read and when something that it names cannot be
found.  It names things in its value and in each of its derivatives, and the derivatives
call functions that the text does not.  With the built-in vocabulary none of these is ever
missing: a derivative has only variables of its tree, calls only functions that are there,
with the right number of arguments, and can be built with the tree
(`derivatives_add_no_failure`).  So an equation fails where its value alone fails, with the
same error, whatever variables it is differentiated by.
-/

import Mathlib
import CircuitExpr.Proofs.BuildableDerivatives
import CircuitExpr.Proofs.EquationVariables

namespace CircuitExpr

/-! ### What a tree names -/

namespace Expr

variable {ρ α S : Type}

mutual

/-- The names that a tree calls, with the numbers of arguments, from left to right. -/
def calls : Expr ρ → List (String × Nat)
  | .constant _ | .var _ => []
  | .unary _ x => calls x
  | .binary _ x y => calls x ++ calls y
  | .call name args => (name, args.length) :: callsAll args
  | .conditional c t f => calls c ++ calls t ++ calls f

/-- The names that some trees call. -/
def callsAll : List (Expr ρ) → List (String × Nat)
  | [] => []
  | x :: xs => calls x ++ callsAll xs

end

/-- The calls of some trees are those of each. -/
theorem mem_callsAll {es : List (Expr ρ)} {name : String × Nat} :
    name ∈ callsAll es ↔ ∃ e ∈ es, name ∈ calls e := by
  induction es with
  | nil => simp [callsAll]
  | cons e es ih => simp [callsAll, ih]

/-- The variables of a call are among some if those of each argument are. -/
theorem leaves_call_subset {name : String} {args : List (Expr ρ)} {vs : List Variable} :
    (Expr.call name args).leaves ⊆ vs ↔ ∀ x ∈ args, x.leaves ⊆ vs := by
  have hleaves : (Expr.call name args).leaves = args.flatMap leaves :=
    (leaves_eq _).trans (List.append_nil _)
  rw [hleaves]
  constructor
  · exact fun h x hx v hv => h (List.mem_flatMap.mpr ⟨x, hx, hv⟩)
  · intro h v hv
    obtain ⟨x, hx, hv⟩ := List.mem_flatMap.mp hv
    exact h x hx hv

variable [Scalar ρ]

/-- A variable of a tree is one of its leaves. -/
theorem mem_vars {e : Expr ρ} {v : Variable} : v ∈ e.vars ↔ v ∈ e.leaves := by
  rw [vars, OrderedMap.mem_distinct, occurrences_eq_leaves]

omit [Scalar ρ] in
/-- **Having only given variables is closed.** -/
theorem closed_leaves (vs : List Variable) : Closed fun x : Expr ρ => x.leaves ⊆ vs where
  constant _ := List.nil_subset vs
  unary := Iff.rfl
  binary := List.append_subset
  conditional := by simp only [leaves, List.append_subset, and_assoc, implies_true]
  argument := leaves_call_subset.mp
  again _ _ _ := leaves_call_subset.mpr
  builtin _ := leaves_call_subset.mpr

/-- A derivative has only variables of its tree. -/
theorem vars_derive_subset {e : Expr ρ} {wanted : List Variable} {ds : Derivatives ρ}
    (hds : e.derive .builtin wanted = some ds) {v : Variable} {d : Expr ρ}
    (hd : ds.get? v = some d) : d.vars ⊆ e.vars := by
  have hleaves : d.leaves ⊆ e.leaves :=
    ((closed_leaves e.leaves).derive (List.Subset.refl _) hds).get? hd
  exact fun u hu => mem_vars.mpr (hleaves (mem_vars.mp hu))

/-- **What can be built calls only functions that are there.** -/
theorem Buildable.functionOf?_of_mem_calls {s : Setting ρ S α} {source? : Variable → Option S}
    {e : Expr ρ} (he : Buildable s source? e) {name : String} {arity : Nat}
    (hcall : (name, arity) ∈ e.calls) :
    ∃ f, s.vocabulary.functionOf? name arity = some f ∧
      (s.backend.implementation f).isSome = true := by
  induction e using Expr.induction with
  | constant c => cases hcall
  | var v => cases hcall
  | unary op x ih => exact ih (buildable_unary.mp he) hcall
  | binary op x y ihx ihy =>
    obtain ⟨hx, hy⟩ := buildable_binary.mp he
    exact (List.mem_append.mp hcall).elim (ihx hx) (ihy hy)
  | call called args ih =>
    obtain ⟨hfunction, hargs⟩ := buildable_call.mp he
    obtain hcall | hcall := List.mem_cons.mp hcall
    · obtain ⟨rfl, rfl⟩ := Prod.mk.inj hcall
      exact hfunction
    · obtain ⟨x, hx, hcall⟩ := mem_callsAll.mp hcall
      exact ih x hx (hargs x hx) hcall
  | conditional c t f ihc iht ihf =>
    obtain ⟨hc, ht, hf⟩ := buildable_conditional.mp he
    obtain hcall | hcall := List.mem_append.mp hcall
    · exact (List.mem_append.mp hcall).elim (ihc hc) (iht ht)
    · exact ihf hf hcall

end Expr

/-! ### Equations -/

/-- The backends that there are have values for the built-in functions. -/
theorem Backend.Standard.offers {S α : Type} {b : Backend Double S α} (h : b.Standard) :
    b.Offers := by
  cases h with
  | real fudge => exact real_offers fudge
  | complex fudge laplace => exact complex_offers fudge laplace

namespace Equation

open Attempt

variable {ρ S α σ : Type} [Scalar ρ]

/-- The evaluator of the value of a text, without derivatives. -/
def valueAlone (s : Setting ρ S α) (host : Resolver σ S) (text : String) :
    Attempt EquationError σ (Evaluator ρ S α) :=
  .andThen (.ofExcept (read s text)) fun e => .mapError .build (Evaluator.build s host e)

variable {host : Resolver σ S} {source? : Variable → Option S}

/-- Without derivatives an equation comes out with its value. -/
theorem valueAlone_eq_ok {s : Setting ρ S α} (hhost : host.Steady source?) {text : String}
    {e : Expr ρ} (he : read s text = .ok e) {x : Evaluator ρ S α}
    (hx : Evaluator.translate s source? e = .ok x) (state : σ) :
    (valueAlone s host text state).1 = .ok x := by
  rw [valueAlone, fst_andThen, fst_ofExcept, he]
  change (mapError EquationError.build (Evaluator.build s host e) state).1 = .ok x
  rw [fst_mapError, Evaluator.build_eq_translate hhost, hx]
  rfl

variable {b : Backend ρ S α}

/-- **An equation fails where its value fails,** and else has this value. -/
theorem map_value_ofExpr (hb : b.Offers) (hhost : host.Steady source?) (text : String)
    (e : Expr ρ) (vars : List Variable) (state : σ) :
    (ofExpr ⟨.builtin, b⟩ host text e vars state).1.map Equation.value =
      (Evaluator.build ⟨.builtin, b⟩ host e state).1.mapError .build := by
  rw [ofExpr, Evaluator.build_eq_translate hhost]
  cases hderive : e.derive (.builtin : Vocabulary ρ) vars with
  | none =>
    rw [assemble, fst_mapError, fst_andThen, Evaluator.build_eq_translate hhost]
    cases Evaluator.translate ⟨.builtin, b⟩ source? e <;> rfl
  | some ds =>
    rw [fst_assemble hhost]
    cases hvalue : Evaluator.translate ⟨.builtin, b⟩ source? e with
    | error err => rfl
    | ok value =>
      have hbuildable : ∀ v ∈ vars,
          Expr.Buildable ⟨.builtin, b⟩ source? (Vocabulary.orZero (ds.get? v)) :=
        fun v _ => Expr.buildable_derive hb ⟨value, hvalue⟩ hderive v
      obtain ⟨slopes, hslopes⟩ := exists_translateSlopes hbuildable .empty
      change (Except.mapError _ (do
        let slopes ← translateSlopes ⟨.builtin, b⟩ source? ds vars .empty
        return _)).map Equation.value = _
      rw [hslopes]
      rfl

/-- A text gives an equation where its value alone can be built, whatever the variables
that it is differentiated by. -/
theorem map_value_of_read (hb : b.Offers) (hhost : host.Steady source?) (text : String)
    (vars : Expr ρ → List Variable) (state : σ) :
    (andThen (ofExcept (read ⟨.builtin, b⟩ text))
      (fun e => ofExpr ⟨.builtin, b⟩ host text e (vars e)) state).1.map Equation.value =
      (valueAlone ⟨.builtin, b⟩ host text state).1 := by
  rw [valueAlone, fst_andThen, fst_andThen, fst_ofExcept]
  cases read ⟨.builtin, b⟩ text with
  | error err => rfl
  | ok e => exact (map_value_ofExpr hb hhost text e (vars e) state).trans (fst_mapError ..).symm

end Equation

/-- **Differentiating adds no failure.**  With the built-in vocabulary, either backend and a
steady host, the equation of a text, by its own variables or by any others, has the value
that the text has without derivatives, and fails where this fails, with the same error.
For if a tree can be built, each of its derivatives has only variables of the tree, calls
only functions that are there, and can be built, too. -/
theorem derivatives_add_no_failure {α S σ : Type} {b : Backend Double S α} (hb : b.Standard)
    {host : Resolver σ S} {source? : Variable → Option S} (hhost : host.Steady source?) :
    (∀ (text : String) (state : σ),
      (Equation.ofText ⟨.builtin, b⟩ host text state).1.map Equation.value =
        (Equation.valueAlone ⟨.builtin, b⟩ host text state).1 ∧
      ∀ vars, (Equation.ofTextBy ⟨.builtin, b⟩ host vars text state).1.map Equation.value =
        (Equation.valueAlone ⟨.builtin, b⟩ host text state).1) ∧
    ∀ (e : Expr Double) (state : σ) (value : Evaluator Double S α),
      (Evaluator.build ⟨.builtin, b⟩ host e state).1 = .ok value →
      ∀ (wanted : List Variable) (ds : Derivatives Double), e.derive .builtin wanted = some ds →
      ∀ (v : Variable) (d : Expr Double), (v, d) ∈ ds.entries →
        d.vars ⊆ e.vars ∧
        (∀ name arity, (name, arity) ∈ d.calls →
          ∃ f, Vocabulary.builtin.functionOf? name arity = some f ∧
            (b.implementation f).isSome = true) ∧
        ∀ state', ∃ slope, (Evaluator.build ⟨.builtin, b⟩ host d state').1 = .ok slope := by
  constructor
  · intro text state
    exact ⟨Equation.map_value_of_read hb.offers hhost text Expr.vars state,
      fun vars => Equation.map_value_of_read hb.offers hhost text (fun _ => vars) state⟩
  · intro e state value hvalue wanted ds hds v d hd
    rw [Evaluator.build_eq_translate hhost] at hvalue
    have hget : ds.get? v = some d := OrderedMap.get?_of_mem_entries hd
    have hbuildable : d.Buildable ⟨.builtin, b⟩ source? :=
      (Expr.buildable_derive hb.offers ⟨value, hvalue⟩ hds).get? hget
    refine ⟨Expr.vars_derive_subset hds hget,
      fun name arity hcall => hbuildable.functionOf?_of_mem_calls hcall, fun state' => ?_⟩
    rw [Evaluator.build_eq_translate hhost]
    exact hbuildable

/-- The text `sin(a)` is a call, unless `a` is a constant. -/
theorem parse_sine {constant? : String → Option Double} (h : constant? "a" = none) :
    Expr.parse constant? "sin(a)" = .ok (.call "sin" [.var (.named "a")]) := by
  cbv
  rw [h]
  rfl

/-- The text `sin(a)` with complex values and a source of the frequency: the derivative calls
`cos`, and the equation comes out with the value of the text. -/
theorem sineEquation_comes_out :
    ∃ q : Equation Double Variable (Complex Double),
      (Equation.ofText ⟨.builtin, .complex 0 (some (.named "s"))⟩ (.recording some) "sin(a)" []).1 =
        .ok q ∧
      q.value = .call Vocabulary.sin [.read (.named "a")] := by
  have hread : Equation.read
      (⟨.builtin, .complex 0 (some (.named "s"))⟩ : Setting Double Variable (Complex Double)) "sin(a)" =
      .ok (.call "sin" [.var (.named "a")]) := by
    rw [Equation.read, parse_sine constant?_a]
    rfl
  have hsin : (Vocabulary.builtin : Vocabulary Double).functionOf? "sin" 1 = some Vocabulary.sin :=
    Vocabulary.builtin_functionOf?_eq_some.mpr
      ⟨by simp [Vocabulary.builtinFunctions], by decide +kernel, rfl⟩
  have hcallee : Evaluator.callee
      (⟨.builtin, .complex 0 (some (.named "s"))⟩ : Setting Double Variable (Complex Double)) "sin" 1 =
        .ok Vocabulary.sin := by
    rw [Evaluator.callee, hsin]
    rfl
  have htranslate : Evaluator.translate
      (⟨.builtin, .complex 0 (some (.named "s"))⟩ : Setting Double Variable (Complex Double))
      (some : Variable → Option Variable) (.call "sin" [.var (.named "a")]) =
        .ok (.call Vocabulary.sin [.read (.named "a")]) := by
    rw [Evaluator.translate, List.length_singleton, hcallee]
    rfl
  have hhost := Resolver.steady_recording (S := Variable) some
  have hvalue := ((derivatives_add_no_failure (.complex 0 (some (.named "s"))) hhost).1 "sin(a)" []).1
  rw [Equation.valueAlone_eq_ok hhost hread htranslate, map_eq_ok] at hvalue
  exact hvalue

end CircuitExpr
