/-
# What both backends have in common

Values are real numbers with one backend and complex numbers with the other.  Much is said
of both: a constant is true if it is not zero, a comparison answers with one or zero, a
power with an integer exponent is multiplied out, and the built-in functions have values
for all arguments.  These are the facts, each by a look at either backend.
-/

import Mathlib
import CircuitExpr.Proofs.EvaluatorValues

namespace CircuitExpr
namespace Backend

variable {ρ α S : Type} [Scalar ρ]

/-- The two backends. -/
inductive RealOrComplex {S : Type} : {α : Type} → Backend ρ S α → Prop
  /-- Real values. -/
  | real (fudge : ρ) : RealOrComplex (.real fudge)
  /-- Complex values, with a source of the frequency or without one. -/
  | complex (fudge : ρ) (laplace : Option S) : RealOrComplex (.complex fudge laplace)

/-- A built-in function is an operator in time only by its name. -/
theorem not_isTimeOperator {f : NamedFunction ρ} (hf : f ∈ Vocabulary.builtinFunctions)
    (hname : f.name ∉ ["ddt", "idt"]) : ¬IsTimeOperator f.name := by
  rw [IsTimeOperator, Vocabulary.lowercase_name hf]
  simpa using hname

/-- A function that is no operator in time has its complex values, whatever the frequency. -/
theorem complex_implementation {f : NamedFunction ρ} (hf : ¬IsTimeOperator f.name) (fudge : ρ)
    (laplace : Option S) :
    (complex fudge laplace).implementation f = f.complex.map .plain := by
  change (laplace? laplace f.name).or (f.complex.map .plain) = _
  rw [laplace?_eq_none laplace hf, Option.none_or]

/-- Every built-in function takes arguments. -/
theorem arity_pos {f : NamedFunction ρ} (hf : f ∈ Vocabulary.builtinFunctions) : 0 < f.arity := by
  revert f
  simp only [Vocabulary.builtinFunctions, Vocabulary.roundings, List.cons_append,
    List.nil_append, List.forall_mem_cons]
  and_intros
  all_goals first
    | exact List.forall_mem_nil _
    | exact Nat.succ_pos _

namespace RealOrComplex

variable {b : Backend ρ S α}

/-- Both backends offer the functions that derivatives call. -/
theorem offers (hb : b.RealOrComplex) : b.Offers := by
  cases hb with
  | real fudge => exact real_offers fudge
  | complex fudge laplace => exact complex_offers fudge laplace

/-- Both multiply out powers with a whole exponent. -/
theorem multipliesOut (h0 : Scalar.eq (0 : ρ) 0 = true) (hb : b.RealOrComplex) :
    b.MultipliesOut := by
  cases hb with
  | real fudge => exact real_multipliesOut fudge
  | complex fudge laplace => exact complex_multipliesOut h0 fudge laplace

/-- What either backend takes for a built-in function has a value for as many arguments as
that takes. -/
theorem serves_builtin (hb : b.RealOrComplex) {name : String} {arity : Nat} {f : NamedFunction ρ}
    (hf : Vocabulary.builtin.functionOf? name arity = some f)
    (himplementation : (b.implementation f).isSome = true) : b.Serves f arity := by
  cases hb with
  | real fudge => exact serves_real .builtin hf himplementation
  | complex fudge laplace =>
    refine serves_complex .builtin hf himplementation (.inr ?_)
    rw [← (Vocabulary.functionOf?_eq_some.mp hf).2]
    exact arity_pos (Vocabulary.builtin_functionOf?_eq_some.mp hf).1

/-- With the built-in vocabulary no call misses an argument. -/
theorem servesCalls_builtin (hb : b.RealOrComplex) (e : Expr ρ) :
    Evaluator.ServesCalls ⟨.builtin, b⟩ e :=
  fun _ _ _ _ hf himplementation => hb.serves_builtin hf himplementation

/-- **The built-in functions have values for all arguments,** with either backend. -/
theorem total (hb : b.RealOrComplex) : Setting.Total ⟨.builtin, b⟩ := by
  intro name values f g memory hf hg
  obtain ⟨g', hg', htotal⟩ := hb.serves_builtin hf (Option.isSome_of_eq_some hg)
  obtain rfl := Option.some.inj (hg.symm.trans hg')
  exact htotal memory _ _ rfl

/-- A constant is true if it is not zero. -/
theorem isTrue_ofReal (hb : b.RealOrComplex) (c : ρ) : b.isTrue (b.ofReal c) = Scalar.ne c 0 := by
  cases hb <;> rfl

end RealOrComplex
end Backend
end CircuitExpr
