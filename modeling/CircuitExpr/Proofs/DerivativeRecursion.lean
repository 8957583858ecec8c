/-
# Differentiation as a recursion

The derivatives of a tree come from those of its operands by `Derivative.step`.
`Expr.derivatives` is the recursion that says so and nothing else: every operand is
differentiated again wherever it occurs, and nothing is remembered.
-/

import Mathlib
import CircuitExpr.Derivative
import CircuitExpr.Proofs.BuiltinVocabulary
import CircuitExpr.Proofs.SubtreeWalk

namespace CircuitExpr
namespace Expr

variable {ρ : Type}

/-- What a tree is differentiated through. -/
def operands : Expr ρ → List (Expr ρ)
  | .constant _ | .var _ | .unary .not _ => []
  | .unary _ x => [x]
  | .binary op x y => if op.isBoolean then [] else [x, y]
  | .call _ args => args
  | .conditional _ t f => [t, f]

/-- Operands are children. -/
theorem mem_children_of_mem_operands {e x : Expr ρ} (h : x ∈ e.operands) : x ∈ e.children := by
  cases e with
  | constant c => cases h
  | var v => cases h
  | unary op y =>
    cases op with
    | not => cases h
    | plus => exact h
    | minus => exact h
  | binary op y z =>
    rw [operands] at h
    split at h
    · cases h
    · exact h
  | call name args => exact h
  | conditional c t f => exact List.mem_cons_of_mem c h

variable [Scalar ρ]

mutual

/-- The derivatives of a tree from those of its operands. -/
def derivatives (w : Vocabulary ρ) (wanted : List Variable) : Expr ρ → Option (Derivatives ρ)
  | .constant c => Derivative.step w wanted (.constant c) []
  | .var v => Derivative.step w wanted (.var v) []
  | .unary .not x => Derivative.step w wanted (.unary .not x) []
  | .unary op x => do Derivative.step w wanted (.unary op x) [← derivatives w wanted x]
  | .binary op x y =>
    if op.isBoolean then Derivative.step w wanted (.binary op x y) []
    else do
      let dx ← derivatives w wanted x
      Derivative.step w wanted (.binary op x y) [dx, ← derivatives w wanted y]
  | .call name args => do
    Derivative.step w wanted (.call name args) (← derivativesAll w wanted args)
  | .conditional c t f => do
    let dt ← derivatives w wanted t
    Derivative.step w wanted (.conditional c t f) [dt, ← derivatives w wanted f]

/-- The derivatives of some trees. -/
def derivativesAll (w : Vocabulary ρ) (wanted : List Variable) :
    List (Expr ρ) → Option (List (Derivatives ρ))
  | [] => some []
  | x :: xs => do
    let d ← derivatives w wanted x
    return d :: (← derivativesAll w wanted xs)

end

variable {w : Vocabulary ρ} {wanted : List Variable}

/-- The derivatives of some trees are those of each. -/
theorem derivativesAll_eq_mapM (es : List (Expr ρ)) :
    derivativesAll w wanted es = es.mapM (derivatives w wanted) := by
  induction es with
  | nil => rfl
  | cons e es ih =>
    rw [derivativesAll, ih, List.mapM_cons]

/-- The derivatives of any tree come from those of its operands. -/
theorem derivatives_eq (e : Expr ρ) :
    e.derivatives w wanted =
      (e.operands.mapM (derivatives w wanted)).bind (Derivative.step w wanted e) := by
  cases e with
  | constant c => rfl
  | var v => rfl
  | unary op x =>
    cases op with
    | not => rfl
    | _ => cases hx : x.derivatives w wanted <;> simp [derivatives, operands, hx]
  | binary op x y =>
    rw [derivatives, operands]
    split
    · rfl
    · cases hx : x.derivatives w wanted <;> cases hy : y.derivatives w wanted <;> simp [hx, hy]
  | call name args =>
    rw [derivatives, derivativesAll_eq_mapM]
    rfl
  | conditional c t f =>
    cases ht : t.derivatives w wanted <;> cases hf : f.derivatives w wanted <;>
      simp [derivatives, operands, ht, hf]

/-- The derivatives of a call of a function that is found come by its rule. -/
theorem derivatives_call_of {f : NamedFunction ρ} {name : String} {args : List (Expr ρ)}
    (hf : w.functionOf? name args.length = some f) (ms : List (Derivatives ρ))
    (hms : derivativesAll w wanted args = some ms) :
    (Expr.call name args).derivatives w wanted = Derivative.ofCall f.derivative args ms := by
  have hstep : Derivative.step w wanted (.call name args) ms =
      Derivative.ofCall ((w.functionOf? name args.length).bind (·.derivative)) args ms := rfl
  rw [derivatives, hms]
  simp only [Option.bind_eq_bind, Option.bind_some]
  rw [hstep, hf, Option.bind_some]

/-- The derivatives of a call of a built-in function come by its rule. -/
theorem derivatives_call {f : NamedFunction ρ} (hmem : f ∈ Vocabulary.builtinFunctions)
    {name : String} (hname : f.name = Text.lowercase name) {args : List (Expr ρ)}
    (harity : f.arity = args.length) (ms : List (Derivatives ρ))
    (hms : derivativesAll .builtin wanted args = some ms) :
    (Expr.call name args).derivatives .builtin wanted = Derivative.ofCall f.derivative args ms :=
  derivatives_call_of (Vocabulary.builtin_functionOf?_eq_some.mpr ⟨hmem, hname, harity⟩) ms hms

end Expr

end CircuitExpr
