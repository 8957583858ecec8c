/-
# Rules of the functions' own

A host may give functions rules, also the built-in ones, to functions of other names, and it
may replace built-in functions.  What is known of differentiation with the built-in
vocabulary holds as far as the rules are the built-in ones (`Vocabulary.RulesBuiltin`).

The rules bring in calls of functions, which must be there for a derivative to be built.  If
functions have rules of their own and all is there that these bring in
(`Setting.Equipped`), derivatives of a tree have each hereditary property with the tree
(`each_derivatives`); in particular they can be built (`Equipped.buildable_derivatives`).
-/

import Mathlib
import CircuitExpr.Proofs.BuildableDerivatives
import CircuitExpr.Proofs.EitherBackend
import CircuitExpr.Proofs.MatchedDerivatives

namespace CircuitExpr

variable {ρ α S : Type} [Scalar ρ]

/-- Every rule of a function is one of the built-in rules. -/
def Vocabulary.RulesBuiltin (w : Vocabulary ρ) : Prop :=
  ∀ name arity f rule, w.functionOf? name arity = some f → f.derivative = some rule →
    ∃ g ∈ (builtinFunctions : List (NamedFunction ρ)), g.derivative = some rule

/-- Where a function has the rule of `limit`, which chooses by calls of `max`, there is `max`
with values. -/
def Setting.ServesLimits (s : Setting ρ S α) : Prop :=
  ∀ name arity f, s.vocabulary.functionOf? name arity = some f →
    f.derivative = Vocabulary.limit.derivative →
      ∃ g, s.vocabulary.functionOf? "max" 2 = some g ∧ (s.backend.implementation g).isSome = true

/-- A function with a rule has the rule of the built-in function of its name. -/
def Vocabulary.RulesOwn (w : Vocabulary ρ) : Prop :=
  ∀ name arity rule, (w.functionOf? name arity).bind (·.derivative) = some rule →
    (builtin.functionOf? name arity).bind (·.derivative) = some rule

/-- Functions have rules of their own, and the functions that these rules bring in are there,
with values. -/
structure Setting.Equipped (s : Setting ρ S α) : Prop where
  /-- Functions have rules of their own. -/
  own : s.vocabulary.RulesOwn
  /-- What the rules bring in is there. -/
  supplies : s.Supplies

/-- What is equipped for all rules serves the limits. -/
theorem Setting.Equipped.servesLimits {s : Setting ρ S α} (hs : s.Equipped) : s.ServesLimits :=
  fun _ _ _ _ _ => hs.supplies "max" 2 (by decide)

/-- The rules of the built-in vocabulary are the built-in ones. -/
theorem Vocabulary.rulesBuiltin_builtin : (builtin : Vocabulary ρ).RulesBuiltin :=
  fun _ _ f _ hf hrule => ⟨f, (builtin_functionOf?_eq_some.mp hf).1, hrule⟩

/-- Either backend is equipped for the built-in rules. -/
theorem Backend.RealOrComplex.equipped {b : Backend ρ S α} (hb : b.RealOrComplex) :
    Setting.Equipped ⟨.builtin, b⟩ :=
  ⟨fun _ _ _ => id, hb.offers.supplies⟩

namespace Derivative

variable {w : Vocabulary ρ} {wanted : List Variable}

/-- The vocabulary counts for calls only. -/
theorem step_of_not_call {w' : Vocabulary ρ} {e : Expr ρ}
    (he : ∀ name args, e ≠ .call name args) (ds : List (Derivatives ρ)) :
    step w wanted e ds = step w' wanted e ds := by
  cases e with
  | constant c => rfl
  | var v => rfl
  | unary op x => cases op <;> rcases ds with _ | ⟨d, _ | _⟩ <;> rfl
  | binary op x y => rcases ds with _ | ⟨dx, _ | ⟨dy, _ | _⟩⟩ <;> rfl
  | call name args => exact absurd rfl (he name args)
  | conditional c t f => rcases ds with _ | ⟨dt, _ | ⟨df, _ | _⟩⟩ <;> rfl

/-- A step by rules of the functions' own is one by the built-in rules, or without a rule
and without derivatives. -/
theorem step_own (hown : w.RulesOwn) {e : Expr ρ} {ds : List (Derivatives ρ)}
    {m : Derivatives ρ} (hm : step w wanted e ds = some m) :
    step .builtin wanted e ds = some m ∨ m = .empty := by
  cases e with
  | call name args =>
    rw [step] at hm ⊢
    cases hrule : (w.functionOf? name args.length).bind (·.derivative) with
    | none =>
      rw [hrule, ofCall] at hm
      split at hm
      · exact .inr (Option.some.inj hm).symm
      · cases hm
    | some rule =>
      rw [hrule] at hm
      rw [hown name args.length rule hrule]
      exact .inl hm
  | _ =>
    rw [step_of_not_call (by rintro _ _ ⟨⟩)] at hm
    exact .inl hm

/-- A tree with a hereditary property has derivatives with it, also in a vocabulary with
rules of the functions' own. -/
theorem each_derivatives {P : Expr ρ → Prop} (hP : Expr.Hereditary P) (hown : w.RulesOwn)
    {e : Expr ρ} (he : P e) {m : Derivatives ρ} (hm : e.derivatives w wanted = some m) :
    m.Each P := by
  induction e using Expr.childrenInduction generalizing m with
  | step e ih =>
    rw [Expr.derivatives_eq] at hm
    obtain ⟨ds, hds, hm⟩ := Option.bind_eq_some_iff.mp hm
    have heach : ∀ d ∈ ds, d.Each P := by
      intro d hd
      obtain ⟨x, hx, hxd⟩ := exists_left_of_mem (mapM_eq_some_iff.mp hds) hd
      exact ih x (Expr.mem_children_of_mem_operands hx) (hP.operand he hx) hxd
    obtain hm | rfl := step_own hown hm
    · exact hP.step he heach hm
    · exact .empty hP

end Derivative

/-- **Derivatives of a tree that can be built can be built,** where all is there that the rules
bring in. -/
theorem Setting.Equipped.buildable_derivatives {s : Setting ρ S α} (hs : s.Equipped)
    {source? : Variable → Option S} {wanted : List Variable} {e : Expr ρ}
    (he : Expr.Buildable s source? e) {m : Derivatives ρ}
    (hm : e.derivatives s.vocabulary wanted = some m) : m.Each (Expr.Buildable s source?) :=
  Derivative.each_derivatives (Expr.closed_buildable hs.supplies source?).hereditary hs.own he hm

/-- A relation between derivatives and a property of the first ones at once. -/
theorem Derivatives.rel_each {R : Expr ρ → Expr ρ → Prop} {P : Expr ρ → Prop}
    {m m' : Option (Derivatives ρ)}
    (h : Option.Rel (Related R) m m') (hm : ∀ ds, m = some ds → ds.Each P) :
    Option.Rel (Related fun d e => R d e ∧ P d) m m' := by
  cases h with
  | none => exact .none
  | @some ds es h =>
    have heach := hm ds rfl
    have hboth := (List.forall₂_and_left _ _).mpr
      ⟨fun d hd => heach.get? (OrderedMap.get?_of_mem_entries hd), h⟩
    exact .some (List.Forall₂.imp (fun _ _ hde => ⟨hde.2.1, hde.2.2, hde.1⟩) hboth)

end CircuitExpr
