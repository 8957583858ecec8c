/-
# Derivatives of trees that count as the same

Trees that are alike have derivatives that are alike: by the same variables, in the same
order.  Being alike is one way to match, and derivatives that are alike are related by what
differentiation keeps (`Expr.Alike.congruence`), so a step of differentiation keeps them
alike (`step_alike`) and no built-in rule tells them apart (`respectsKeys_builtin`).
-/

import Mathlib
import CircuitExpr.Proofs.AlikeTrees
import CircuitExpr.Proofs.MatchedBuiltin

namespace CircuitExpr

open CircuitExpr.Expr (Alike Matches alike_iff_matches)

variable {ρ : Type} [Scalar ρ]

/-! ### Maps of derivatives -/

namespace Derivatives

/-- Entries of the same variable with derivatives that are alike. -/
def EntryAlike (d e : Variable × Expr ρ) : Prop := d.1 = e.1 ∧ Alike d.2 e.2

/-- Derivatives by the same variables in the same order, each alike. -/
protected def Alike (ds es : Derivatives ρ) : Prop :=
  List.Forall₂ EntryAlike ds.entries es.entries

namespace Alike

variable {ds es fs : Derivatives ρ}

/-- Derivatives are alike to themselves. -/
theorem refl (ds : Derivatives ρ) : ds.Alike ds :=
  List.forall₂_same.mpr fun d _ => ⟨rfl, .refl d.2⟩

/-- Derivatives are alike in either direction. -/
theorem symm (h : ds.Alike es) : es.Alike ds :=
  List.Forall₂.flip (List.Forall₂.imp (fun _ _ hde => ⟨hde.1.symm, hde.2.symm⟩) h)

/-- Derivatives that are alike to the same ones are alike. -/
theorem trans (h : ds.Alike es) (h' : es.Alike fs) : ds.Alike fs :=
  Expr.forall₂_trans (fun _ _ _ _ hde hef => ⟨hde.1.trans hef.1, hde.2.trans hef.2⟩) h h'

/-- Maps are alike if their entries are related by being alike. -/
theorem iff_related : ds.Alike es ↔ Related Alike ds es := Iff.rfl

/-- Of two that are alike, both are empty or none is. -/
theorem isEmpty (h : ds.Alike es) : ds.isEmpty = es.isEmpty := Related.isEmpty (iff_related.mp h)

end Alike
end Derivatives

/-! ### Rules -/

/-- Partial derivatives by arguments, one list as good as the other: they are alike by
every argument that is not a constant. -/
inductive PartialsAlike : List (Expr ρ) → List (Option (Expr ρ)) → List (Option (Expr ρ)) → Prop
  /-- Partial derivatives by arguments that there are not do not count. -/
  | noMore {ps qs : List (Option (Expr ρ))} : PartialsAlike [] ps qs
  /-- Both lists are at their end. -/
  | done {xs : List (Expr ρ)} : PartialsAlike xs [] []
  /-- The partial derivatives by the first argument, and by the others. -/
  | cons {x : Expr ρ} {xs : List (Expr ρ)} {p q : Option (Expr ρ)} {ps qs : List (Option (Expr ρ))} :
    (x.asConstant? = none → Option.Rel Alike p q) → PartialsAlike xs ps qs →
      PartialsAlike (x :: xs) (p :: ps) (q :: qs)

/-- The rule gives derivatives that are alike for arguments that are. -/
def Rule.RespectsKeys : Rule ρ → Prop
  | .constant => True
  | .partials f => ∀ xs ys, List.Forall₂ Alike xs ys → PartialsAlike xs (f xs) (f ys)
  | .direct f => ∀ xs ys ds es, List.Forall₂ Alike xs ys →
    List.Forall₂ (Option.Rel Alike) ds es → Option.Rel Alike (f xs ds) (f ys es)

/-- Every rule of a function gives derivatives that are alike for arguments that are. -/
def Vocabulary.RespectsKeys (w : Vocabulary ρ) : Prop :=
  ∀ name arity f rule, w.functionOf? name arity = some f → f.derivative = some rule →
    rule.RespectsKeys

/-- Partial derivatives are alike if they match under being alike. -/
theorem partialsAlike_iff {xs : List (Expr ρ)} {ps qs : List (Option (Expr ρ))} :
    PartialsAlike xs ps qs ↔ PartialsMatch Alike xs ps qs := by
  constructor
  · intro h
    induction h with
    | noMore => exact .noMore
    | done => exact .done
    | cons hpq _ ih => exact .cons hpq ih
  · intro h
    induction h with
    | noMore => exact .noMore
    | done => exact .done
    | cons hpq _ ih => exact .cons hpq ih

/-- A rule respects keys if it takes what is alike to what is alike, whatever the operands. -/
theorem Rule.respectsKeys_iff {rule : Rule ρ} :
    rule.RespectsKeys ↔ rule.Relates Alike Alike fun _ => True := by
  cases rule with
  | constant => exact Iff.rfl
  | partials f => exact forall₃_congr fun _ _ _ => partialsAlike_iff
  | direct f =>
    exact ⟨fun h xs ys ds es _ => h xs ys ds es,
      fun h xs ys ds es => h xs ys ds es fun _ _ => trivial⟩

/-! ### A step of differentiation -/

/-- Being alike is matching. -/
theorem Expr.alike_eq_matches :
    (Alike : Expr ρ → Expr ρ → Prop) = Matches (fun a b => Scalar.same a b = true) (· = ·) := by
  funext x y
  exact propext alike_iff_matches

variable [Scalar.RespectsKeys ρ]

/-- What differentiation does with derivatives that are alike leaves them alike. -/
theorem Expr.Alike.congruence :
    Derivatives.Congruence (Matches (fun a b : ρ => Scalar.same a b = true) (· = ·)) Alike
      fun _ => True := by
  have hC := Scalar.RespectsKeys.compatible (ρ := ρ)
  have hselect {c c' d d' e e' : Expr ρ} (hc : Alike c c') (h : Alike d e) (h' : Alike d' e') :
      Alike (Expr.select c d d') (Expr.select c' e e') := hc.select h h'
  rw [Expr.alike_eq_matches] at hselect ⊢
  exact {
    constant := fun c => .constant (hC.refl c)
    neg := fun h => h.neg hC
    add := fun h h' => h.add hC h'
    mul := fun h h' => h.mul hC h'
    div := fun h h' => h.div hC h'
    call := fun h => .call rfl (.cons h .nil)
    select := fun _ => hselect }

/-- **Trees that are alike, from derivatives of their operands that are alike, have
derivatives that are alike.** -/
theorem Derivative.step_alike {w : Vocabulary ρ} (hw : w.RespectsKeys) (wanted : List Variable)
    {e e' : Expr ρ} (he : Alike e e') {ds es : List (Derivatives ρ)}
    (hds : List.Forall₂ Derivatives.Alike ds es) (hflat : ConstantsFlat e.operands ds) :
    Option.Rel Derivatives.Alike (step w wanted e ds) (step w wanted e' es) := by
  refine step_related Scalar.RespectsKeys.compatible (fun _ => rfl) Expr.Alike.congruence
    Expr.passedOn_true (fun h => congrArg w.function? h) (fun name arity f rule hf hrule => ?_)
    trivial (alike_iff_matches.mp he) hds hflat
  rw [← Expr.alike_eq_matches]
  exact Rule.respectsKeys_iff.mp (hw name arity f rule hf hrule)

/-- **No built-in rule tells apart arguments that count as the same.** -/
theorem Vocabulary.respectsKeys_builtin : (builtin : Vocabulary ρ).RespectsKeys := by
  intro name arity f rule hf hrule
  have hrelates := rule_relates Scalar.RespectsKeys.compatible (fun _ => rfl)
    Expr.Alike.congruence Expr.passedOn_true (builtin_functionOf?_eq_some.mp hf).1
    (fun _ _ _ _ _ => trivial) hrule
  rw [← Expr.alike_eq_matches] at hrelates
  exact Rule.respectsKeys_iff.mpr hrelates

end CircuitExpr
