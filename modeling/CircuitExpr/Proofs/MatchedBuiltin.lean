/-
# The built-in rules on trees that match

Every rule of a built-in function gives related derivatives for arguments that match
(`Vocabulary.rule_relates`).  Most rules put the arguments under operators that fold, and
inherit this from them.

The angle of a point takes squares of arguments that may be the constant zero while the
other argument is none.  Such an argument is the dividend of its own quotient, which
folds to zero before the square under it is looked at.
-/

import Mathlib
import CircuitExpr.Proofs.BuiltinVocabulary
import CircuitExpr.Proofs.MatchedDerivatives

namespace CircuitExpr

open CircuitExpr.Expr (Matches)

variable {ρ : Type} [Scalar ρ]

/-! ### Kinds of rules -/

namespace Rule

variable {P R : Expr ρ → Expr ρ → Prop} {G : Expr ρ → Prop}

omit [Scalar ρ] in
/-- A chain rule with one factor relates derivatives if the factor keeps trees matched. -/
theorem relates_chain {f : Expr ρ → Expr ρ}
    (hf : ∀ {x y}, x.asConstant? = none → P x y → P (f x) (f y)) :
    (Rule.chain f).Relates P R G := by
  intro xs ys hxs
  cases hxs with
  | nil => exact .noMore
  | cons hxy _ => exact .cons (fun hconstant => .some (hf hconstant hxy)) .done

omit [Scalar ρ] in
/-- A rule of two partial derivatives relates derivatives if the partial derivatives match. -/
theorem relates_two {f : Expr ρ → Expr ρ → List (Option (Expr ρ))}
    (hf : ∀ {x x' y y'}, P x x' → P y y' → ∀ rest,
      PartialsMatch P (x :: y :: rest) (f x y) (f x' y')) :
    (Vocabulary.partialsOfTwo f).Relates P R G := by
  intro xs ys hxs
  cases hxs with
  | nil => exact .noMore
  | cons hx hxs =>
    cases hxs with
    | nil => exact .done
    | cons hy _ => exact hf hx hy _

end Rule

namespace Expr

/-- A zero divided by anything but a constant folds to zero. -/
theorem zero_div_of_isZero {x y : Expr ρ} (hx : x.isZero = true) (hy : y.asConstant? = none) :
    x / y = Expr.zero := by
  change Expr.div x y = Expr.zero
  rw [isZero] at hx
  cases hconstant : x.asConstant? with
  | none => simp [hconstant] at hx
  | some a =>
    rw [hconstant, Option.any_some] at hx
    simp only [Expr.div, hconstant, hy, hx, if_true]

/-- A sum is no constant unless both summands are. -/
theorem asConstant?_add {x y : Expr ρ} (h : x.asConstant? = none ∨ y.asConstant? = none) :
    (x + y).asConstant? = none := by
  change (Expr.add x y).asConstant? = none
  unfold Expr.add
  cases hx : x.asConstant? <;> cases hy : y.asConstant? <;> simp only
  · rfl
  · split
    · exact hx
    · rfl
  · split
    · exact hy
    · rfl
  · simp [hx, hy] at h

end Expr

namespace Vocabulary

variable {C : ρ → ρ → Prop} {N : String → String → Prop} {R : Expr ρ → Expr ρ → Prop}
  {G : Expr ρ → Prop}

/-! ### Squares and angles -/

/-- Squares match if the bases do and are not zero. -/
theorem square_match (hC : Scalar.Compatible C) {u v : Expr ρ} (hu : u.isZero = false)
    (h : Matches C N u v) : Matches C N (square u) (square v) :=
  h.pow hC (.constant (hC.refl _)) (.inl hu)

/-- A square is computed, also of a constant, only if the exponent does not fold away. -/
theorem square_cases (hC : Scalar.Compatible C) :
    (∀ u v : Expr ρ, Matches C N u v → Matches C N (square u) (square v)) ∨
      ∀ u : Expr ρ, u.asConstant? = none → (square u).asConstant? = none := by
  have htwo : (Expr.constant (Scalar.two : ρ)).asConstant? = some Scalar.two := rfl
  by_cases h1 : Scalar.eq (Scalar.two : ρ) 1 = true
  · left
    intro u v h
    simpa only [square, Expr.pow, htwo, h1, if_true] using h
  by_cases h0 : Scalar.eq (Scalar.two : ρ) 0 = true
  · left
    intro u v _
    simp only [square, Expr.pow, htwo, h1, h0, if_true]
    exact .constant (hC.refl 1)
  · right
    intro u hu
    simp only [square, Expr.pow, htwo, h1, h0, hu]
    rfl

/-- A quotient by a sum of squares, the dividend zero if a side is. -/
theorem div_squares_match (hC : Scalar.Compatible C) {a a' x x' y y' : Expr ρ}
    (ha : Matches C N a a') (hx : Matches C N x x') (hy : Matches C N y y')
    (hzero : x.isZero = true ∨ y.isZero = true → a.isZero = true)
    (hconstant : x.asConstant? = none ∨ y.asConstant? = none) :
    Matches C N (a / (square x + square y)) (a' / (square x' + square y')) := by
  by_cases h : x.isZero = true ∨ y.isZero = true
  · obtain hsquare | hsquare := square_cases (N := N) hC
    · exact ha.div hC ((hsquare x x' hx).add hC (hsquare y y' hy))
    · have hconstant' : x'.asConstant? = none ∨ y'.asConstant? = none :=
        hconstant.imp hx.asConstant?_eq_none.mp hy.asConstant?_eq_none.mp
      have hsum {x y : Expr ρ} (h : x.asConstant? = none ∨ y.asConstant? = none) :
          (square x + square y).asConstant? = none :=
        Expr.asConstant?_add (h.imp (hsquare x) (hsquare y))
      rw [Expr.zero_div_of_isZero (hzero h) (hsum hconstant),
        Expr.zero_div_of_isZero (ha.isZero hC ▸ hzero h) (hsum hconstant')]
      exact .constant (hC.refl 0)
  · rw [not_or, Bool.not_eq_true, Bool.not_eq_true] at h
    exact ha.div hC ((square_match hC h.1 hx).add hC (square_match hC h.2 hy))

/-- Zero with another sign is zero. -/
theorem isZero_neg (hC : Scalar.Compatible C) {x : Expr ρ} (h : x.isZero = true) :
    (-x).isZero = true := by
  cases x with
  | constant c => exact hC.neg_zero h
  | _ => cases h

/-- The rule of the angle relates derivatives. -/
theorem atan2Partials_relates (hC : Scalar.Compatible C) :
    (Rule.partials atan2Partials).Relates (Matches C N) R G := by
  intro xs ys hxs
  cases hxs with
  | nil => exact .noMore
  | cons hy hxs => cases hxs with
    | nil => exact .done
    | cons hx _ =>
      refine .cons (fun hconstant => .some ?_) (.cons (fun hconstant => .some ?_) .done)
      · refine div_squares_match hC hx hx hy (fun h => h.resolve_right ?_) (.inr hconstant)
        rw [Expr.isZero_of_asConstant? hconstant]
        exact Bool.false_ne_true
      · refine div_squares_match hC (hy.neg hC) hx hy (fun h => ?_) (.inl hconstant)
        refine isZero_neg hC (h.resolve_left ?_)
        rw [Expr.isZero_of_asConstant? hconstant]
        exact Bool.false_ne_true

/-! ### The other rules -/

/-- The rule of the distance relates derivatives. -/
theorem hypotPartials_relates (hC : Scalar.Compatible C) (hN : ∀ name, N name name) :
    (Rule.partials hypotPartials).Relates (Matches C N) R G := by
  intro xs ys hxs
  cases hxs with
  | nil => exact .noMore
  | cons hx hxs => cases hxs with
    | nil => exact .done
    | cons hy _ =>
      have hlength : Matches C N (.call "hypot" [_, _]) (.call "hypot" [_, _]) :=
        .call (hN _) (.cons hx (.cons hy .nil))
      exact .of_forall₂
        (.cons (.some (hx.div hC hlength)) (.cons (.some (hy.div hC hlength)) .nil))

/-- The derivative of a selection between two arguments. -/
theorem selectBy_relates (hR : Derivatives.Congruence (Matches C N) R G) (hG : Expr.PassedOn G)
    (op : BinaryOp) : (Rule.direct (selectBy op)).Relates (Matches C N) R G := by
  intro xs ys ds es hgood hxs hds
  cases hxs with
  | nil => exact .none
  | cons hx hxs => cases hxs with
    | nil => exact .none
    | cons hy _ => cases hds with
      | nil => exact .none
      | cons hd hds => cases hds with
        | nil => exact .none
        | cons he _ =>
          obtain ⟨hleft, hgood⟩ := List.forall_mem_cons.mp hgood
          obtain ⟨hright, -⟩ := List.forall_mem_cons.mp hgood
          exact .some (hR.select (hG.comparison hleft hright) (.binary hx hy) (hR.orZero hd)
            (hR.orZero he))

/-- The derivative of an argument kept between two others. -/
theorem limitDerivative_relates (hN : ∀ name, N name name)
    (hR : Derivatives.Congruence (Matches C N) R G) (hG : Expr.PassedOn G)
    (hmax : ∀ x y, G x → G y → G (.call "max" [x, y])) :
    (Rule.direct limitDerivative).Relates (Matches C N) R G := by
  intro xs ys ds es hgood hxs hds
  obtain _ | ⟨hx, _ | ⟨hlo, _ | ⟨hhi, _⟩⟩⟩ := hxs
  · exact .none
  · exact .none
  · exact .none
  obtain _ | ⟨hdx, _ | ⟨hdlo, _ | ⟨hdhi, _⟩⟩⟩ := hds
  · exact .none
  · exact .none
  · exact .none
  obtain ⟨hfirst, hgood⟩ := List.forall_mem_cons.mp hgood
  obtain ⟨hsecond, hgood⟩ := List.forall_mem_cons.mp hgood
  obtain ⟨hthird, -⟩ := List.forall_mem_cons.mp hgood
  have hgreater : Matches C N (.call "max" [_, _]) (.call "max" [_, _]) :=
    .call (hN _) (.cons hx (.cons hlo .nil))
  exact .some (hR.select (hG.comparison (hmax _ _ hfirst hsecond) hthird) (.binary hgreater hhi)
    (hR.select (hG.comparison hfirst hsecond) (.binary hx hlo) (hR.orZero hdx)
      (hR.orZero hdlo)) (hR.orZero hdhi))

/-- The rule of an operator in time relates derivatives. -/
theorem linearDerivative_relates {P : Expr ρ → Expr ρ → Prop}
    (hR : Derivatives.Congruence P R G) (name : String) :
    (Rule.direct (linearDerivative name)).Relates P R G := by
  intro xs ys ds es _ _ hds
  cases hds with
  | nil => exact .none
  | cons hd _ => cases hd with
    | none => exact .none
    | some hd => exact .some (hR.call hd)

/-- The partial derivatives of the power of the absolute value match. -/
theorem signedPowerPartials_match (hC : Scalar.Compatible C) (hN : ∀ name, N name name)
    {f f' g g' : Expr ρ} (hf : Matches C N f f') (hg : Matches C N g g') (rest : List (Expr ρ)) :
    PartialsMatch (Matches C N) (f :: g :: rest) (signedPowerPartials f g)
      (signedPowerPartials f' g') := by
  have hmagnitude : Matches C N (.call "abs" [f]) (.call "abs" [f']) :=
    .call (hN _) (.cons hf .nil)
  refine .cons (fun _ => .some ?_) (.cons (fun hconstant => ?_) .done)
  · exact hg.mul hC (hmagnitude.pow hC (hg.sub hC (.constant (hC.refl 1))) (.inl rfl))
  · rw [hconstant, hg.asConstant?_eq_none.mp hconstant]
    exact .some (.mul hC (.call (hN _) (.cons hmagnitude .nil))
      (.call (hN _) (.cons hf (.cons hg .nil))))

/-- **Every built-in rule gives related derivatives for arguments that match.** The rule of
`limit` chooses by a call of `max`. -/
theorem rule_relates (hC : Scalar.Compatible C) (hN : ∀ name, N name name)
    (hR : Derivatives.Congruence (Matches C N) R G) (hG : Expr.PassedOn G)
    {f : NamedFunction ρ} (hf : f ∈ builtinFunctions) {rule : Rule ρ}
    (hmax : rule = .direct limitDerivative → ∀ x y, G x → G y → G (.call "max" [x, y]))
    (hrule : f.derivative = some rule) : rule.Relates (Matches C N) R G := by
  have hcall (name : String) {u v : Expr ρ} (h : Matches C N u v) :
      Matches C N (.call name [u]) (.call name [v]) := .call (hN name) (.cons h .nil)
  have hsquare {u v : Expr ρ} (hu : u.asConstant? = none) (h : Matches C N u v) :
      Matches C N (square u) (square v) := square_match hC (Expr.isZero_of_asConstant? hu) h
  have hconstant (c : ρ) : Matches C N (.constant c) (.constant c) := .constant (hC.refl c)
  have hone : Matches C N (Expr.one : Expr ρ) Expr.one := hconstant 1
  revert rule f
  simp only [builtinFunctions, roundings, List.cons_append, List.nil_append,
    List.forall_mem_cons, List.not_mem_nil, IsEmpty.forall_iff, implies_true, and_true]
  and_intros
  all_goals rintro _ hmax ⟨⟩
  · exact Rule.relates_chain fun _ h => hcall "exp" h
  · exact Rule.relates_chain fun _ h => hone.div hC h
  · exact Rule.relates_chain fun _ h => hone.div hC h
  · exact Rule.relates_chain fun _ h => hone.div hC (h.mul hC (hconstant _))
  · exact Rule.relates_chain fun _ h => (hconstant _).div hC (hcall "sqrt" h)
  · exact hypotPartials_relates hC hN
  · exact Rule.relates_two (Derivative.powerPartials_match hC hN)
  · exact Rule.relates_two (signedPowerPartials_match hC hN)
  · exact Rule.relates_chain fun _ h => hcall "cos" h
  · exact Rule.relates_chain fun _ h => (hcall "sin" h).neg hC
  · exact Rule.relates_chain fun _ h => hone.div hC (hsquare rfl (hcall "cos" h))
  · exact Rule.relates_chain fun hu h =>
      hone.div hC (hcall "sqrt" (hone.sub hC (hsquare hu h)))
  · exact Rule.relates_chain fun hu h =>
      (hconstant _).div hC (hcall "sqrt" (hone.sub hC (hsquare hu h)))
  · exact Rule.relates_chain fun hu h => hone.div hC (hone.add hC (hsquare hu h))
  · exact Rule.relates_chain fun _ h => hcall "cosh" h
  · exact Rule.relates_chain fun _ h => hcall "sinh" h
  · exact Rule.relates_chain fun _ h => hone.sub hC (hsquare rfl (hcall "tanh" h))
  · exact Rule.relates_chain fun hu h =>
      hone.div hC (hcall "sqrt" ((hsquare hu h).add hC hone))
  · exact Rule.relates_chain fun hu h =>
      hone.div hC (hcall "sqrt" ((hsquare hu h).sub hC hone))
  · exact Rule.relates_chain fun hu h => hone.div hC (hone.sub hC (hsquare hu h))
  · exact atan2Partials_relates hC
  · exact Rule.relates_chain fun _ h => hcall "sgn" h
  · exact trivial
  · exact trivial
  · exact trivial
  · exact trivial
  · exact trivial
  · exact selectBy_relates hR hG .lt
  · exact selectBy_relates hR hG .gt
  · exact limitDerivative_relates hN hR hG (hmax rfl)
  · exact linearDerivative_relates hR "ddt"
  · exact linearDerivative_relates hR "idt"

end Vocabulary
end CircuitExpr
