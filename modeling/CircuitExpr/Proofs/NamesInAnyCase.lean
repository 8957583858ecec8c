/-
# The case of function names

A tree keeps the names that it calls as they were written.  Functions are looked up in any
case, so the case of a name shows neither in whether a tree can be built nor in its values
(`Evaluator.build_eq_ok_iff`).

Whether two trees are the same does depend on the case of names, and with it whether a
choice in a derivative folds.  A choice that does not fold is built with its condition, and
a condition may call what cannot be built: a function that the tree called but that is not
there, or `max`, which the rule of `limit` brings in, in a vocabulary that has lost it.
Then the derivative can be built in one case of the names and not in the other
(`capitals_lose_derivative`).

That is all that may happen, with numbers that are exact and rules that are the built-in
ones.  The derivatives of both trees are by the same variables, and wherever both have a
value it is the same.  If the tree can be built, and `limit` comes with `max`
(`Setting.ServesLimits`), its derivatives can be built in both cases of the names or in
neither; and they can be built where all is there that the rules bring in
(`Setting.Equipped`).
-/

import Mathlib
import CircuitExpr.Proofs.OwnRules
import CircuitExpr.Proofs.TwinDerivatives

namespace CircuitExpr

open CircuitExpr.Expr (CaseAlike Twin Buildable Computes)
open CircuitExpr.Evaluator (build)

/-! ### Exact numbers -/

section Exact

variable {K α S σ : Type} [Field K] [LinearOrder K] [FloorRing K] [AnalyticFunctions K]

/-- Zero compares as equal to itself. -/
theorem Scalar.eq_zero_self : Scalar.eq (0 : K) 0 = true := Scalar.eq_iff.mpr rfl

/-- Numbers that compare as equal are equal. -/
theorem Scalar.compatible_exact : Scalar.Compatible (ρ := K) (· = ·) :=
  Scalar.compatible_eq fun a ha => by
    rw [Scalar.eq_iff] at ha ⊢
    rw [ha, neg_zero]

/-- Changing the sign twice changes nothing. -/
theorem Backend.RealOrComplex.neg_involutive {b : Backend K S α} (hb : b.RealOrComplex) :
    Function.Involutive b.neg := by
  cases hb with
  | real fudge => exact neg_neg
  | complex fudge laplace =>
    rintro ⟨re, im⟩
    exact congrArg₂ Complex.mk (neg_neg re) (neg_neg im)

variable {w : Vocabulary K} {b : Backend K S α} {t t' : Expr K} {source? : Variable → Option S}

/-- **The derivatives of trees that differ in the case of names are twins,** for an agreement
on conditions like those of the tree and those that `limit` brings in. -/
theorem derive_twins {G : Expr K → Prop} {A : Expr K → Expr K → Prop} (hG : Expr.PassedOn G)
    (hA : Expr.Agreement G A) (hw : w.RulesBuiltin)
    (hmax : ∀ name arity f, w.functionOf? name arity = some f →
      f.derivative = Vocabulary.limit.derivative → ∀ x y, G x → G y → G (.call "max" [x, y]))
    (ht : G t) (h : CaseAlike t t') (wanted : List Variable) :
    Option.Rel (Derivatives.Related (Twin A)) (t.derive w wanted) (t'.derive w wanted) := by
  have hC := Scalar.compatible_exact (K := K)
  have hR : Derivatives.Congruence CaseAlike (Twin A) G :=
    Twin.congruence hA fun _ _ => Expr.eq_of_same fun _ _ => Scalar.eq_of_same
  rw [Expr.derive_eq_derivatives, Expr.derive_eq_derivatives]
  refine Derivative.derivatives_related (P := fun e e' => G e ∧ CaseAlike e e')
    (fun ⟨hgood, he⟩ => ?_) (fun ⟨hgood, he⟩ hds hflat => ?_) ⟨ht, h⟩
  · exact (List.forall₂_and_left _ _).mpr
      ⟨fun x hx => hG.child hgood (Expr.mem_children_of_mem_operands hx), he.operands⟩
  · refine Derivative.step_related hC Text.CaseVariant.refl hR hG (w.function?_eq ·)
      (fun name arity f rule hf hrule => ?_) hgood he hds hflat
    obtain ⟨g, hg, hgrule⟩ := hw name arity f rule hf hrule
    refine Vocabulary.rule_relates hC Text.CaseVariant.refl hR hG hg (fun hlimit => ?_) hgrule
    exact hmax name arity f hf (hrule.trans (congrArg some hlimit))

/-- Wherever both derivatives have a value it is the same. -/
theorem derive_agree (hb : b.RealOrComplex) (hw : w.RulesBuiltin) (h : CaseAlike t t')
    (wanted : List Variable) :
    Option.Rel (Derivatives.Related (Expr.Agree ⟨w, b⟩)) (t.derive w wanted)
      (t'.derive w wanted) := by
  have hA : Expr.Agreement (fun _ => True) (Expr.Agree ⟨w, b⟩) :=
    Expr.agreement_values hb.neg_involutive (hb.multipliesOut Scalar.eq_zero_self)
  exact Derivatives.rel_imp (fun hde => hde.agree hA) (derive_twins Expr.passedOn_true hA hw
    (fun _ _ _ _ _ _ _ _ _ => trivial) trivial h wanted)

/-- Of a tree that can be built, both derivatives can be built or none. -/
theorem derive_buildable_iff (hw : w.RulesBuiltin) (hlimits : Setting.ServesLimits ⟨w, b⟩)
    (ht : Buildable ⟨w, b⟩ source? t) (h : CaseAlike t t') (wanted : List Variable) :
    Option.Rel
      (Derivatives.Related fun d d' => Buildable ⟨w, b⟩ source? d ↔ Buildable ⟨w, b⟩ source? d')
      (t.derive w wanted) (t'.derive w wanted) := by
  have hA := Expr.agreement_buildable ⟨w, b⟩ source?
  have hG : Expr.PassedOn (Buildable ⟨w, b⟩ source?) :=
    ⟨Buildable.child, fun hx hy => Expr.buildable_binary.mpr ⟨hx, hy⟩⟩
  refine Derivatives.rel_imp (fun hde => hde.agree hA) (derive_twins hG hA hw ?_ ht h wanted)
  intro name arity f hf hrule x y hx hy
  exact Expr.buildable_call.mpr ⟨hlimits name arity f hf hrule,
    List.forall_mem_cons.mpr ⟨hx, List.forall_mem_singleton.mpr hy⟩⟩

/-- Both can be built where all is there that the rules bring in. -/
theorem derive_buildable (hw : w.RulesBuiltin) (hequipped : Setting.Equipped ⟨w, b⟩)
    (ht : Buildable ⟨w, b⟩ source? t) (h : CaseAlike t t') (wanted : List Variable) :
    Option.Rel
      (Derivatives.Related fun d d' => Buildable ⟨w, b⟩ source? d ∧ Buildable ⟨w, b⟩ source? d')
      (t.derive w wanted) (t'.derive w wanted) := by
  have hiff := derive_buildable_iff hw hequipped.servesLimits ht h wanted
  refine Derivatives.rel_imp (fun hde => ⟨hde.2, hde.1.mp hde.2⟩)
    (Derivatives.rel_each hiff fun m hm => ?_)
  rw [Expr.derive_eq_derivatives] at hm
  exact hequipped.buildable_derivatives ht hm

end Exact

/-! ### The case of names -/

/-- **The case of the names that a tree calls does not matter,** as far as it can be
evaluated.  With any vocabulary, any backend and a steady host, trees that differ in nothing
else are built into one evaluator, or both cannot be built.

With exact numbers, either backend and rules that are the built-in ones, either both have no
derivatives, or both have derivatives by the same variables, in the same order, and wherever
both derivatives by a variable have a value it is the same.  If the tree can be built, and
`limit` comes with `max`, both derivatives can be built or none; if also functions have
values for all arguments, both compute the same.  With all that the rules bring in, both
compute a value. -/
theorem names_in_any_case :
    (∀ {ρ α S σ : Type} [Scalar ρ] (s : Setting ρ S α) {host : Resolver σ S}
      {source? : Variable → Option S}, host.Steady source? →
      ∀ {t t' : Expr ρ}, CaseAlike t t' → ∀ (state state' : σ) (x : Evaluator ρ S α),
        (build s host t state).1 = .ok x ↔ (build s host t' state').1 = .ok x) ∧
    ∀ {K α S σ : Type} [Field K] [LinearOrder K] [FloorRing K] [AnalyticFunctions K]
      {w : Vocabulary K} {b : Backend K S α} {host : Resolver σ S}
      {source? : Variable → Option S}, b.RealOrComplex → w.RulesBuiltin →
      host.Steady source? → ∀ {t t' : Expr K}, CaseAlike t t' → ∀ wanted : List Variable,
        Option.Rel (Derivatives.Related fun d d' => ∀ (state state' : σ) (memory : S → α) (a a' : α),
            Computes ⟨w, b⟩ host state memory d a → Computes ⟨w, b⟩ host state' memory d' a' →
              a = a')
          (t.derive w wanted) (t'.derive w wanted) ∧
        ∀ (state : σ) (x : Evaluator K S α), (build ⟨w, b⟩ host t state).1 = .ok x →
          (Setting.ServesLimits ⟨w, b⟩ →
            Option.Rel (Derivatives.Related fun d d' => ∀ state state' : σ,
                ((∃ y, (build ⟨w, b⟩ host d state).1 = .ok y) ↔
                  ∃ y, (build ⟨w, b⟩ host d' state').1 = .ok y) ∧
                (Setting.Total ⟨w, b⟩ → ∀ (memory : S → α) (a : α),
                  Computes ⟨w, b⟩ host state memory d a ↔
                    Computes ⟨w, b⟩ host state' memory d' a))
              (t.derive w wanted) (t'.derive w wanted)) ∧
          (Setting.Equipped ⟨w, b⟩ → Setting.Total ⟨w, b⟩ →
            Option.Rel (Derivatives.Related fun d d' => ∀ memory : S → α, ∃ a, ∀ state : σ,
                Computes ⟨w, b⟩ host state memory d a ∧ Computes ⟨w, b⟩ host state memory d' a)
              (t.derive w wanted) (t'.derive w wanted)) := by
  refine ⟨fun s _ _ hhost _ _ h state state' x => Evaluator.build_eq_ok_iff hhost h state state', ?_⟩
  intro K α S σ _ _ _ _ w b host source? hb hw hhost t t' h wanted
  have hs : b.MultipliesOut := hb.multipliesOut Scalar.eq_zero_self
  have hagree := derive_agree (S := S) hb hw h wanted
  refine ⟨Derivatives.rel_imp (fun hde state state' memory a a' ha ha' => ?_) hagree,
    fun state x hx => ⟨fun hlimits => ?_, fun hequipped htotal => ?_⟩⟩
  · rw [Expr.computes_iff hs hhost] at ha ha'
    exact hde _ a a' ha ha'
  · rw [Evaluator.build_eq_translate hhost] at hx
    refine Derivatives.rel_imp (fun hde state state' => ⟨?_, fun htotal memory a => ?_⟩)
      (Derivatives.rel_and hagree (derive_buildable_iff hw hlimits ⟨x, hx⟩ h wanted))
    · rw [Evaluator.build_eq_translate hhost, Evaluator.build_eq_translate hhost]
      exact hde.2
    · rw [Expr.computes_iff hs hhost, Expr.computes_iff hs hhost]
      exact hde.1.yields_iff htotal hde.2
  · rw [Evaluator.build_eq_translate hhost] at hx
    refine Derivatives.rel_imp (fun hde memory => ?_)
      (Derivatives.rel_and hagree (derive_buildable hw hequipped ⟨x, hx⟩ h wanted))
    obtain ⟨hagree, hd, hd'⟩ := hde
    obtain ⟨a, ha⟩ := Buildable.exists_yields (p := ⟨source?, memory⟩) htotal hd
    have ha' := (hagree.yields_iff htotal (iff_of_true hd hd')).mp ha
    refine ⟨a, fun state => ?_⟩
    rw [Expr.computes_iff hs hhost, Expr.computes_iff hs hhost]
    exact ⟨ha, ha'⟩

/-! ### A derivative that capitals lose -/

/-- The built-in vocabulary, but `max` has neither values nor a rule. -/
def Vocabulary.withoutMax {ρ : Type} [Scalar ρ] : Vocabulary ρ :=
  builtin.register ⟨"max", 2, none, none, none⟩

/-- The product of `1`, rounded, and `x`. -/
def Expr.roundedProduct {ρ : Type} [Scalar ρ] (name : String) : Expr ρ :=
  .binary .mul (.call name [.one]) (.var (.named "x"))

/-- Three products that differ at most in the case of a name; the first is kept between the
others. -/
def Expr.limitedProduct {ρ : Type} [Scalar ρ] (name : String) : Expr ρ :=
  .call "limit" [roundedProduct name, roundedProduct "floor", roundedProduct "floor"]

/-- The derivative of the first product where it is between the others, by the rule of
`limit`. -/
def Expr.limitedSlope {ρ : Type} [Scalar ρ] (name : String) : Expr ρ :=
  let inner := select (.binary .gt (roundedProduct name) (roundedProduct "floor"))
    (.call name [.one]) (.call "floor" [.one])
  select (.binary .lt (.call "max" [roundedProduct name, roundedProduct "floor"])
    (roundedProduct "floor")) inner (.call "floor" [.one])

/-- A choice between two such products by a function that there is not. -/
def Expr.undefinedChoice {ρ : Type} [Scalar ρ] (name : String) : Expr ρ :=
  .conditional (.call "undefined" []) (roundedProduct name) (roundedProduct "floor")

section Limited

variable {K : Type} [Field K] [LinearOrder K] [FloorRing K] [AnalyticFunctions K]

/-- All functions but the larger of two are found as built in; that one has neither values nor a
rule. -/
theorem Vocabulary.function?_withoutMax (name : String) :
    (withoutMax : Vocabulary K).function? name =
      if "max" = Text.lowercase name then some ⟨"max", 2, none, none, none⟩
      else builtin.function? name := by
  rw [withoutMax, function?_register, show Text.lowercase "max" = "max" by decide +kernel]

/-- The rules of the vocabulary without the larger of two are the built-in ones, where it has
any. -/
theorem Vocabulary.rulesBuiltin_withoutMax : (withoutMax : Vocabulary K).RulesBuiltin := by
  intro name arity f rule hf hrule
  rw [functionOf?_eq_some, function?_withoutMax] at hf
  obtain ⟨hf, -⟩ := hf
  split at hf
  · obtain rfl := Option.some.inj hf
    cases hrule
  · exact ⟨f, (builtin_function?_eq_some.mp hf).1, hrule⟩

variable {w : Vocabulary K} {name : String}

/-- The vocabulary has the functions of the limited products, as they are built in. -/
structure Vocabulary.Limits (w : Vocabulary K) : Prop where
  /-- The function that keeps its first argument between the others. -/
  limit : w.functionOf? "limit" 3 = some Vocabulary.limit
  /-- The function that rounds. -/
  floor : w.functionOf? "floor" 1 = some (piecewiseConstant "floor" Scalar.floor)

/-- The built-in vocabulary has the functions of the example. -/
theorem Vocabulary.limits_builtin : (builtin : Vocabulary K).Limits where
  limit := builtin_functionOf?_eq_some.mpr ⟨by simp [builtinFunctions, roundings],
    show "limit" = Text.lowercase "limit" by decide +kernel, rfl⟩
  floor := builtin_functionOf?_eq_some.mpr ⟨by simp [builtinFunctions, roundings],
    show "floor" = Text.lowercase "floor" by decide +kernel, rfl⟩

/-- The vocabulary without the larger of two has the functions of the example. -/
theorem Vocabulary.limits_withoutMax : (withoutMax : Vocabulary K).Limits := by
  have hkept {name : String} (hname : "max" ≠ Text.lowercase name) (arity : Nat) :
      (withoutMax : Vocabulary K).functionOf? name arity = builtin.functionOf? name arity := by
    rw [functionOf?, functionOf?, function?_withoutMax, if_neg hname]
  constructor
  · rw [hkept (by decide +kernel)]
    exact limits_builtin.limit
  · rw [hkept (by decide +kernel)]
    exact limits_builtin.floor

namespace Expr

/-- The example builds, however the name is written. -/
theorem buildable_limitedProduct (hw : w.Limits) (hname : Text.CaseVariant name "floor")
    (fudge : K) : Buildable ⟨w, .real fudge⟩ some (limitedProduct name) := by
  have hproduct {name : String} (h : Text.CaseVariant name "floor") :
      Buildable ⟨w, .real fudge⟩ some (roundedProduct name) := by
    have hfloor := (w.functionOf?_eq h 1).trans hw.floor
    refine buildable_binary.mpr ⟨buildable_call.mpr ⟨⟨_, hfloor, rfl⟩, ?_⟩, ?_⟩
    · exact List.forall_mem_singleton.mpr (buildable_constant 1)
    · exact (Yields.sourced (p := ⟨some, fun _ => 0⟩) rfl).buildable
  refine buildable_call.mpr ⟨⟨_, hw.limit, rfl⟩, ?_⟩
  rintro x (_ | ⟨_, _ | ⟨_, _ | ⟨_, ⟨⟩⟩⟩⟩)
  · exact hproduct hname
  · exact hproduct (.refl "floor")
  · exact hproduct (.refl "floor")

/-- The product in it has the name as derivative, called on one. -/
theorem derivatives_roundedProduct (hw : w.Limits) (hname : Text.CaseVariant name "floor") :
    (roundedProduct name : Expr K).derivatives w [.named "x"] =
      some (.single (.named "x") (.call name [.one])) := by
  have hfloor := (w.functionOf?_eq hname 1).trans hw.floor
  have hcall : (Expr.call name [.one] : Expr K).derivatives w [.named "x"] = some .empty :=
    (derivatives_call_of hfloor [.empty] rfl).trans rfl
  have hx : (Expr.var (.named "x") : Expr K).derivatives w [.named "x"] =
      some (.single (.named "x") .one) := by
    rw [derivatives, Derivative.step, if_pos (List.mem_singleton.mpr rfl)]
  have hone : (Expr.call name [.one] : Expr K) * .one = .call name [.one] := by
    have h1 : Scalar.eq (1 : K) 1 = true := Scalar.eq_iff.mpr rfl
    have h0 : ¬Scalar.eq (1 : K) 0 = true := fun h => one_ne_zero (Scalar.eq_iff.mp h)
    change Expr.mul (.call name [.one]) .one = _
    simp [Expr.mul, asConstant?, one, scale, h1, h0]
  have hproduct : (roundedProduct name : Expr K).derivatives w [.named "x"] =
      some (.single (.named "x") ((Expr.call name [.one] : Expr K) * .one)) := by
    rw [roundedProduct, derivatives, hcall, hx]
    rfl
  rw [hproduct, hone]

/-- The name in capitals is a variant. -/
theorem caseVariant_floor : Text.CaseVariant "FLOOR" "floor" := by decide

/-- However the name is written, the product is the same but for case. -/
theorem roundedProduct_caseAlike (hname : Text.CaseVariant name "floor") :
    CaseAlike (roundedProduct name : Expr K) (roundedProduct "floor") :=
  .binary (.call hname (.cons (.constant rfl) .nil)) .var

/-- However the name is written, the limited product is the same but for case. -/
theorem limitedProduct_caseAlike (hname : Text.CaseVariant name "floor") :
    CaseAlike (limitedProduct name : Expr K) (limitedProduct "floor") :=
  .call rfl (.cons (roundedProduct_caseAlike hname) (.cons (roundedProduct_caseAlike rfl)
    (.cons (roundedProduct_caseAlike rfl) .nil)))

/-- The limited product has one derivative, whatever `max` is. -/
theorem derive_limitedProduct (hw : w.Limits) (hname : Text.CaseVariant name "floor") :
    (limitedProduct name : Expr K).derive w [.named "x"] =
      some (.single (.named "x") (limitedSlope name)) := by
  have hfloor := derivatives_roundedProduct hw (.refl "floor")
  have hall : derivativesAll w [.named "x"] [roundedProduct name, roundedProduct "floor",
      roundedProduct "floor"] = some [.single (.named "x") (.call name [.one]),
        .single (.named "x") (.call "floor" [.one]),
        .single (.named "x") (.call "floor" [.one])] := by
    rw [derivativesAll_eq_mapM]
    simp [List.mapM_cons, derivatives_roundedProduct hw hname, hfloor]
  rw [derive_eq_derivatives, limitedProduct, derivatives_call_of hw.limit _ hall]
  rfl

/-- A choice has a choice as its derivative. -/
theorem derive_undefinedChoice (hw : w.Limits) (hname : Text.CaseVariant name "floor") :
    (undefinedChoice name : Expr K).derive w [.named "x"] =
      some (.single (.named "x")
        (select (.call "undefined" []) (.call name [.one]) (.call "floor" [.one]))) := by
  rw [derive_eq_derivatives, undefinedChoice, derivatives, derivatives_roundedProduct hw hname,
    derivatives_roundedProduct hw (.refl "floor")]
  rfl

/-- In small letters choices fold. -/
theorem select_floor (c : Expr K) :
    select c (.call "floor" [.one]) (.call "floor" [.one]) = .call "floor" [.one] :=
  if_pos (same_self _)

/-- In small letters the choice between equal branches is folded away in the derivative. -/
theorem limitedSlope_floor : (limitedSlope "floor" : Expr K) = .call "floor" [.one] := by
  rw [limitedSlope, select_floor, select_floor]

/-- A choice between the name in small letters and in capitals is not folded away. -/
theorem select_capitals {c : Expr K} (hc : c.asConstant? = none) :
    select c (.call "FLOOR" [.one]) (.call "floor" [.one]) =
      .conditional c (.call "FLOOR" [.one]) (.call "floor" [.one]) := by
  have hnames : same (.call "FLOOR" [.one] : Expr K) (.call "floor" [.one]) = false := by
    simp [same]
  rw [select, if_neg (by rw [hnames]; exact Bool.false_ne_true), hc]

/-- In capitals the derivative keeps the choice, with the condition that cannot be built. -/
theorem limitedSlope_capitals : ∃ inner, (limitedSlope "FLOOR" : Expr K) =
    .conditional (.binary .lt (.call "max" [roundedProduct "FLOOR", roundedProduct "floor"])
      (roundedProduct "floor")) inner (.call "floor" [.one]) := by
  rw [limitedSlope, select_capitals rfl]
  exact ⟨_, rfl⟩

end Expr
end Limited

/-- Under `limit`, capitals give another derivative with the same values. -/
theorem limitedProduct_in_any_case :
    let s : Setting ℝ Variable ℝ := ⟨.builtin, .real 0⟩
    let host : Resolver (List Variable) Variable := .recording some
    let t : Expr ℝ := .limitedProduct "FLOOR"
    let t' : Expr ℝ := .limitedProduct "floor"
    ∃ x d d', (build s host t []).1 = .ok x ∧ (build s host t' []).1 = .ok x ∧
      t.derive .builtin [.named "x"] = some (.single (.named "x") d) ∧
      t'.derive .builtin [.named "x"] = some (.single (.named "x") d') ∧ d ≠ d' ∧
      (∀ state state' memory a a', Computes s host state memory d a →
        Computes s host state' memory d' a' → a = a') ∧
      ∀ memory, ∃ a, ∀ state,
        Computes s host state memory d a ∧ Computes s host state memory d' a := by
  intro s host t t'
  have hlimits : (Vocabulary.builtin : Vocabulary ℝ).Limits := Vocabulary.limits_builtin
  have hhost : host.Steady some := Resolver.steady_recording some
  have hb : s.backend.RealOrComplex := .real 0
  have hcase : CaseAlike t t' := Expr.limitedProduct_caseAlike Expr.caseVariant_floor
  have hd := Expr.derive_limitedProduct hlimits Expr.caseVariant_floor
  have hd' := Expr.derive_limitedProduct hlimits (.refl "floor")
  obtain ⟨x, hx⟩ := Expr.buildable_limitedProduct hlimits Expr.caseVariant_floor (0 : ℝ)
  have hbuilt : (build s host t []).1 = .ok x := by rwa [Evaluator.build_eq_translate hhost]
  obtain ⟨hbuild, hderive⟩ := names_in_any_case
  obtain ⟨hagree, hboth⟩ := hderive hb Vocabulary.rulesBuiltin_builtin hhost hcase [.named "x"]
  have hboth := (hboth [] x hbuilt).2 hb.equipped (Setting.total_builtin 0)
  rw [hd, hd', Option.rel_some_some] at hagree hboth
  obtain ⟨⟨-, hagree⟩, -⟩ := List.forall₂_cons.mp hagree
  obtain ⟨⟨-, hboth⟩, -⟩ := List.forall₂_cons.mp hboth
  refine ⟨x, _, _, hbuilt, (hbuild s hhost hcase [] [] x).mp hbuilt, hd, hd', ?_, hagree,
    hboth⟩
  obtain ⟨inner, hslope⟩ := Expr.limitedSlope_capitals (K := ℝ)
  rw [hslope, Expr.limitedSlope_floor]
  rintro ⟨⟩

/-- The trees differ only in the case of names, and the derivative of the first one cannot be
built, while the one of the second is `1`. -/
def Expr.LosesDerivative (w : Vocabulary ℝ) (t t' : Expr ℝ) : Prop :=
  CaseAlike t t' ∧ ∃ d d', t.derive w [.named "x"] = some (.single (.named "x") d) ∧
    t'.derive w [.named "x"] = some (.single (.named "x") d') ∧
    (∀ state y, (build ⟨w, .real 0⟩ (.recording some) d state).1 ≠ .ok y) ∧
    ∀ state memory, Computes ⟨w, .real 0⟩ (.recording some) state memory d' 1

/-- A derivative that does not build on one side and is a call on the other is lost. -/
theorem Expr.LosesDerivative.of_condition {w : Vocabulary ℝ} (hw : w.Limits) {t t' : Expr ℝ}
    (h : CaseAlike t t') {c inner : Expr ℝ} (hc : ¬Buildable ⟨w, .real 0⟩ some c)
    (ht : t.derive w [.named "x"] =
      some (.single (.named "x") (.conditional c inner (.call "floor" [.one]))))
    (ht' : t'.derive w [.named "x"] = some (.single (.named "x") (.call "floor" [.one]))) :
    LosesDerivative w t t' := by
  have hhost : (Resolver.recording some).Steady some := Resolver.steady_recording some
  refine ⟨h, _, _, ht, ht', fun state y hy => hc ?_, fun state memory => ?_⟩
  · rw [Evaluator.build_eq_translate hhost] at hy
    exact (buildable_conditional.mp ⟨y, hy⟩).1
  · have hone : Scalar.floor (1 : ℝ) = 1 := (congrArg Int.cast Int.floor_one).trans Int.cast_one
    have hargs : List.Forall₂ (Yields ⟨w, .real 0⟩ ⟨some, memory⟩) [.one] [1] :=
      .cons (.ofReal 1) .nil
    rw [computes_iff (s := ⟨w, .real 0⟩) (Backend.RealOrComplex.real 0 |>.multipliesOut
      Scalar.eq_zero_self) hhost]
    exact .call (g := .plain (.unary Scalar.floor)) hw.floor rfl hargs (congrArg some hone)

/-- A derivative is lost to capitals where `limit` comes without `max`, also of a tree that can
be built, and, with the built-in functions, where a condition calls what there is not. -/
theorem capitals_lose_derivative :
    (Vocabulary.withoutMax : Vocabulary ℝ).RulesBuiltin ∧
      (∃ x, (build ⟨.withoutMax, .real (0 : ℝ)⟩ (.recording some) (.limitedProduct "FLOOR") []).1 =
        .ok x) ∧
      Expr.LosesDerivative .withoutMax (.limitedProduct "FLOOR") (.limitedProduct "floor") ∧
      Expr.LosesDerivative .builtin (.undefinedChoice "FLOOR") (.undefinedChoice "floor") := by
  have hhost : (Resolver.recording some).Steady some := Resolver.steady_recording some
  have hlimits : (Vocabulary.withoutMax : Vocabulary ℝ).Limits := Vocabulary.limits_withoutMax
  have hbuiltin : (Vocabulary.builtin : Vocabulary ℝ).Limits := Vocabulary.limits_builtin
  refine ⟨Vocabulary.rulesBuiltin_withoutMax, ?_, ?_, ?_⟩
  · rw [Evaluator.build_eq_translate hhost]
    exact Expr.buildable_limitedProduct hlimits Expr.caseVariant_floor 0
  · obtain ⟨inner, hslope⟩ := Expr.limitedSlope_capitals (K := ℝ)
    have hd := Expr.derive_limitedProduct hlimits Expr.caseVariant_floor
    have hd' := Expr.derive_limitedProduct hlimits (.refl "floor")
    rw [hslope] at hd
    rw [Expr.limitedSlope_floor] at hd'
    refine .of_condition hlimits (Expr.limitedProduct_caseAlike Expr.caseVariant_floor)
      (fun hc => ?_) hd hd'
    -- The condition calls `max`, which is found but has no values.
    obtain ⟨⟨f, hf, hvalues⟩, -⟩ := Expr.buildable_call.mp (Expr.buildable_binary.mp hc).1
    rw [Vocabulary.functionOf?_eq_some, Vocabulary.function?_withoutMax,
      if_pos (by decide +kernel)] at hf
    obtain rfl := Option.some.inj hf.1
    cases hvalues
  · have hd := Expr.derive_undefinedChoice hbuiltin Expr.caseVariant_floor
    have hd' := Expr.derive_undefinedChoice hbuiltin (.refl "floor")
    rw [Expr.select_capitals rfl] at hd
    rw [Expr.select_floor] at hd'
    have hcase := Expr.roundedProduct_caseAlike (K := ℝ) Expr.caseVariant_floor
    refine .of_condition hbuiltin (.conditional (.call rfl .nil) hcase
      (Expr.roundedProduct_caseAlike rfl)) (fun hc => ?_) hd hd'
    -- No built-in function takes no arguments.
    obtain ⟨⟨f, hf, -⟩, -⟩ := Expr.buildable_call.mp hc
    obtain ⟨hmem, -, harity⟩ := Vocabulary.builtin_functionOf?_eq_some.mp hf
    exact (Backend.arity_pos hmem).ne' harity

end CircuitExpr
