/-
# Derivatives that are twins

Two trees that differ only in the case of names may have derivatives of different shape: a
choice folds if its branches are the same, and branches that call a function by one name in
two cases are not.  Then one derivative is a choice and the other is one of its branches.

What the two have in common is an *agreement* (`Expr.Agreement`), something that trees have
in common with a choice if both branches have it in common with them.  There are two: that
wherever both trees yield a value it is the same (`Expr.Agree`), and, where conditions can be
built, that both can be built or none.

Operators that fold look at constants and keep no agreement by themselves.  But a choice
between constants folds on both sides or on none, so of two derivatives that differ neither
is a constant.  That is how derivatives are related: they are equal, or they agree and are no
constants under any signs (`Expr.Twin`).  Differentiation keeps derivatives twins
(`Twin.congruence`) if numbers are exact.
-/

import Mathlib
import CircuitExpr.Proofs.EitherBackend
import CircuitExpr.Proofs.MatchedBuiltin
import CircuitExpr.Proofs.NameCase

namespace CircuitExpr
namespace Expr

/-! ### Values of parts -/

section Parts

variable {ρ α S : Type} [Scalar ρ] {s : Setting ρ S α} {p : Point S α}

namespace Yields

/-- What a minus sign yields comes from a value of the operand. -/
theorem of_minus {x : Expr ρ} {r : α} (h : Yields s p (.unary .minus x) r) :
    ∃ a, Yields s p x a ∧ s.backend.neg a = r := by
  have hvalue := h.value
  rw [valueIn?_minus, Option.map_eq_some_iff] at hvalue
  obtain ⟨a, ha, hr⟩ := hvalue
  exact ⟨a, ⟨buildable_unary.mp h.buildable, ha⟩, hr⟩

/-- What an operator yields comes from values of both operands. -/
theorem of_binary {op : BinaryOp} (hand : op ≠ .and) (hor : op ≠ .or) (hpow : op ≠ .pow)
    {x y : Expr ρ} {r : α} (h : Yields s p (.binary op x y) r) :
    ∃ a b, Yields s p x a ∧ Yields s p y b ∧ Evaluator.combine s.backend op a b = r := by
  have hvalue := h.value
  rw [valueIn?_binary hand hor hpow, Option.bind_eq_some_iff] at hvalue
  obtain ⟨a, ha, hvalue⟩ := hvalue
  obtain ⟨b, hb, hr⟩ := Option.map_eq_some_iff.mp hvalue
  obtain ⟨hx, hy⟩ := buildable_binary.mp h.buildable
  exact ⟨a, b, ⟨hx, ha⟩, ⟨hy, hb⟩, hr⟩

/-- A choice has the value of the branch that its condition selects. -/
theorem of_conditional {c t f : Expr ρ} {r : α} (h : Yields s p (.conditional c t f) r) :
    ∃ a, Yields s p c a ∧ Yields s p (if s.backend.isTrue a then t else f) r := by
  have hvalue := h.value
  rw [valueIn?_conditional, Option.bind_eq_some_iff] at hvalue
  obtain ⟨a, ha, hvalue⟩ := hvalue
  obtain ⟨hc, ht, hf⟩ := buildable_conditional.mp h.buildable
  refine ⟨a, ⟨hc, ha⟩, ?_, ?_⟩
  · split
    · exact ht
    · exact hf
  · split
    · rwa [if_pos ‹_›] at hvalue
    · rwa [if_neg ‹_›] at hvalue

/-- What a call of one argument yields comes from a value of the argument. -/
theorem of_call_one {name : String} {x : Expr ρ} {r : α} (h : Yields s p (.call name [x]) r) :
    ∃ f g a, s.vocabulary.functionOf? name 1 = some f ∧ s.backend.implementation f = some g ∧
      Yields s p x a ∧ g.values p.memory s.backend.fudge [a] = some r := by
  obtain ⟨⟨f, hf, himplementation⟩, hargs⟩ := buildable_call.mp h.buildable
  obtain ⟨g, hg⟩ := Option.isSome_iff_exists.mp himplementation
  have hvalue := h.value
  rw [valueIn?_call hf hg] at hvalue
  obtain ⟨values, hvalues, hr⟩ := Option.bind_eq_some_iff.mp hvalue
  obtain ⟨a, values, ha, hnil, rfl⟩ :=
    List.forall₂_cons_left_iff.mp (Derivative.mapM_eq_some_iff.mp hvalues)
  obtain rfl := List.forall₂_nil_left_iff.mp hnil
  exact ⟨f, g, a, hf, hg, ⟨hargs x List.mem_cons_self, ha⟩, hr⟩

end Yields

end Parts

/-! ### Twins -/

section Twins

variable {ρ : Type}

/-- A constant under any number of changes of sign. -/
inductive SignedConstant : Expr ρ → Prop
  /-- A constant. -/
  | constant (c : ρ) : SignedConstant (.constant c)
  /-- A change of sign. -/
  | minus {x : Expr ρ} : SignedConstant x → SignedConstant (.unary .minus x)

/-- What is no constant, with a minus sign or without, is no constant. -/
theorem asConstant?_eq_none_of_not {x : Expr ρ} (h : ¬x.SignedConstant) :
    x.asConstant? = none := by
  cases x with
  | constant c => exact absurd (.constant c) h
  | _ => rfl

/-- A name in another case leaves a constant what it is. -/
theorem SignedConstant.eq {x y : Expr ρ} (hx : x.SignedConstant) (h : CaseAlike x y) : x = y := by
  induction hx generalizing y with
  | constant c =>
    obtain ⟨rfl⟩ := h
    rfl
  | minus _ ih =>
    obtain ⟨⟩ := h
    rw [ih ‹_›]

variable [Scalar ρ]

/-- A constant whose sign was changed is one. -/
theorem SignedConstant.of_neg {x : Expr ρ} (h : (-x).SignedConstant) : x.SignedConstant := by
  have hplain {x : Expr ρ} (h : SignedConstant (.unary .minus x)) : x.SignedConstant := by
    cases h
    assumption
  change (Expr.neg x).SignedConstant at h
  unfold Expr.neg at h
  split at h
  · exact .constant _
  · exact .minus h
  · exact hplain h

/-- Something that trees have in common which differ only in the case of names, and that
plain operators keep; on conditions with `G` it is enough for a choice that both branches
have it in common with a tree. -/
structure Agreement (G : Expr ρ → Prop) (A : Expr ρ → Expr ρ → Prop) : Prop where
  /-- The case of names shows in no condition. -/
  respects {c c' : Expr ρ} : CaseAlike c c' → G c → G c'
  /-- Nor does it show in a tree. -/
  matched {x y : Expr ρ} : CaseAlike x y → A x y
  /-- It is mutual. -/
  symm {d e : Expr ρ} : A d e → A e d
  /-- Another sign. -/
  neg {d e : Expr ρ} : d.asConstant? = none → e.asConstant? = none → A d e → A (-d) (-e)
  /-- An operator that evaluates both operands. -/
  binary {op : BinaryOp} {d d' e e' : Expr ρ} : op ≠ .and → op ≠ .or → op ≠ .pow →
    A d e → A d' e' → A (.binary op d d') (.binary op e e')
  /-- A call. -/
  call {name : String} {d e : Expr ρ} : A d e → A (.call name [d]) (.call name [e])
  /-- A choice. -/
  conditional {c c' d d' e e' : Expr ρ} : G c → CaseAlike c c' → A d e → A d' e' →
    A (.conditional c d d') (.conditional c' e e')
  /-- A tree and a choice. -/
  branches {c d e e' : Expr ρ} : G c → A d e → A d e' → A d (.conditional c e e')

/-- The derivatives are equal, or they agree and neither is a constant. -/
inductive Twin (A : Expr ρ → Expr ρ → Prop) : Expr ρ → Expr ρ → Prop
  /-- Equal derivatives. -/
  | same (d : Expr ρ) : Twin A d d
  /-- Derivatives that agree. -/
  | parted {d e : Expr ρ} : ¬d.SignedConstant → ¬e.SignedConstant → A d e → Twin A d e

namespace Twin

variable {G : Expr ρ → Prop} {A : Expr ρ → Expr ρ → Prop} {d d' e e' : Expr ρ}

omit [Scalar ρ] in
/-- Of twins, both are one constant or neither is a constant. -/
theorem constant_cases (h : Twin A d e) :
    (∃ c, d = .constant c ∧ e = .constant c) ∨ d.asConstant? = none ∧ e.asConstant? = none := by
  cases h with
  | same =>
    cases d with
    | constant c => exact .inl ⟨c, rfl, rfl⟩
    | _ => exact .inr ⟨rfl, rfl⟩
  | parted hd he _ => exact .inr ⟨asConstant?_eq_none_of_not hd, asConstant?_eq_none_of_not he⟩

variable (hA : Agreement G A)
include hA

/-- Twins agree. -/
theorem agree (h : Twin A d e) : A d e := by
  cases h with
  | same => exact hA.matched (.refl (fun _ => rfl) Text.CaseVariant.refl d)
  | parted _ _ h => exact h

/-- Twins are so in either direction. -/
theorem symm (h : Twin A d e) : Twin A e d := by
  cases h with
  | same => exact .same d
  | parted hd he h => exact .parted he hd (hA.symm h)

/-- Operators between twins make twins, except those that need not look at both. -/
theorem binary {op : BinaryOp} (hand : op ≠ .and) (hor : op ≠ .or) (hpow : op ≠ .pow)
    (h : Twin A d e) (h' : Twin A d' e') : Twin A (.binary op d d') (.binary op e e') :=
  .parted (by rintro ⟨⟩) (by rintro ⟨⟩) (hA.binary hand hor hpow (h.agree hA) (h'.agree hA))

/-- Calls of one argument keep twins. -/
theorem call {name : String} (h : Twin A d e) : Twin A (.call name [d]) (.call name [e]) :=
  .parted (by rintro ⟨⟩) (by rintro ⟨⟩) (hA.call (h.agree hA))

/-- Trees that differ only in the case of names are twins. -/
theorem of_caseAlike (h : CaseAlike d e) : Twin A d e := by
  by_cases hd : d.SignedConstant
  · obtain rfl := hd.eq h
    exact .same d
  by_cases he : e.SignedConstant
  · have hflip : CaseAlike e d := h.symm Eq.symm Text.CaseVariant.symm
    obtain rfl := he.eq hflip
    exact .same e
  · exact .parted hd he (hA.matched h)

/-! ### Differentiation keeps twins -/

/-- Changing the sign keeps twins. -/
theorem neg (h : Twin A d e) : Twin A (-d) (-e) := by
  cases h with
  | same => exact .same _
  | parted hd he h =>
    refine .parted (mt SignedConstant.of_neg hd) (mt SignedConstant.of_neg he) ?_
    exact hA.neg (asConstant?_eq_none_of_not hd) (asConstant?_eq_none_of_not he) h

/-- Sums keep twins. -/
theorem add (h : Twin A d e) (h' : Twin A d' e') : Twin A (d + d') (e + e') := by
  have hplain : Twin A (.binary .add d d') (.binary .add e e') :=
    binary hA (by decide) (by decide) (by decide) h h'
  change Twin A (Expr.add d d') (Expr.add e e')
  unfold Expr.add
  obtain ⟨c, rfl, rfl⟩ | ⟨hd, he⟩ := h.constant_cases <;>
    obtain ⟨c', rfl, rfl⟩ | ⟨hd', he'⟩ := h'.constant_cases
  · exact .same _
  · rw [hd', he']
    exact related_ite rfl h' hplain
  · rw [hd, he]
    exact related_ite rfl h hplain
  · rw [hd, he, hd', he']
    exact hplain

/-- Folding a product with a constant keeps twins. -/
theorem scale (c : ρ) (h : Twin A d e) (h' : Twin A d' e') :
    Twin A (Expr.scale c d d') (Expr.scale c e e') :=
  related_ite rfl (.same _) (related_ite rfl h (related_ite rfl (h.neg hA) h'))

/-- Products with trees that differ in case only keep twins. -/
theorem mul {x y : Expr ρ} (hxy : CaseAlike x y) (h : Twin A d e) : Twin A (x * d) (y * e) := by
  have htwin : Twin A x y := of_caseAlike hA hxy
  have hplain : Twin A (.binary .mul x d) (.binary .mul y e) :=
    binary hA (by decide) (by decide) (by decide) htwin h
  change Twin A (Expr.mul x d) (Expr.mul y e)
  unfold Expr.mul
  obtain ⟨c, rfl, rfl⟩ | ⟨hx, hy⟩ := htwin.constant_cases <;>
    obtain ⟨c', rfl, rfl⟩ | ⟨hd, he⟩ := h.constant_cases
  · exact .same _
  · rw [hd, he]
    exact scale hA c h hplain
  · rw [hx, hy]
    exact scale hA c' htwin hplain
  · rw [hx, hy, hd, he]
    exact hplain

/-- Quotients by trees that differ in case only keep twins. -/
theorem div {x y : Expr ρ} (h : Twin A d e) (hxy : CaseAlike x y) : Twin A (d / x) (e / y) := by
  have htwin : Twin A x y := of_caseAlike hA hxy
  have hplain : Twin A (.binary .div d x) (.binary .div e y) :=
    binary hA (by decide) (by decide) (by decide) h htwin
  change Twin A (Expr.div d x) (Expr.div e y)
  unfold Expr.div
  obtain ⟨c, rfl, rfl⟩ | ⟨hd, he⟩ := h.constant_cases <;>
    obtain ⟨c', rfl, rfl⟩ | ⟨hx, hy⟩ := htwin.constant_cases
  · exact .same _
  · rw [hx, hy]
    exact related_ite rfl (.same _) hplain
  · rw [hd, he]
    exact related_ite rfl h hplain
  · rw [hd, he, hx, hy]
    exact hplain

/-- A branch and the choice between it and another one, where the choice does not fold. -/
theorem branch {c : Expr ρ} (hc : G c) (h : Twin A d e) (h' : Twin A d e') (hne : e ≠ e') :
    Twin A d (.conditional c e e') := by
  refine .parted (fun hd => hne ?_) (by rintro ⟨⟩) (hA.branches hc (h.agree hA) (h'.agree hA))
  -- Were the branch a constant, both branches of the choice would be this constant.
  have heq {e : Expr ρ} (h : Twin A d e) : d = e := by
    cases h with
    | same => rfl
    | parted hnot _ _ => exact absurd hd hnot
  exact (heq h).symm.trans (heq h')

/-- **Choices between twins are twins,** also where one of them folds and the other does
not. -/
theorem select (hsame : ∀ x y : Expr ρ, Expr.same x y = true → x = y) {c c' : Expr ρ}
    (hgood : G c) (hc : CaseAlike c c') (h : Twin A d e) (h' : Twin A d' e') :
    Twin A (Expr.select c d d') (Expr.select c' e e') := by
  have hconstant (k : ρ) (x y : Expr ρ) :
      Expr.select (.constant k) x y = if Scalar.ne k 0 then x else y := by
    unfold Expr.select
    split
    · obtain rfl := hsame x y ‹_›
      exact (ite_self x).symm
    · rfl
  obtain ⟨k, k', hck, hck', rfl⟩ | ⟨hc₁, hc₂⟩ := hc.asConstant?_cases
  · rw [asConstant?_eq_some.mp hck, asConstant?_eq_some.mp hck', hconstant, hconstant]
    exact related_ite rfl h h'
  unfold Expr.select
  rw [hc₁, hc₂]
  by_cases hd : Expr.same d d' = true <;> by_cases he : Expr.same e e' = true
  · rw [if_pos hd, if_pos he]
    exact h
  · rw [if_pos hd, if_neg he]
    obtain rfl := hsame d d' hd
    exact branch hA (hA.respects hc hgood) h h' fun heq => he (heq ▸ Expr.same_self e)
  · rw [if_neg hd, if_pos he]
    obtain rfl := hsame e e' he
    have hbranch := branch hA hgood (h.symm hA) (h'.symm hA) fun heq =>
      hd (heq ▸ Expr.same_self d)
    exact hbranch.symm hA
  · rw [if_neg hd, if_neg he]
    exact .parted (by rintro ⟨⟩) (by rintro ⟨⟩)
      (hA.conditional hgood hc (h.agree hA) (h'.agree hA))

/-- **What differentiation does with twins gives twins.** -/
theorem congruence (hsame : ∀ x y : Expr ρ, Expr.same x y = true → x = y) :
    Derivatives.Congruence CaseAlike (Twin A) G where
  constant _ := .same _
  neg h := h.neg hA
  add h h' := h.add hA h'
  mul hxy h := mul hA hxy h
  div h hxy := div hA h hxy
  call h := h.call hA
  select hgood hc h h' := select hA hsame hgood hc h h'

end Twin
end Twins

/-! ### What twins agree on -/

section Agreements

variable {ρ α S : Type} [Scalar ρ] {s : Setting ρ S α}

/-- A tree with another sign can be built if the tree can. -/
theorem buildable_neg {source? : Variable → Option S} {x : Expr ρ} :
    Buildable s source? (-x) ↔ Buildable s source? x := by
  change Buildable s source? (Expr.neg x) ↔ _
  unfold Expr.neg
  split
  · exact iff_of_true (buildable_constant _) (buildable_constant _)
  · exact buildable_unary.symm
  · exact buildable_unary

/-- That both trees can be built or none, on conditions that can be built. -/
theorem agreement_buildable (s : Setting ρ S α) (source? : Variable → Option S) :
    Agreement (Buildable s source?)
      fun d e => Buildable s source? d ↔ Buildable s source? e where
  respects h := fun ⟨x, hx⟩ => ⟨x, (Evaluator.translate_eq_ok_iff h).mp hx⟩
  matched h := exists_congr fun _ => Evaluator.translate_eq_ok_iff h
  symm := Iff.symm
  neg _ _ h := buildable_neg.trans (h.trans buildable_neg.symm)
  binary _ _ _ h h' := buildable_binary.trans ((and_congr h h').trans buildable_binary.symm)
  call h := by
    rw [buildable_call, buildable_call, List.forall_mem_singleton, List.forall_mem_singleton, h]
    exact Iff.rfl
  conditional hc hcc' h h' := by
    have hc' := (exists_congr fun _ => Evaluator.translate_eq_ok_iff hcc').mp hc
    rw [buildable_conditional, buildable_conditional, h, h']
    exact and_congr_left fun _ => iff_of_true hc hc'
  branches hc h h' := by
    rw [buildable_conditional, ← h, ← h', and_self]
    exact (and_iff_right hc).symm

/-- Wherever both trees yield a value, it is the same. -/
def Agree (s : Setting ρ S α) (d e : Expr ρ) : Prop :=
  ∀ (p : Point S α) (a b : α), Yields s p d a → Yields s p e b → a = b

/-- A tree that is no constant has, before a change of sign, the value with the other sign. -/
theorem Yields.of_neg (hneg : Function.Involutive s.backend.neg) {x : Expr ρ}
    (hx : x.asConstant? = none) {p : Point S α} {r : α} (h : Yields s p (-x) r) :
    Yields s p x (s.backend.neg r) := by
  change Yields s p (Expr.neg x) r at h
  unfold Expr.neg at h
  split at h
  · cases hx
  · exact h.unary .minus
  · obtain ⟨a, ha, rfl⟩ := h.of_minus
    rwa [hneg a]

namespace Agree

variable {d d' e e' : Expr ρ}

/-- Operators that look at both operands keep agreement. -/
theorem binary {op : BinaryOp} (hand : op ≠ .and) (hor : op ≠ .or) (hpow : op ≠ .pow)
    (h : Agree s d e) (h' : Agree s d' e') : Agree s (.binary op d d') (.binary op e e') := by
  intro p r r' hr hr'
  obtain ⟨a, a', ha, ha', rfl⟩ := hr.of_binary hand hor hpow
  obtain ⟨b, b', hb, hb', rfl⟩ := hr'.of_binary hand hor hpow
  rw [h p a b ha hb, h' p a' b' ha' hb']

/-- Calls of one argument keep agreement. -/
theorem call {name : String} (h : Agree s d e) :
    Agree s (.call name [d]) (.call name [e]) := by
  intro p r r' hr hr'
  obtain ⟨f, g, a, hf, hg, ha, hr⟩ := hr.of_call_one
  obtain ⟨f', g', b, hf', hg', hb, hr'⟩ := hr'.of_call_one
  obtain rfl := Option.some.inj (hf.symm.trans hf')
  obtain rfl := Option.some.inj (hg.symm.trans hg')
  rw [h p a b ha hb] at hr
  exact Option.some.inj (hr.symm.trans hr')

/-- Choices on conditions that agree keep agreement. -/
theorem conditional {c c' : Expr ρ} (hc : Agree s c c') (h : Agree s d e)
    (h' : Agree s d' e') : Agree s (.conditional c d d') (.conditional c' e e') := by
  intro p r r' hr hr'
  obtain ⟨a, ha, hr⟩ := hr.of_conditional
  obtain ⟨b, hb, hr'⟩ := hr'.of_conditional
  obtain rfl := hc p a b ha hb
  split at hr
  · rw [if_pos ‹_›] at hr'
    exact h p r r' hr hr'
  · rw [if_neg ‹_›] at hr'
    exact h' p r r' hr hr'

/-- A tree agrees with a choice if it agrees with both branches. -/
theorem branches {c : Expr ρ} (h : Agree s d e) (h' : Agree s d e') :
    Agree s d (.conditional c e e') := by
  intro p r r' hr hr'
  obtain ⟨a, -, hr'⟩ := hr'.of_conditional
  split at hr'
  · exact h p r r' hr hr'
  · exact h' p r r' hr hr'

/-- Trees agree that differ only in the case of names. -/
theorem of_caseAlike (hs : s.backend.MultipliesOut) (h : CaseAlike d e) : Agree s d e := by
  intro p a b ha hb
  obtain ⟨x, hx⟩ := ha.buildable
  have hd := Evaluator.translate_run hs p.source? d hx p.memory
  have he := Evaluator.translate_run hs p.source? e
    ((Evaluator.translate_eq_ok_iff h).mp hx) p.memory
  have hvalues : d.valueIn? s p = e.valueIn? s p :=
    congrArg Evaluation.value? (hd.symm.trans he)
  exact Option.some.inj (ha.value.symm.trans (hvalues.trans hb.value))

/-- Trees that agree yield the same, if both can be built or none and functions have values for
all arguments. -/
theorem yields_iff (hs : s.Total) {p : Point S α} (h : Agree s d e)
    (hboth : Buildable s p.source? d ↔ Buildable s p.source? e) {a : α} :
    Yields s p d a ↔ Yields s p e a := by
  constructor
  · intro ha
    obtain ⟨b, hb⟩ := (hboth.mp ha.buildable).exists_yields hs
    rwa [h p a b ha hb]
  · intro ha
    obtain ⟨b, hb⟩ := (hboth.mpr ha.buildable).exists_yields hs
    rwa [← h p b a hb ha]

end Agree

/-- That wherever both trees yield a value it is the same, on any conditions. -/
theorem agreement_values (hneg : Function.Involutive s.backend.neg)
    (hs : s.backend.MultipliesOut) : Agreement (fun _ => True) (Agree s) where
  respects _ _ := trivial
  matched h := .of_caseAlike hs h
  symm h p _ _ ha hb := (h p _ _ hb ha).symm
  neg hd he h p _ _ ha hb :=
    hneg.injective (h p _ _ (ha.of_neg hneg hd) (hb.of_neg hneg he))
  binary hand hor hpow h h' := h.binary hand hor hpow h'
  call h := h.call
  conditional _ hc h h' := .conditional (.of_caseAlike hs hc) h h'
  branches _ h h' := h.branches h'

end Agreements
end Expr
end CircuitExpr
