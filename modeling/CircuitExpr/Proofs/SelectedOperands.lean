/-
# Selections are differentiated by what they select

Four forms of an expression return the value of one of their operands: the choice
`c ? a : b`, and the functions `min`, `max` and `limit`.  Which operand it is depends on
values (`Expr.Selects`):

| selection | the operand |
| --- | --- |
| `c ? a : b` | `a` if `c` is true, else `b` |
| `min(a, b)` | `a` if `a < b`, else `b` |
| `max(a, b)` | `a` if `a > b`, else `b` |
| `limit(x, lo, hi)` | with `z` the one of `x` and `lo` that is `max(x, lo)`: `z` if `z < hi`, else `hi` |

The derivatives of a selection are worth what those of this operand are worth, by every
variable (`selections_follow_selected`).  There is one argument for all four: `min(a, b)`
and `max(a, b)` have the value and the derivatives of a choice on the comparison, and
`limit(x, lo, hi)` has those of `min(max(x, lo), hi)`.
-/

import Mathlib
import CircuitExpr.Proofs.DerivativeKeys
import CircuitExpr.Proofs.EitherBackend

namespace CircuitExpr

open Vocabulary (orZero)

/-! ### The functions that select -/

section Functions

variable {ρ S α : Type} [Scalar ρ]

/-- The functions that select one of two arguments by a comparison. -/
inductive Vocabulary.Extremum : NamedFunction ρ → BinaryOp → Prop
  /-- The smaller argument. -/
  | min : Extremum min .lt
  /-- The larger argument. -/
  | max : Extremum max .gt

/-- The smaller and the larger of two arguments are found in either case of the name. -/
theorem Vocabulary.Extremum.functionOf? {f : NamedFunction ρ} {op : BinaryOp}
    (hf : Extremum f op) {name : String} (hname : Text.lowercase name = f.name) :
    builtin.functionOf? name 2 = some f := by
  refine builtin_functionOf?_eq_some.mpr ⟨?_, hname.symm, ?_⟩
  · cases hf <;> simp [builtinFunctions]
  · cases hf <;> rfl

/-- The limited value is found in either case of the name. -/
theorem Vocabulary.functionOf?_limit {name : String} (hname : Text.lowercase name = "limit") :
    (builtin : Vocabulary ρ).functionOf? name 3 = some limit :=
  builtin_functionOf?_eq_some.mpr ⟨by simp [builtinFunctions], hname.symm, rfl⟩

namespace Backend.RealOrComplex

variable {b : Backend ρ S α}

/-- Both backends select by their comparison. -/
theorem implementation_extremum (hb : b.RealOrComplex) {f : NamedFunction ρ} {op : BinaryOp}
    (hf : Vocabulary.Extremum f op) : ∃ g, b.implementation f = some (.plain g) ∧
      ∀ x y, g b.fudge [x, y] = some (if b.compare op x y then x else y) := by
  cases hb with
  | real fudge => cases hf <;> exact ⟨_, rfl, fun _ _ => rfl⟩
  | complex fudge laplace =>
    have hname : ¬IsTimeOperator f.name := by
      refine not_isTimeOperator ?_ ?_
      · cases hf <;> simp [Vocabulary.builtinFunctions]
      · cases hf <;> simp [Vocabulary.min, Vocabulary.max]
    cases hf <;> exact ⟨_, complex_implementation hname fudge laplace, fun _ _ => rfl⟩

/-- Both backends take the larger one of the first two arguments, and the smaller one of that
and the third. -/
theorem implementation_limit (hb : b.RealOrComplex) :
    ∃ g, b.implementation Vocabulary.limit = some (.plain g) ∧
      ∀ x lo hi, g b.fudge [x, lo, hi] =
        some (if b.compare .lt (if b.compare .gt x lo then x else lo) hi
          then if b.compare .gt x lo then x else lo else hi) := by
  cases hb with
  | real fudge => exact ⟨_, rfl, fun _ _ _ => rfl⟩
  | complex fudge laplace =>
    have hname : ¬IsTimeOperator (Vocabulary.limit : NamedFunction ρ).name :=
      not_isTimeOperator (by simp [Vocabulary.builtinFunctions]) (by simp [Vocabulary.limit])
    exact ⟨_, complex_implementation hname fudge laplace, fun _ _ _ => rfl⟩

end Backend.RealOrComplex
end Functions

namespace Expr

/-- The names are written in small letters already. -/
theorem lowercase_extrema : Text.lowercase "min" = "min" ∧ Text.lowercase "max" = "max" := by
  decide +kernel

/-! ### Values -/

section Values

variable {ρ α S : Type} [Scalar ρ] {b : Backend ρ S α} {p : Point S α} {x y lo hi : Expr ρ}
  {name : String}

/-- The comparison says which of two arguments is returned. -/
theorem yields_extremum (hb : b.RealOrComplex) {f : NamedFunction ρ} {op : BinaryOp}
    (hf : Vocabulary.Extremum f op) (hname : Text.lowercase name = f.name) {a c : α}
    (hx : Yields ⟨.builtin, b⟩ p x a) (hy : Yields ⟨.builtin, b⟩ p y c) :
    Yields ⟨.builtin, b⟩ p (.call name [x, y]) (if b.compare op a c then a else c) := by
  obtain ⟨g, himplementation, hvalue⟩ := hb.implementation_extremum hf
  have hargs : List.Forall₂ (Yields ⟨.builtin, b⟩ p) [x, y] [a, c] := .cons hx (.cons hy .nil)
  refine .call (f := f) (g := .plain g) ?_ ?_ hargs ?_
  · exact hf.functionOf? hname
  · exact himplementation
  · exact hvalue a c

/-- Two comparisons say which of three is. -/
theorem yields_limit (hb : b.RealOrComplex) (hname : Text.lowercase name = "limit") {a l h : α}
    (hx : Yields ⟨.builtin, b⟩ p x a) (hlo : Yields ⟨.builtin, b⟩ p lo l)
    (hhi : Yields ⟨.builtin, b⟩ p hi h) :
    Yields ⟨.builtin, b⟩ p (.call name [x, lo, hi])
      (if b.compare .lt (if b.compare .gt a l then a else l) h
        then if b.compare .gt a l then a else l else h) := by
  obtain ⟨g, himplementation, hvalue⟩ := hb.implementation_limit
  have hargs : List.Forall₂ (Yields ⟨.builtin, b⟩ p) [x, lo, hi] [a, l, h] :=
    .cons hx (.cons hlo (.cons hhi .nil))
  refine .call (f := Vocabulary.limit) (g := .plain g) ?_ ?_ hargs ?_
  · exact Vocabulary.functionOf?_limit hname
  · exact himplementation
  · exact hvalue a l h

/-- The arguments of a call that can be built yield values. -/
theorem exists_yields_of_call (hb : b.RealOrComplex) {args : List (Expr ρ)}
    (h : Buildable ⟨.builtin, b⟩ p.source? (.call name args)) :
    ∀ x ∈ args, ∃ a, Yields ⟨.builtin, b⟩ p x a :=
  fun x hx => ((buildable_call.mp h).2 x hx).exists_yields hb.total

/-- **Limiting is taking the larger and then the smaller one,** in value. -/
theorem yields_limit_iff (hb : b.RealOrComplex) (hname : Text.lowercase name = "limit") {r : α} :
    Yields ⟨.builtin, b⟩ p (.call name [x, lo, hi]) r ↔
      Yields ⟨.builtin, b⟩ p (.call "min" [.call "max" [x, lo], hi]) r := by
  obtain ⟨hmin, hmax⟩ := lowercase_extrema
  have hboth {a l h : α} (hx : Yields ⟨.builtin, b⟩ p x a) (hlo : Yields ⟨.builtin, b⟩ p lo l)
      (hhi : Yields ⟨.builtin, b⟩ p hi h) :
      ∃ r, Yields ⟨.builtin, b⟩ p (.call name [x, lo, hi]) r ∧
        Yields ⟨.builtin, b⟩ p (.call "min" [.call "max" [x, lo], hi]) r :=
    ⟨_, yields_limit hb hname hx hlo hhi,
      yields_extremum hb .min hmin (yields_extremum hb .max hmax hx hlo) hhi⟩
  constructor
  · intro hr
    have hargs := exists_yields_of_call hb hr.buildable
    obtain ⟨⟨a, hx⟩, ⟨l, hlo⟩, ⟨h, hhi⟩⟩ :=
      And.intro (hargs x (by simp)) (And.intro (hargs lo (by simp)) (hargs hi (by simp)))
    obtain ⟨r', hr', hnested⟩ := hboth hx hlo hhi
    rwa [hr.unique hr']
  · intro hr
    have hargs := exists_yields_of_call hb hr.buildable
    obtain ⟨z, hz⟩ := hargs (.call "max" [x, lo]) (by simp)
    have hinner := exists_yields_of_call hb hz.buildable
    obtain ⟨⟨a, hx⟩, ⟨l, hlo⟩, ⟨h, hhi⟩⟩ :=
      And.intro (hinner x (by simp)) (And.intro (hinner lo (by simp)) (hargs hi (by simp)))
    obtain ⟨r', hlimited, hr'⟩ := hboth hx hlo hhi
    rwa [hr.unique hr']

end Values

/-! ### Derivatives -/

section Derivatives

variable {ρ : Type} [Scalar ρ] {wanted : List Variable} {name : String}

/-- The derivative of a choice by any variable, there or not. -/
theorem orZero_get?_ofConditional (c : Expr ρ) (dt df : Derivatives ρ) (v : Variable) :
    orZero ((Derivative.ofConditional c dt df).get? v) =
      select c (orZero (dt.get? v)) (orZero (df.get? v)) := by
  rw [Derivative.ofConditional, OrderedMap.get?_ofKeys]
  split
  · rfl
  · rename_i hv
    have hnone {m : Derivatives ρ} (hm : m ∈ [dt, df]) : m.get? v = none :=
      Derivatives.get?_eq_none_of_not_mem_vars hv hm
    rw [hnone (by simp), hnone (by simp), select, if_pos (same_self _)]

/-- The smaller and the larger argument are differentiated as a choice on the comparison. -/
theorem derivatives_extremum {f : NamedFunction ρ} {op : BinaryOp}
    (hf : Vocabulary.Extremum f op) (hname : Text.lowercase name = f.name) (x y : Expr ρ) :
    (Expr.call name [x, y]).derivatives .builtin wanted =
      (Expr.conditional (.binary op x y) x y).derivatives .builtin wanted := by
  refine derivatives_eq_of_step rfl fun ds hds => ?_
  obtain ⟨dx, dy, rfl⟩ := List.length_eq_two.mp hds
  rw [Derivative.step, Derivative.step, List.length_cons, List.length_singleton,
    hf.functionOf? hname]
  cases hf <;> rfl

/-- A step of a choice. -/
theorem step_conditional (w : Vocabulary ρ) (c t f : Expr ρ) (dt df : Derivatives ρ) :
    Derivative.step w wanted (.conditional c t f) [dt, df] =
      some (Derivative.ofConditional c dt df) :=
  rfl

/-- The variables of a choice in the place of its branches. -/
theorem vars_ofConditional_cons (c : Expr ρ) (dt df : Derivatives ρ) (ms : List (Derivatives ρ)) :
    Derivatives.vars (Derivative.ofConditional c dt df :: ms) =
      Derivatives.vars (dt :: df :: ms) := by
  simp only [Derivatives.vars, List.flatMap_cons, Derivatives.keys_ofConditional]
  rw [OrderedMap.distinct_distinct_append]
  simp only [List.flatMap_nil, List.append_nil, List.append_assoc]

/-- A step of `limit` makes a choice between a choice and the third argument. -/
theorem step_limit (hname : Text.lowercase name = "limit") (x lo hi : Expr ρ)
    (dx dlo dhi : Derivatives ρ) :
    Derivative.step .builtin wanted (.call name [x, lo, hi]) [dx, dlo, dhi] =
      some (Derivative.ofConditional (.binary .lt (.call "max" [x, lo]) hi)
        (Derivative.ofConditional (.binary .gt x lo) dx dlo) dhi) := by
  have hvalues : (fun v => Vocabulary.limitDerivative [x, lo, hi]
      ([dx, dlo, dhi].map fun d => d.get? v)) =
      fun v => some (select (.binary .lt (.call "max" [x, lo]) hi)
        (orZero ((Derivative.ofConditional (.binary .gt x lo) dx dlo).get? v))
        (orZero (dhi.get? v))) := by
    funext v
    rw [orZero_get?_ofConditional]
    rfl
  rw [Derivative.step, List.length_cons, List.length_cons, List.length_singleton,
    Vocabulary.functionOf?_limit hname]
  change some (Derivative.ofDirect Vocabulary.limitDerivative _ _) = _
  rw [Derivative.ofDirect, hvalues, ← vars_ofConditional_cons (.binary .gt x lo)]
  rfl

/-- **Limiting is taking the larger and then the smaller one,** in derivatives. -/
theorem derivatives_limit (hname : Text.lowercase name = "limit") (x lo hi : Expr ρ) :
    (Expr.call name [x, lo, hi]).derivatives .builtin wanted =
      (Expr.call "min" [.call "max" [x, lo], hi]).derivatives .builtin wanted := by
  obtain ⟨hmin, hmax⟩ := lowercase_extrema
  rw [derivatives_extremum .min hmin, derivatives_eq, derivatives_eq (.conditional _ _ _)]
  simp only [operands, List.mapM_cons, List.mapM_nil, derivatives_extremum .max hmax]
  rw [derivatives_eq (.conditional _ _ _)]
  simp only [operands, List.mapM_cons, List.mapM_nil]
  cases hx : x.derivatives .builtin wanted <;> cases hlo : lo.derivatives .builtin wanted <;>
    cases hhi : hi.derivatives .builtin wanted <;> simp [step_conditional, step_limit hname]

end Derivatives

/-! ### What a selection returns -/

section Selection

variable {ρ S α : Type} [Scalar ρ]

/-- A choice, or a call of a function that selects. -/
inductive IsSelection : Expr ρ → Prop
  /-- One of two branches. -/
  | choice (c t f : Expr ρ) : IsSelection (.conditional c t f)
  /-- The smaller or the larger one of two arguments. -/
  | extremum {f : NamedFunction ρ} {op : BinaryOp} {name : String} (x y : Expr ρ) :
    Vocabulary.Extremum f op → Text.lowercase name = f.name → IsSelection (.call name [x, y])
  /-- An argument kept between two others. -/
  | limit {name : String} (x lo hi : Expr ρ) : Text.lowercase name = "limit" →
    IsSelection (.call name [x, lo, hi])

/-- The selection returns the value of its operand, where `worth` says what trees are worth. -/
inductive Selects (b : Backend ρ S α) (worth : Expr ρ → α → Prop) : Expr ρ → Expr ρ → Prop
  /-- The first branch if the condition is true, else the second. -/
  | choice {c t f : Expr ρ} {a : α} :
    worth c a → Selects b worth (.conditional c t f) (if b.isTrue a then t else f)
  /-- The first argument if it is less, or greater, else the second. -/
  | extremum {g : NamedFunction ρ} {op : BinaryOp} {name : String} {x y : Expr ρ} {a c : α} :
    Vocabulary.Extremum g op → Text.lowercase name = g.name → worth x a → worth y c →
      Selects b worth (.call name [x, y]) (if b.compare op a c then x else y)
  /-- The larger one of the first two arguments if it is less than the third, else that. -/
  | limit {name : String} {x lo hi : Expr ρ} {a l h : α} : Text.lowercase name = "limit" →
    worth x a → worth lo l → worth hi h → Selects b worth (.call name [x, lo, hi])
      (if b.compare .lt (if b.compare .gt a l then a else l) h
        then if b.compare .gt a l then x else lo else hi)

/-- What is selected is an operand. -/
theorem Selects.mem_operands {b : Backend ρ S α} {worth : Expr ρ → α → Prop} {e x : Expr ρ}
    (h : e.Selects b worth x) : x ∈ e.operands := by
  cases h with
  | choice => split <;> simp [operands]
  | extremum => split <;> simp [operands]
  | limit => split_ifs <;> simp [operands]

/-- The trees are worth the same, and by each variable so are their derivatives. -/
structure Follows (worth : Expr ρ → α → Prop) (wanted : List Variable) (e x : Expr ρ) : Prop where
  /-- They have the same value. -/
  value : ∃ r, worth e r ∧ worth x r
  /-- They have derivatives of the same value, by every variable; zero where one is absent. -/
  slopes : ∃ m n, e.derive .builtin wanted = some m ∧ x.derive .builtin wanted = some n ∧
    ∀ v, ∃ d, worth (orZero (m.get? v)) d ∧ worth (orZero (n.get? v)) d

/-- What follows a selected operand follows what this one selects. -/
theorem Follows.trans {worth : Expr ρ → α → Prop} {wanted : List Variable} {e x y : Expr ρ}
    (h : Follows worth wanted e x) (h' : Follows worth wanted x y)
    (hunique : ∀ z a a', worth z a → worth z a' → a = a') : Follows worth wanted e y where
  value := by
    obtain ⟨r, he, hx⟩ := h.value
    obtain ⟨r', hx', hy⟩ := h'.value
    obtain rfl := hunique _ _ _ hx hx'
    exact ⟨r, he, hy⟩
  slopes := by
    obtain ⟨m, n, hm, hn, hslopes⟩ := h.slopes
    obtain ⟨n', k, hn', hk, hslopes'⟩ := h'.slopes
    obtain rfl := Option.some.inj (hn.symm.trans hn')
    refine ⟨m, k, hm, hk, fun v => ?_⟩
    obtain ⟨d, hd, hdn⟩ := hslopes v
    obtain ⟨d', hdn', hdk⟩ := hslopes' v
    obtain rfl := hunique _ _ _ hdn hdn'
    exact ⟨d, hd, hdk⟩

end Selection

/-! ### Selections over exact numbers -/

section Exact

variable {K α S : Type} [Field K] [LinearOrder K] [FloorRing K] [AnalyticFunctions K]
  {b : Backend K S α} {p : Point S α} {wanted : List Variable}

/-- An answer is true as it says. -/
theorem isTrue_ofBool (hb : b.RealOrComplex) (answer : Bool) :
    b.isTrue (b.ofBool answer) = answer := by
  rw [Backend.ofBool, hb.isTrue_ofReal, Bool.eq_iff_iff, Scalar.ne_iff]
  cases answer <;> simp

/-- **A folded choice yields what the selected branch yields.** -/
theorem Yields.select (hb : b.RealOrComplex) {c t f : Expr K} {a r : α}
    (hc : Yields ⟨.builtin, b⟩ p c a) (ht : Buildable ⟨.builtin, b⟩ p.source? t)
    (hf : Buildable ⟨.builtin, b⟩ p.source? f)
    (hr : Yields ⟨.builtin, b⟩ p (if b.isTrue a then t else f) r) :
    Yields ⟨.builtin, b⟩ p (Expr.select c t f) r := by
  unfold Expr.select
  split
  · rename_i hsame
    obtain rfl : t = f := eq_of_same (fun _ _ => Scalar.eq_of_same) hsame
    rwa [ite_self] at hr
  split
  · rename_i c' hconstant
    obtain rfl := asConstant?_eq_some.mp hconstant
    have hvalue : a = b.ofReal c' := hc.unique (.ofReal c')
    rw [hvalue, hb.isTrue_ofReal] at hr
    exact hr
  · exact hc.choice ht hf hr.value

/-- Two trees with the same derivatives follow each other if they yield the same. -/
theorem Follows.of_derive_eq (hb : b.RealOrComplex) {e x : Expr K} {r : α} {m : Derivatives K}
    (he : Yields ⟨.builtin, b⟩ p e r) (hx : Yields ⟨.builtin, b⟩ p x r)
    (hm : e.derive .builtin wanted = some m)
    (hderive : e.derive .builtin wanted = x.derive .builtin wanted) :
    Follows (Yields ⟨.builtin, b⟩ p) wanted e x where
  value := ⟨r, he, hx⟩
  slopes := by
    refine ⟨m, m, hm, hderive ▸ hm, fun v => ?_⟩
    obtain ⟨d, hd⟩ := (buildable_derive hb.offers he.buildable hm v).exists_yields hb.total
    exact ⟨d, hd, hd⟩

/-- **A choice follows the selected branch.** -/
theorem choice_follows (hb : b.RealOrComplex) {c t f : Expr K} {a : α}
    (hc : Yields ⟨.builtin, b⟩ p c a) (ht : Buildable ⟨.builtin, b⟩ p.source? t)
    (hf : Buildable ⟨.builtin, b⟩ p.source? f) {dt df : Derivatives K}
    (hdt : t.derive .builtin wanted = some dt) (hdf : f.derive .builtin wanted = some df) :
    Follows (Yields ⟨.builtin, b⟩ p) wanted (.conditional c t f)
      (if b.isTrue a then t else f) where
  value := by
    have hselected : Buildable ⟨.builtin, b⟩ p.source? (if b.isTrue a then t else f) := by
      split
      · exact ht
      · exact hf
    obtain ⟨r, hr⟩ := hselected.exists_yields hb.total
    exact ⟨r, hc.choice ht hf hr.value, hr⟩
  slopes := by
    have hderive : (Expr.conditional c t f).derive .builtin wanted =
        some (Derivative.ofConditional c dt df) := by
      rw [derive_eq_derivatives] at hdt hdf ⊢
      simp [derivatives, hdt, hdf, step_conditional]
    have hbdt := buildable_derive hb.offers ht hdt
    have hbdf := buildable_derive hb.offers hf hdf
    refine ⟨_, if b.isTrue a then dt else df, hderive, by split <;> assumption, fun v => ?_⟩
    -- a variable that only one branch has gets a zero from the other
    have hbuildable : Buildable ⟨.builtin, b⟩ p.source?
        (if b.isTrue a then orZero (dt.get? v) else orZero (df.get? v)) := by
      split
      · exact hbdt v
      · exact hbdf v
    obtain ⟨d, hd⟩ := hbuildable.exists_yields hb.total
    refine ⟨d, ?_, ?_⟩
    · rw [orZero_get?_ofConditional]
      exact .select hb hc (hbdt v) (hbdf v) hd
    · by_cases htrue : b.isTrue a = true
      · rwa [if_pos htrue] at hd ⊢
      · rwa [if_neg htrue] at hd ⊢

/-- **The smaller and the larger argument follow the one that is selected.** -/
theorem extremum_follows (hb : b.RealOrComplex) {g : NamedFunction K} {op : BinaryOp}
    (hg : Vocabulary.Extremum g op) {name : String} (hname : Text.lowercase name = g.name)
    {x y : Expr K} {a c : α} (hx : Yields ⟨.builtin, b⟩ p x a) (hy : Yields ⟨.builtin, b⟩ p y c)
    {dx dy : Derivatives K} (hdx : x.derive .builtin wanted = some dx)
    (hdy : y.derive .builtin wanted = some dy) :
    Follows (Yields ⟨.builtin, b⟩ p) wanted (.call name [x, y])
      (if b.compare op a c then x else y) := by
  have hcondition : Yields ⟨.builtin, b⟩ p (.binary op x y) (b.ofBool (b.compare op a c)) := by
    cases hg <;> exact hx.combine _ (by decide) (by decide) (by decide) hy
  have hchoice := choice_follows hb hcondition hx.buildable hy.buildable hdx hdy
  rw [isTrue_ofBool hb] at hchoice
  obtain ⟨m, -, hm, -, -⟩ := hchoice.slopes
  have hderive : (Expr.call name [x, y]).derive .builtin wanted =
      (Expr.conditional (.binary op x y) x y).derive .builtin wanted := by
    rw [derive_eq_derivatives, derive_eq_derivatives, derivatives_extremum hg hname]
  have hvalue : Yields ⟨.builtin, b⟩ p (.conditional (.binary op x y) x y)
      (if b.compare op a c then a else c) := by
    refine hcondition.choice hx.buildable hy.buildable ?_
    rw [isTrue_ofBool hb]
    split
    · exact hx.value
    · exact hy.value
  exact (Follows.of_derive_eq hb (yields_extremum hb hg hname hx hy) hvalue
    (hderive.trans hm) hderive).trans hchoice fun _ _ _ => Yields.unique

/-- **An argument kept between two others follows the one that is selected.** -/
theorem limit_follows (hb : b.RealOrComplex) {name : String}
    (hname : Text.lowercase name = "limit") {x lo hi : Expr K} {a l h : α}
    (hx : Yields ⟨.builtin, b⟩ p x a) (hlo : Yields ⟨.builtin, b⟩ p lo l)
    (hhi : Yields ⟨.builtin, b⟩ p hi h) {dx dlo dhi : Derivatives K}
    (hdx : x.derive .builtin wanted = some dx) (hdlo : lo.derive .builtin wanted = some dlo)
    (hdhi : hi.derive .builtin wanted = some dhi) :
    Follows (Yields ⟨.builtin, b⟩ p) wanted (.call name [x, lo, hi])
      (if b.compare .lt (if b.compare .gt a l then a else l) h
        then if b.compare .gt a l then x else lo else hi) := by
  obtain ⟨hmin, hmax⟩ := lowercase_extrema
  have hinner := extremum_follows hb .max hmax hx hlo hdx hdlo
  have hmaximum := yields_extremum hb .max hmax hx hlo
  obtain ⟨m, -, hm, -, -⟩ := hinner.slopes
  have houter := extremum_follows hb .min hmin hmaximum hhi hm hdhi
  obtain ⟨n, -, hn, -, -⟩ := houter.slopes
  have hderive : (Expr.call name [x, lo, hi]).derive .builtin wanted =
      (Expr.call "min" [.call "max" [x, lo], hi]).derive .builtin wanted := by
    rw [derive_eq_derivatives, derive_eq_derivatives, derivatives_limit hname]
  obtain ⟨r, hr, -⟩ := houter.value
  have hnested := Follows.of_derive_eq hb ((yields_limit_iff hb hname).mpr hr) hr
    (hderive.trans hn) hderive
  have hselected := hnested.trans houter fun _ _ _ => Yields.unique
  by_cases hlt : b.compare .lt (if b.compare .gt a l then a else l) h = true
  · rw [if_pos hlt] at hselected ⊢
    exact hselected.trans hinner fun _ _ _ => Yields.unique
  · rwa [if_neg hlt] at hselected ⊢

/-- A selection that can be built selects an operand. -/
theorem IsSelection.exists_selects (hb : b.RealOrComplex) {e : Expr K} (he : e.IsSelection)
    (hbuild : Buildable ⟨.builtin, b⟩ p.source? e) :
    ∃ x, e.Selects b (Yields ⟨.builtin, b⟩ p) x := by
  cases he with
  | choice c t f =>
    obtain ⟨a, hc⟩ := (buildable_conditional.mp hbuild).1.exists_yields hb.total
    exact ⟨_, .choice hc⟩
  | extremum x y hg hname =>
    obtain ⟨a, hx⟩ := exists_yields_of_call hb hbuild x (by simp)
    obtain ⟨c, hy⟩ := exists_yields_of_call hb hbuild y (by simp)
    exact ⟨_, .extremum hg hname hx hy⟩
  | limit x lo hi hname =>
    obtain ⟨a, hx⟩ := exists_yields_of_call hb hbuild x (by simp)
    obtain ⟨l, hlo⟩ := exists_yields_of_call hb hbuild lo (by simp)
    obtain ⟨h, hhi⟩ := exists_yields_of_call hb hbuild hi (by simp)
    exact ⟨_, .limit hname hx hlo hhi⟩

/-- **A selection follows the operand that it selects.** -/
theorem Selects.follows (hb : b.RealOrComplex) {e z : Expr K}
    (h : e.Selects b (Yields ⟨.builtin, b⟩ p) z) (hbuild : Buildable ⟨.builtin, b⟩ p.source? e)
    (hoperands : ∀ x ∈ e.operands, (x.derive .builtin wanted).isSome = true) :
    e.Follows (Yields ⟨.builtin, b⟩ p) wanted z := by
  have hderive (x : Expr K) (hx : x ∈ e.operands) : ∃ m, x.derive .builtin wanted = some m :=
    Option.isSome_iff_exists.mp (hoperands x hx)
  cases h with
  | @choice c t f a hc =>
    obtain ⟨-, ht, hf⟩ := buildable_conditional.mp hbuild
    obtain ⟨dt, hdt⟩ := hderive t (by simp [operands])
    obtain ⟨df, hdf⟩ := hderive f (by simp [operands])
    exact choice_follows hb hc ht hf hdt hdf
  | @extremum g op name x y a c hg hname hx hy =>
    obtain ⟨dx, hdx⟩ := hderive x (by simp [operands])
    obtain ⟨dy, hdy⟩ := hderive y (by simp [operands])
    exact extremum_follows hb hg hname hx hy hdx hdy
  | @limit name x lo hi a l h hname hx hlo hhi =>
    obtain ⟨dx, hdx⟩ := hderive x (by simp [operands])
    obtain ⟨dlo, hdlo⟩ := hderive lo (by simp [operands])
    obtain ⟨dhi, hdhi⟩ := hderive hi (by simp [operands])
    exact limit_follows hb hname hx hlo hhi hdx hdlo hdhi

variable {σ : Type} {source? : Variable → Option S}

/-- **Selections are differentiated by what they select.**  With real values and with complex
ones, over exact numbers: a selection that can be built, and whose operands have derivatives,
selects an operand at every point; it is worth what this operand is worth, and so are its
derivatives by all variables.  Limiting and taking the larger and then the smaller one are the
same, in derivatives and in values; in derivatives also over machine numbers. -/
theorem selections_follow_selected (hb : b.RealOrComplex) {host : Resolver σ S}
    (hhost : host.Steady source?) (wanted : List Variable) :
    (∀ e : Expr K, e.IsSelection →
      (∀ x ∈ e.operands, (x.derive .builtin wanted).isSome = true) →
      Buildable ⟨.builtin, b⟩ source? e → ∀ (state : σ) (memory : S → α),
        (∃ x, e.Selects b (Computes ⟨.builtin, b⟩ host state memory) x) ∧
        ∀ x, e.Selects b (Computes ⟨.builtin, b⟩ host state memory) x →
          x ∈ e.operands ∧ e.Follows (Computes ⟨.builtin, b⟩ host state memory) wanted x) ∧
    ∀ name, Text.lowercase name = "limit" →
      (∀ x lo hi : Expr K,
        (Expr.call name [x, lo, hi]).derive .builtin wanted =
          (Expr.call "min" [.call "max" [x, lo], hi]).derive .builtin wanted ∧
        ∀ (state : σ) (memory : S → α) (r : α),
          Computes ⟨.builtin, b⟩ host state memory (.call name [x, lo, hi]) r ↔
            Computes ⟨.builtin, b⟩ host state memory (.call "min" [.call "max" [x, lo], hi]) r) ∧
      ∀ x lo hi : Expr Double, Option.Rel Derivatives.Alike
        ((Expr.call name [x, lo, hi]).derive .builtin wanted)
        ((Expr.call "min" [.call "max" [x, lo], hi]).derive .builtin wanted) := by
  have hmultiplies : b.MultipliesOut := hb.multipliesOut (Scalar.eq_iff.mpr rfl)
  simp only [computes_eq_yields (s := ⟨.builtin, b⟩) hmultiplies hhost]
  refine ⟨fun e he hoperands hbuild state memory => ⟨?_, fun x hx => ?_⟩,
    fun name hname => ⟨fun x lo hi => ⟨?_, fun state memory r => yields_limit_iff hb hname⟩,
      fun x lo hi => ?_⟩⟩
  · exact he.exists_selects (p := ⟨source?, memory⟩) hb hbuild
  · exact ⟨hx.mem_operands, hx.follows hb hbuild hoperands⟩
  · rw [derive_eq_derivatives, derive_eq_derivatives, derivatives_limit hname]
  · exact derive_alike_of_derivatives_eq Vocabulary.respectsKeys_builtin
      (derivatives_limit hname x lo hi)

end Exact

/-- The smaller one of two variables. -/
noncomputable def smallerVariable : Expr ℝ := .call "min" [.var (.named "x"), .var (.named "y")]

/-- Values of the variables with the same real part. -/
noncomputable def tiedValues : Variable → Complex ℝ := fun v =>
  if v = .named "x" then ⟨1, 1⟩ else ⟨1, -1⟩

/-- Where neither of two complex numbers is the smaller one, the second is selected. -/
theorem smallerVariable_follows_second :
    smallerVariable.Follows
      (Computes ⟨.builtin, .complex 0 none⟩ (.recording some) [] tiedValues)
      [.named "x", .named "y"] (.var (.named "y")) := by
  have hhost := Resolver.steady_recording (some : Variable → Option Variable)
  have hb : (Backend.complex (0 : ℝ) (none : Option Variable)).RealOrComplex := .complex 0 none
  have hmultiplies := hb.multipliesOut (Scalar.eq_iff.mpr rfl)
  have hvar (v : Variable) : Yields ⟨.builtin, .complex 0 none⟩ ⟨some, tiedValues⟩
      (.var v : Expr ℝ) (tiedValues v) :=
    .sourced rfl
  have hcomputes (v : Variable) : Computes ⟨.builtin, .complex 0 none⟩ (.recording some) []
      tiedValues (.var v : Expr ℝ) (tiedValues v) :=
    (computes_iff hmultiplies hhost).mpr (hvar v)
  have hmin := lowercase_extrema.1
  have htie : (Backend.complex (0 : ℝ) (none : Option Variable)).compare .lt (tiedValues (.named "x"))
      (tiedValues (.named "y")) = false := by
    have hne : Variable.named "y" ≠ .named "x" := by decide
    simp [Backend.complex, Backend.compareComplex, tiedValues, Scalar.lt, hne]
  have hselects : smallerVariable.Selects (.complex 0 (none : Option Variable))
      (Computes ⟨.builtin, .complex 0 none⟩ (.recording some) [] tiedValues)
      (.var (.named "y")) := by
    have h := Selects.extremum (b := .complex (0 : ℝ) (none : Option Variable)) .min hmin (hcomputes (.named "x"))
      (hcomputes (.named "y"))
    rwa [htie, if_neg Bool.false_ne_true] at h
  have hderive : ∀ x ∈ smallerVariable.operands,
      (x.derive .builtin [.named "x", .named "y"]).isSome = true := by
    refine List.forall_mem_cons.mpr ⟨?_, List.forall_mem_singleton.mpr ?_⟩
    · rw [derive_variable (by simp)]
      rfl
    · rw [derive_variable (by simp)]
      rfl
  exact (((selections_follow_selected hb hhost _).1 smallerVariable (.extremum _ _ .min hmin)
    hderive (yields_extremum hb .min hmin (hvar _) (hvar _)).buildable [] tiedValues).2 _
    hselects).2

end Expr
end CircuitExpr
