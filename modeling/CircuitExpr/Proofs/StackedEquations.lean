/-
# A system is the stack of its equations

The equations of a system are differentiated by the variables of all of them, an equation
by itself by its own.  More variables make no difference to its derivatives as long as they
do not occur in it (`deriveWith_congr`), so with a steady host each row of a system is the
equation of its text with further variables (`Widens`): the same tree, value and
derivatives, an evaluator of the same derivative for each variable of its own, and the
evaluator of zero for any other.

For the same reason a row can be made where the equation can, and so the system can be made
where all its equations can (`system_stacks_equations`).
-/

import Mathlib
import CircuitExpr.Proofs.DerivativesBuild
import CircuitExpr.Proofs.JacobianPaths

namespace CircuitExpr

/-! ### Variables that do not occur -/

/-- **Derivatives depend on the variables that occur in the tree only,** whatever the
others that are asked for. -/
theorem Expr.deriveWith_congr {ρ : Type} [Scalar ρ] {w : Vocabulary ρ} {mix : Hasher ρ}
    {e : Expr ρ} {vs vs' : List Variable} (h : ∀ v ∈ e.leaves, v ∈ vs ↔ v ∈ vs') :
    e.deriveWith mix w vs = e.deriveWith mix w vs' := by
  have hsome {vs vs' : List Variable} (h : ∀ v ∈ e.leaves, v ∈ vs ↔ v ∈ vs') {ds : Derivatives ρ}
      (hds : e.deriveWith mix w vs = some ds) : e.deriveWith mix w vs' = some ds := by
    have hthere := deriveWith_by (fun v hv => (h v hv).mpr) hds
    have hback := deriveWith_by (fun v hv => (h v hv).mp) hthere
    -- Going there and back drops nothing, so going there does not.
    have hentries : ds.entries = ((ds.by vs').by vs).entries :=
      congrArg OrderedMap.entries (Option.some.inj (hds.symm.trans hback))
    have hkept : ∀ entry ∈ ds.entries, decide (entry.1 ∈ vs') = true := by
      intro entry hentry
      rw [hentries] at hentry
      exact (List.mem_filter.mp (List.mem_filter.mp hentry).1).2
    have hself : ds.by vs' = ds := OrderedMap.ext_entries (List.filter_eq_self.mpr hkept)
    rw [hthere, hself]
  cases hds : e.deriveWith mix w vs with
  | some ds => exact (hsome h hds).symm
  | none =>
    cases hds' : e.deriveWith mix w vs' with
    | none => rfl
    | some ds =>
      rw [hsome (fun v hv => (h v hv).symm) hds'] at hds
      cases hds

/-- There is no derivative by a variable that is not asked for. -/
theorem Expr.get?_eq_none_of_derive {ρ : Type} [Scalar ρ] {w : Vocabulary ρ} {vs : List Variable}
    {e : Expr ρ} {ds : Derivatives ρ} (hds : e.derive w vs = some ds) {v : Variable}
    (hv : v ∉ vs) : ds.get? v = none := by
  have hself : ds = ds.by vs :=
    Option.some.inj (hds.symm.trans (deriveWith_by (fun _ _ h => h) hds))
  rw [hself, Derivatives.by, OrderedMap.get?_keep_of, if_neg (by simpa using hv)]

/-! ### Equations -/

namespace Equation

open Attempt
open Vocabulary (orZero)

variable {ρ S α σ : Type} [Scalar ρ] {s : Setting ρ S α} {host : Resolver σ S}
  {source? : Variable → Option S} {e : Expr ρ} {vars : List Variable} {q r : Equation ρ S α}

/-- The equation was made of an expression by some variables, their sources given. -/
structure MadeOf (s : Setting ρ S α) (source? : Variable → Option S) (e : Expr ρ)
    (wanted : List Variable) (q : Equation ρ S α) : Prop where
  /-- The expression. -/
  expr : q.expr = e
  /-- The variables. -/
  vars : q.vars = wanted
  /-- The derivatives by the variables. -/
  derivatives : q.derivatives = e.derive s.vocabulary wanted
  /-- The evaluator of the expression. -/
  value : Evaluator.translate s source? e = .ok q.value
  /-- The evaluators of the derivatives by the variables; a missing derivative is zero. -/
  slope : ∀ ds, q.derivatives = some ds → ∀ v ∈ wanted, ∃ x, q.derivativeBy v = .ok x ∧
    Evaluator.translate s source? (orZero (ds.get? v)) = .ok x

/-- **An equation is made of its expression.** -/
theorem madeOf_of_ofExpr (hhost : host.Steady source?) {text : String} {state : σ}
    (h : (ofExpr s host text e vars state).1 = .ok q) : q.MadeOf s source? e vars := by
  rw [ofExpr] at h
  cases hds : e.derive s.vocabulary vars with
  | none =>
    rw [hds] at h
    obtain ⟨value, hvalue, rfl⟩ := assemble_none_eq_ok.mp h
    rw [Evaluator.build_eq_translate hhost] at hvalue
    refine ⟨rfl, rfl, hds.symm, hvalue, fun ds hds' => ?_⟩
    cases hds'
  | some ds =>
    rw [hds] at h
    obtain ⟨value, slopes, hvalue, hslopes, rfl⟩ := (assemble_steady_eq_ok hhost).mp h
    refine ⟨rfl, rfl, hds.symm, hvalue, fun ds' hds' v hv => ?_⟩
    obtain rfl := Option.some.inj hds'
    obtain ⟨x, hx, hfound⟩ := (get?_of_translateSlopes hslopes v).1 hv
    exact ⟨x, derivativeBy_eq_ok rfl hfound, hx⟩

/-- An equation comes out if its expression and its derivatives can be built. -/
theorem exists_ofExpr_iff (hhost : host.Steady source?) (text : String) (e : Expr ρ)
    (vars : List Variable) (state : σ) :
    (∃ q, (ofExpr s host text e vars state).1 = .ok q) ↔ e.Buildable s source? ∧
      ∀ ds, e.derive s.vocabulary vars = some ds → ∀ v ∈ vars,
        Expr.Buildable s source? (orZero (ds.get? v)) := by
  constructor
  · rintro ⟨q, hq⟩
    obtain ⟨-, -, hderivatives, hvalue, hslope⟩ := madeOf_of_ofExpr hhost hq
    refine ⟨⟨_, hvalue⟩, fun ds hds v hv => ?_⟩
    obtain ⟨x, -, hx⟩ := hslope ds (hderivatives.trans hds) v hv
    exact ⟨x, hx⟩
  · rintro ⟨hvalue, hslopes⟩
    rw [ofExpr]
    cases hds : e.derive s.vocabulary vars with
    | none =>
      obtain ⟨value, hvalue⟩ := hvalue
      exact ⟨⟨text, e, vars, none, value, none⟩, assemble_none_eq_ok.mpr
        ⟨value, (Evaluator.build_eq_translate hhost e state).trans hvalue, rfl⟩⟩
    | some ds =>
      obtain ⟨q, hq, -⟩ := exists_assemble hhost hvalue (hslopes ds hds) text state
      exact ⟨q, hq⟩

/-- The equation of a text is made of what is read from it. -/
theorem ofText_eq_ok {text : String} {state : σ} {q : Equation ρ S α} :
    (ofText s host text state).1 = .ok q ↔
      ∃ e, read s text = .ok e ∧ (ofExpr s host text e e.vars state).1 = .ok q := by
  rw [ofText, fst_andThen, fst_ofExcept]
  exact bind_eq_ok

/-- More variables than those of the tree change nothing in its derivatives. -/
theorem derive_of_subset {w : Vocabulary ρ} (hvars : e.vars ⊆ vars) :
    e.derive w vars = e.derive w e.vars :=
  Expr.deriveWith_congr fun v hv => by
    have hmem : v ∈ e.vars := Expr.mem_vars.mpr hv
    simp [hmem, hvars hmem]

/-- An equation can be made by its own variables where it can be made by more. -/
theorem exists_ofExpr_congr (hhost : host.Steady source?) (text : String)
    (hvars : e.vars ⊆ vars) (state state' : σ) :
    (∃ r, (ofExpr s host text e vars state).1 = .ok r) ↔
      ∃ q, (ofExpr s host text e e.vars state').1 = .ok q := by
  rw [exists_ofExpr_iff hhost, exists_ofExpr_iff hhost, derive_of_subset hvars]
  refine and_congr_right fun _ => forall₂_congr fun ds hds => ⟨fun h v hv => h v (hvars hv), ?_⟩
  intro h v _
  by_cases hv : v ∈ e.vars
  · exact h v hv
  · rw [Expr.get?_eq_none_of_derive hds hv]
    exact Expr.buildable_constant 0

/-- The second equation is the first with further variables. -/
structure Widens (b : Backend ρ S α) (wanted : List Variable) (q r : Equation ρ S α) : Prop where
  /-- The same expression. -/
  expr : r.expr = q.expr
  /-- The same derivatives. -/
  derivatives : r.derivatives = q.derivatives
  /-- The same evaluator of the value. -/
  value : r.value = q.value
  /-- The evaluator of the same derivative, or of zero for a further variable. -/
  slope : r.isDifferentiable = true → ∀ v ∈ wanted, r.derivativeBy v =
    if v ∈ q.vars then q.derivativeBy v else .ok (.value (b.ofReal 0))

/-- **An equation by more variables widens the equation by its own.** -/
theorem MadeOf.widens (hq : q.MadeOf s source? e e.vars) (hr : r.MadeOf s source? e vars)
    (hvars : e.vars ⊆ vars) : q.Widens s.backend vars r := by
  have hderivatives : r.derivatives = q.derivatives := by
    rw [hr.derivatives, hq.derivatives, derive_of_subset hvars]
  refine ⟨hr.expr.trans hq.expr.symm, hderivatives, ?_, fun hdifferentiable v hv => ?_⟩
  · exact Except.ok.inj (hr.value.symm.trans hq.value)
  · obtain ⟨ds, hds⟩ := Option.isSome_iff_exists.mp hdifferentiable
    obtain ⟨x, hx, htranslate⟩ := hr.slope ds hds v hv
    rw [hx, hq.vars]
    split
    · rename_i hmem
      obtain ⟨x', hx', htranslate'⟩ := hq.slope ds (hderivatives.symm.trans hds) v hmem
      rw [hx', Except.ok.inj (htranslate.symm.trans htranslate')]
    · rename_i hmem
      have hown : e.derive s.vocabulary e.vars = some ds :=
        hq.derivatives.symm.trans (hderivatives.symm.trans hds)
      rw [Expr.get?_eq_none_of_derive hown hmem] at htranslate
      exact congrArg _ (Except.ok.inj htranslate.symm)

end Equation

/-! ### Systems -/

namespace EquationSystem

open Attempt Equation

variable {ρ S α σ : Type} [Scalar ρ] {s : Setting ρ S α} {host : Resolver σ S}
  {source? : Variable → Option S}

/-- The system of some texts is made of what is read from them, one by one. -/
theorem ofTexts_eq_ok {texts : List String} {state : σ} {y : EquationSystem ρ S α} :
    (ofTexts s host texts state).1 = .ok y ↔
      ∃ exprs : List (String × Expr ρ),
        List.Forall₂ (fun text t => read s text = .ok t.2 ∧ t.1 = text) texts exprs ∧
        y.vars = unionOfVariables (exprs.map Prod.snd) ∧
        (each (fun t => ofExpr s host t.1 t.2 y.vars) exprs state).1 = .ok y.rows := by
  have hread (text : String) (t : String × Expr ρ) :
      (read s text).map (fun e => (text, e)) = .ok t ↔ read s text = .ok t.2 ∧ t.1 = text := by
    rw [map_eq_ok]
    constructor
    · rintro ⟨e, he, rfl⟩
      exact ⟨he, rfl⟩
    · rintro ⟨he, rfl⟩
      exact ⟨t.2, he, rfl⟩
  rw [ofTexts, fst_andThen, fst_ofExcept]
  refine bind_eq_ok.trans (exists_congr fun exprs => ?_)
  rw [readAll, mapM_eq_ok, ofExprs, fst_andThen]
  simp only [hread]
  refine and_congr_right fun _ => bind_eq_ok.trans ?_
  constructor
  · rintro ⟨rows, hrows, h⟩
    obtain rfl := Except.ok.inj h
    exact ⟨rfl, hrows⟩
  · rintro ⟨hvars, hrows⟩
    rw [hvars] at hrows
    exact ⟨y.rows, hrows, by rw [← hvars]; rfl⟩

/-- Attempts that succeed for each element succeed for all of them. -/
theorem exists_each {ε β γ : Type} {f : β → Attempt ε σ γ} {xs : List β}
    (h : ∀ x ∈ xs, ∀ state, ∃ y, (f x state).1 = .ok y) (state : σ) :
    ∃ ys, (each f xs state).1 = .ok ys := by
  induction xs generalizing state with
  | nil => exact ⟨[], rfl⟩
  | cons x xs ih =>
    obtain ⟨y, hy⟩ := h x List.mem_cons_self state
    obtain ⟨ys, hys⟩ := ih (fun z hz => h z (List.mem_cons_of_mem x hz)) (f x state).2
    refine ⟨y :: ys, ?_⟩
    rw [each, fst_andThen, hy]
    change (andThen (each f xs) _ (f x state).2).1 = _
    rw [fst_andThen, hys]
    rfl

/-- The variables of each text are among those of the system. -/
theorem vars_subset_union {exprs : List (String × Expr ρ)} {t : String × Expr ρ} (ht : t ∈ exprs) :
    t.2.vars ⊆ unionOfVariables (exprs.map Prod.snd) := by
  intro v hv
  rw [unionOfVariables, OrderedMap.mem_distinct]
  exact List.mem_flatMap.mpr ⟨t.2, List.mem_map_of_mem ht, hv⟩

/-- **A system can be made if all its equations can.** -/
theorem exists_ofTexts_iff (hhost : host.Steady source?) (texts : List String) (state state' : σ) :
    (∃ y, (ofTexts s host texts state).1 = .ok y) ↔
      ∀ text ∈ texts, ∃ q, (ofText s host text state').1 = .ok q := by
  constructor
  · rintro ⟨y, hy⟩ text htext
    obtain ⟨exprs, hexprs, hvars, hrows⟩ := ofTexts_eq_ok.mp hy
    obtain ⟨t, ht, hread, rfl⟩ := exists_right_of_mem hexprs htext
    obtain ⟨r, -, rowState, hr⟩ := exists_right_of_mem (forall₂_of_each hrows) ht
    have hsubset : t.2.vars ⊆ y.vars := hvars ▸ vars_subset_union ht
    obtain ⟨q, hq⟩ := (exists_ofExpr_congr hhost t.1 hsubset rowState state').mp ⟨r, hr⟩
    exact ⟨q, ofText_eq_ok.mpr ⟨t.2, hread, hq⟩⟩
  · intro h
    have hread : ∀ text ∈ texts, ∃ t : String × Expr ρ,
        read s text = .ok t.2 ∧ t.1 = text := by
      intro text htext
      obtain ⟨q, hq⟩ := h text htext
      obtain ⟨e, he, -⟩ := ofText_eq_ok.mp hq
      exact ⟨(text, e), he, rfl⟩
    obtain ⟨exprs, hexprs⟩ := exists_forall₂_iff.mpr hread
    have hrow : ∀ t ∈ exprs, ∀ rowState, ∃ r,
        (ofExpr s host t.1 t.2 (unionOfVariables (exprs.map Prod.snd)) rowState).1 = .ok r := by
      intro t ht rowState
      obtain ⟨text, htext, hread, rfl⟩ := exists_left_of_mem hexprs ht
      obtain ⟨q, hq⟩ := h t.1 htext
      obtain ⟨e, he, hq⟩ := ofText_eq_ok.mp hq
      obtain rfl : t.2 = e := Except.ok.inj (hread.symm.trans he)
      exact (exists_ofExpr_congr hhost t.1 (vars_subset_union ht) rowState state').mpr ⟨q, hq⟩
    obtain ⟨rows, hrows⟩ := exists_each hrow state
    exact ⟨⟨rows, _⟩, ofTexts_eq_ok.mpr ⟨exprs, hexprs, rfl, hrows⟩⟩

/-- **Each row of a system widens the equation of its text.** -/
theorem forall₂_widens (hhost : host.Steady source?) {texts : List String} {state : σ}
    {y : EquationSystem ρ S α} (hy : (ofTexts s host texts state).1 = .ok y)
    {qs : List (Equation ρ S α)}
    (hqs : List.Forall₂ (fun text q => ∃ state, (ofText s host text state).1 = .ok q) texts qs) :
    y.vars = OrderedMap.distinct (qs.flatMap Equation.vars) ∧
      List.Forall₂ (Widens s.backend y.vars) qs y.rows := by
  obtain ⟨exprs, hexprs, hvars, hrows⟩ := ofTexts_eq_ok.mp hy
  have hmade : List.Forall₂ (fun t q => q.MadeOf s source? t.2 t.2.vars) exprs qs := by
    refine forall₂_across hexprs hqs fun text _ t q ht hq => ?_
    obtain ⟨hread, rfl⟩ := ht
    obtain ⟨rowState, hq⟩ := hq
    obtain ⟨e, he, hq⟩ := ofText_eq_ok.mp hq
    obtain rfl : t.2 = e := Except.ok.inj (hread.symm.trans he)
    exact madeOf_of_ofExpr hhost hq
  constructor
  · have hown : exprs.map (fun t => t.2.vars) = qs.map Equation.vars :=
      map_eq_map_of_forall₂ (hmade.imp fun t q hq => hq.vars.symm)
    rw [hvars, unionOfVariables, List.flatMap_map, List.flatMap_def, hown, ← List.flatMap_def]
  · refine forall₂_across hmade (forall₂_of_each hrows) fun t ht q r hq hr => ?_
    obtain ⟨rowState, hr⟩ := hr
    exact hq.widens (madeOf_of_ofExpr hhost hr) (hvars ▸ vars_subset_union ht)

/-- The entry of a row that widens an equation is the derivative of the equation, or zero
for a further variable. -/
theorem slopeBy_of_widens {b : Backend ρ S α} {memory : S → α} {wanted : List Variable}
    {q r : Equation ρ S α} (h : q.Widens b wanted r) (hdifferentiable : r.isDifferentiable = true)
    {v : Variable} (hv : v ∈ wanted) :
    r.slopeBy b memory v =
      if v ∈ q.vars then q.slopeBy b memory v else .ok (some (b.ofReal 0)) := by
  rw [slopeBy, h.slope hdifferentiable v hv]
  split <;> rfl

/-- **The matrix of a system holds the derivatives of its equations.** -/
theorem exists_jacobian_entries {texts : List String} {state : σ}
    {y : EquationSystem ρ S α} (hy : (ofTexts s host texts state).1 = .ok y)
    {qs : List (Equation ρ S α)} (hwidens : List.Forall₂ (Widens s.backend y.vars) qs y.rows)
    (hdifferentiable : y.isDifferentiable = true) (memory : S → α) :
    ∃ m, y.jacobian s.backend memory = .ok m ∧
      List.Forall₂ (fun q row => List.Forall₂ (fun v x =>
        (if v ∈ q.vars then q.slopeBy s.backend memory v else .ok (some (s.backend.ofReal 0))) =
          .ok x) y.vars row) qs m := by
  have hmade : y.Made s host := ⟨texts, state, .inl hy⟩
  have hnodup : y.vars.Nodup := by
    obtain ⟨exprs, -, hvars, -⟩ := ofTexts_eq_ok.mp hy
    exact hvars ▸ OrderedMap.nodup_distinct _
  obtain ⟨m, hm⟩ := (exists_jacobian_iff (b := s.backend) hmade).mpr hdifferentiable
  refine ⟨m, hm, ?_⟩
  rw [jacobian_eq_mapM hmade hnodup (.inl hdifferentiable), mapM_eq_ok] at hm
  have hrows := List.Forall₂.flip (R := flip (Widens s.backend y.vars)) hwidens
  refine forall₂_across hrows hm fun r hr q row hwiden hrow => ?_
  have hentries := (List.forall₂_and_left _ _).mpr ⟨fun v hv => hv, mapM_eq_ok.mp hrow⟩
  refine hentries.imp fun v x hx => ?_
  rw [← slopeBy_of_widens hwiden (List.all_eq_true.mp hdifferentiable r hr) hx.1]
  exact hx.2

end EquationSystem

/-- **A system is the stack of its equations.**  With a steady host the system of some
texts can be made where the equation of each can.  Its variables are those of the equations
in their order, without repetitions; its rows have the expressions, the derivatives and the
values of the equations.  And if all rows have derivatives, the matrix has, at every moment
and at the place of an equation and a variable, the value of the derivative of the equation
by the variable, or zero if the equation does not have it. -/
theorem system_stacks_equations {ρ S α σ : Type} [Scalar ρ] {s : Setting ρ S α} {host : Resolver σ S}
    {source? : Variable → Option S} (hhost : host.Steady source?) (texts : List String)
    (state state' : σ) :
    ((∃ y, (EquationSystem.ofTexts s host texts state).1 = .ok y) ↔
      ∀ text ∈ texts, ∃ q, (Equation.ofText s host text state').1 = .ok q) ∧
    ∀ (y : EquationSystem ρ S α) (qs : List (Equation ρ S α)),
      (EquationSystem.ofTexts s host texts state).1 = .ok y →
      List.Forall₂ (fun text q => ∃ state, (Equation.ofText s host text state).1 = .ok q) texts qs →
      y.vars = OrderedMap.distinct (qs.flatMap Equation.vars) ∧
      y.rows.map Equation.expr = qs.map Equation.expr ∧
      y.rows.map Equation.derivatives = qs.map Equation.derivatives ∧
      (∀ memory, y.eval s.backend memory = qs.map (Equation.eval s.backend memory)) ∧
      (y.isDifferentiable = true → ∀ memory, ∃ m, y.jacobian s.backend memory = .ok m ∧
        List.Forall₂ (fun q row => List.Forall₂ (fun v x =>
          (v ∈ q.vars → ∃ slope, q.derivativeBy v = .ok slope ∧ x = slope.value? s.backend memory) ∧
          (v ∉ q.vars → x = some (s.backend.ofReal 0))) y.vars row) qs m) := by
  refine ⟨EquationSystem.exists_ofTexts_iff hhost texts state state', fun y qs hy hqs => ?_⟩
  obtain ⟨hvars, hwidens⟩ := EquationSystem.forall₂_widens hhost hy hqs
  have hrows : List.Forall₂ (fun r q => q.Widens s.backend y.vars r) y.rows qs :=
    List.Forall₂.flip (R := flip _) hwidens
  refine ⟨hvars, map_eq_map_of_forall₂ (hrows.imp fun r q h => h.expr),
    map_eq_map_of_forall₂ (hrows.imp fun r q h => h.derivatives), fun memory => ?_,
    fun hdifferentiable memory => ?_⟩
  · refine map_eq_map_of_forall₂ (hrows.imp fun r q h => ?_)
    rw [Equation.eval, Equation.eval, h.value]
  · obtain ⟨m, hm, hentries⟩ :=
      EquationSystem.exists_jacobian_entries hy hwidens hdifferentiable memory
    refine ⟨m, hm, hentries.imp fun q row hrow => hrow.imp fun v x hx => ?_⟩
    constructor
    · intro hv
      rw [if_pos hv] at hx
      obtain ⟨slope, hslope, hvalue⟩ := map_eq_ok.mp hx
      exact ⟨slope, hslope, hvalue.symm⟩
    · intro hv
      rw [if_neg hv] at hx
      exact (Except.ok.inj hx).symm

/-- The text `b` is a variable, unless `b` is a constant. -/
theorem parse_b {ρ : Type} [Scalar ρ] {constant? : String → Option ρ} (h : constant? "b" = none) :
    Expr.parse constant? "b" = .ok (.var (.named "b")) := by
  cbv
  rw [h]
  rfl

/-- The system of the texts `a` and `b`: its matrix is the identity. -/
theorem variablesSystem_stacks :
    ∃ y : EquationSystem ℝ Variable ℝ,
      (EquationSystem.ofTexts exactSetting (.recording some) ["a", "b"] []).1 = .ok y ∧
      y.vars = [.named "a", .named "b"] ∧
      y.jacobian exactSetting.backend (fun _ => 5) =
        .ok [[some 1, some 0], [some 0, some 1]] := by
  have hequation (text : String) (v : Variable)
      (hread : Equation.read (exactSetting : Setting ℝ Variable ℝ) text = .ok (.var v)) :
      (Equation.ofText exactSetting (.recording some) text []).1 =
        .ok (variableEquation text v : Equation ℝ Variable ℝ) :=
    Equation.ofText_eq_ok.mpr ⟨_, hread, by rw [Expr.vars_var, ofExpr_var]⟩
  have ha := hequation "a" (.named "a") read_a
  have hb := hequation "b" (.named "b") (mapError_eq_ok.mpr (parse_b constant?_b))
  have hhost := Resolver.steady_recording (S := Variable) some
  obtain ⟨hexists, hstack⟩ :=
    system_stacks_equations (s := (exactSetting : Setting ℝ Variable ℝ)) hhost ["a", "b"] [] []
  obtain ⟨y, hy⟩ := hexists.mpr
    (List.forall_mem_cons.mpr ⟨⟨_, ha⟩, List.forall_mem_singleton.mpr ⟨_, hb⟩⟩)
  obtain ⟨hvars, -, hderivatives, -, hjacobian⟩ :=
    hstack y _ hy (.cons ⟨[], ha⟩ (.cons ⟨[], hb⟩ .nil))
  have hvars' : y.vars = [.named "a", .named "b"] := hvars.trans (by decide)
  have hdifferentiable : y.isDifferentiable = true := by
    have hall : (y.rows.map Equation.derivatives).all Option.isSome = true := by
      rw [hderivatives]
      rfl
    rwa [List.all_map] at hall
  obtain ⟨m, hm, hentries⟩ := hjacobian hdifferentiable fun _ => 5
  rw [hvars'] at hentries
  obtain _ | ⟨hfirst, _ | ⟨hsecond, _ | _⟩⟩ := hentries
  obtain _ | ⟨h11, _ | ⟨h12, _ | _⟩⟩ := hfirst
  obtain _ | ⟨h21, _ | ⟨h22, _ | _⟩⟩ := hsecond
  obtain ⟨slope, hslope, rfl⟩ := h11.1 (by decide)
  obtain ⟨slope', hslope', rfl⟩ := h22.1 (by decide)
  obtain rfl := h12.2 (by decide)
  obtain rfl := h21.2 (by decide)
  obtain rfl : .value 1 = slope := Except.ok.inj hslope
  obtain rfl : .value 1 = slope' := Except.ok.inj hslope'
  exact ⟨y, hy, hvars', hm⟩

end CircuitExpr
