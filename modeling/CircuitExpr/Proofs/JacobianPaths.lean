/-
# Three ways to the Jacobian

The matrix of derivatives is asked for as a whole, row by row into places that are there
already, or column by column.  As a whole, each equation gives all its derivatives at once;
the other ways ask it for one derivative at a time.  An equation of a system either has no
derivatives or has an evaluator for each variable of the system and no other, in their
order (`Covers`), so the ways agree wherever there is something to ask for.

Without variables there is not.  Then no place is written and no equation is asked: what
has no derivatives goes unnoticed, while the matrix as a whole is refused
(`jacobian_paths`).
-/

import Mathlib
import CircuitExpr.EquationSystem
import CircuitExpr.Proofs.EquationVariables

namespace CircuitExpr

/-! ### Results for all elements -/

/-- Results for all elements are results for each of them. -/
theorem mapM_eq_ok {ε β γ : Type} {f : β → Except ε γ} {xs : List β} {ys : List γ} :
    xs.mapM f = .ok ys ↔ List.Forall₂ (fun x y => f x = .ok y) xs ys := by
  induction xs generalizing ys with
  | nil =>
    rw [List.mapM_nil, List.forall₂_nil_left_iff]
    exact ⟨fun h => (Except.ok.inj h).symm, fun h => h ▸ rfl⟩
  | cons x xs ih =>
    rw [List.mapM_cons, bind_eq_ok, List.forall₂_cons_left_iff]
    constructor
    · rintro ⟨y, hy, h⟩
      obtain ⟨ys, hys, h⟩ := bind_eq_ok.mp h
      exact ⟨y, ys, hy, ih.mp hys, (Except.ok.inj h).symm⟩
    · rintro ⟨y, ys, hy, hys, rfl⟩
      exact ⟨y, hy, bind_eq_ok.mpr ⟨ys, ih.mpr hys, rfl⟩⟩

/-- There is a list across from another if there is something across from each element. -/
theorem exists_forall₂_iff {β γ : Type} {R : β → γ → Prop} {xs : List β} :
    (∃ ys, List.Forall₂ R xs ys) ↔ ∀ x ∈ xs, ∃ y, R x y := by
  induction xs with
  | nil => exact ⟨fun _ => List.forall_mem_nil _, fun _ => ⟨[], .nil⟩⟩
  | cons x xs ih =>
    rw [List.forall_mem_cons, ← ih]
    constructor
    · rintro ⟨_, hy | ⟨hy, hys⟩⟩
      exact ⟨⟨_, hy⟩, ⟨_, hys⟩⟩
    · rintro ⟨⟨y, hy⟩, ⟨ys, hys⟩⟩
      exact ⟨y :: ys, .cons hy hys⟩

/-- What two lists have across from a third they have across from each other. -/
theorem forall₂_across {β γ δ : Type} {R : β → γ → Prop} {R' : β → δ → Prop} {Q : γ → δ → Prop}
    {xs : List β} {ys : List γ} {zs : List δ} (hR : List.Forall₂ R xs ys)
    (hR' : List.Forall₂ R' xs zs) (h : ∀ x ∈ xs, ∀ y z, R x y → R' x z → Q y z) :
    List.Forall₂ Q ys zs := by
  induction hR generalizing zs with
  | nil =>
    cases hR'
    exact .nil
  | @cons x y xs ys hxy _ ih =>
    obtain _ | ⟨hxz, hxs⟩ := hR'
    exact .cons (h x List.mem_cons_self y _ hxy hxz)
      (ih hxs fun x' hx' => h x' (List.mem_cons_of_mem x hx'))

/-- There are results for all elements if there is one for each of them. -/
theorem exists_mapM_eq_ok {ε β γ : Type} {f : β → Except ε γ} {xs : List β} :
    (∃ ys, xs.mapM f = .ok ys) ↔ ∀ x ∈ xs, ∃ y, f x = .ok y := by
  simp only [mapM_eq_ok, exists_forall₂_iff]

/-- The first element that fails gives the error. -/
theorem exists_of_mapM_eq_error {ε β γ : Type} {f : β → Except ε γ} {xs : List β} {e : ε}
    (h : xs.mapM f = .error e) :
    ∃ before x after, xs = before ++ x :: after ∧ (∀ y ∈ before, ∃ z, f y = .ok z) ∧
      f x = .error e := by
  induction xs with
  | nil => cases h
  | cons x xs ih =>
    rw [List.mapM_cons] at h
    cases hx : f x with
    | error e' =>
      rw [hx] at h
      obtain rfl := Except.error.inj h
      exact ⟨[], x, xs, rfl, nofun, hx⟩
    | ok y =>
      have hxs : xs.mapM f = .error e := by
        cases hxs : xs.mapM f with
        | error e' =>
          rw [hx, hxs] at h
          exact h
        | ok ys =>
          rw [hx, hxs] at h
          cases h
      obtain ⟨before, z, after, rfl, hbefore, hz⟩ := ih hxs
      exact ⟨x :: before, z, after, rfl, List.forall_mem_cons.mpr ⟨⟨y, hx⟩, hbefore⟩, hz⟩

/-- Only what happens to the elements of the list matters. -/
theorem mapM_congr {ε β γ : Type} {f g : β → Except ε γ} {xs : List β}
    (h : ∀ x ∈ xs, f x = g x) : xs.mapM f = xs.mapM g := by
  induction xs with
  | nil => rfl
  | cons x xs ih =>
    rw [List.mapM_cons, List.mapM_cons, h x List.mem_cons_self,
      ih fun y hy => h y (List.mem_cons_of_mem x hy)]

/-- What is done to all results afterwards may be done to each of them. -/
theorem map_mapM {ε β γ δ : Type} (f : β → Except ε γ) (g : γ → δ) (xs : List β) :
    (xs.mapM f).map (List.map g) = xs.mapM fun x => (f x).map g := by
  induction xs with
  | nil => rfl
  | cons x xs ih =>
    rw [List.mapM_cons, List.mapM_cons, ← ih]
    cases f x <;> cases xs.mapM f <;> rfl

/-! ### What an equation of a system has -/

namespace Equation

open Attempt

variable {ρ S α σ : Type} [Scalar ρ] {s : Setting ρ S α} {host : Resolver σ S} {b : Backend ρ S α}
  {memory : S → α} {q : Equation ρ S α} {vars : List Variable}

/-- The equation has an evaluator of the derivative by each of the variables and by no
other, in their order, if it has derivatives. -/
structure Covers (vars : List Variable) (q : Equation ρ S α) : Prop where
  /-- There are evaluators if there are derivatives. -/
  slopes : q.slopes.isSome = q.isDifferentiable
  /-- They are those of the variables. -/
  keys : ∀ slopes, q.slopes = some slopes → slopes.keys = vars

/-- Each variable gets its evaluator where it is met first. -/
theorem keys_of_buildSlopes {ds : Derivatives ρ} {vs : List Variable}
    {built slopes : OrderedMap Variable (Evaluator ρ S α)} {state : σ}
    (h : (buildSlopes s host ds vs built state).1 = .ok slopes) :
    slopes.keys = OrderedMap.distinct (built.keys ++ vs) := by
  induction vs generalizing built state with
  | nil =>
    obtain rfl := Except.ok.inj h
    rw [List.append_nil, OrderedMap.distinct_keys]
  | cons v vs ih =>
    rw [buildSlopes, fst_andThen] at h
    obtain ⟨slope, -, h⟩ := bind_eq_ok.mp h
    rw [ih h, OrderedMap.keys_insert_eq_distinct, OrderedMap.distinct_distinct_append,
      List.append_assoc]
    rfl

/-- **An equation covers the variables that it is made for.** -/
theorem covers_of_assemble {text : String} {e : Expr ρ} {ds? : Option (Derivatives ρ)} {state : σ}
    (h : (assemble s host text e vars ds? state).1 = .ok q) :
    q.Covers (OrderedMap.distinct vars) := by
  cases ds? with
  | none =>
    obtain ⟨value, -, rfl⟩ := assemble_none_eq_ok.mp h
    refine ⟨rfl, fun slopes hslopes => ?_⟩
    cases hslopes
  | some ds =>
    obtain ⟨value, slopes, -, hslopes, rfl⟩ := assemble_some_eq_ok.mp h
    refine ⟨rfl, fun slopes' hslopes' => ?_⟩
    obtain rfl := Option.some.inj hslopes'
    exact keys_of_buildSlopes hslopes

/-- The value of the derivative by a variable. -/
def slopeBy (b : Backend ρ S α) (memory : S → α) (q : Equation ρ S α) (v : Variable) :
    Except EquationError (Option α) :=
  (q.derivativeBy v).map (Evaluator.value? b memory)

/-- Without derivatives there is no gradient, and the error names the text. -/
theorem gradient_of_not (h : q.slopes = none) :
    q.gradient b memory = .error (.notDifferentiable q.text) := by
  rw [gradient, h]

/-- Without derivatives there is none by any variable, and the error names the text. -/
theorem slopeBy_of_not (h : q.slopes = none) (v : Variable) :
    q.slopeBy b memory v = .error (.notDifferentiable q.text) := by
  rw [slopeBy, derivativeBy, h]
  rfl

/-- The gradient holds the derivatives by the variables, one by one. -/
theorem gradient_eq_mapM (hq : q.Covers vars) (h : q.isDifferentiable = true ∨ vars ≠ []) :
    q.gradient b memory = vars.mapM (q.slopeBy b memory) := by
  cases hslopes : q.slopes with
  | none =>
    have hne : vars ≠ [] := by
      rw [← hq.slopes, hslopes] at h
      exact h.resolve_left Bool.false_ne_true
    obtain ⟨v, vs, rfl⟩ := List.exists_cons_of_ne_nil hne
    rw [gradient_of_not hslopes, List.mapM_cons, slopeBy_of_not hslopes]
    rfl
  | some slopes =>
    rw [gradient, hslopes, ← hq.keys slopes hslopes, eq_comm, mapM_eq_ok, OrderedMap.keys,
      OrderedMap.values, List.map_map, List.forall₂_map_left_iff, List.forall₂_map_right_iff,
      List.forall₂_same]
    intro entry hentry
    rw [slopeBy, derivativeBy_eq_ok hslopes (OrderedMap.get?_of_mem_entries hentry)]
    rfl

end Equation

/-! ### Systems -/

/-- Each of the results of an attempt for many comes from an attempt for one. -/
theorem Attempt.forall₂_of_each {ε σ β γ : Type} {f : β → Attempt ε σ γ} {xs : List β}
    {state : σ} {ys : List γ} (h : (each f xs state).1 = .ok ys) :
    List.Forall₂ (fun x y => ∃ state', (f x state').1 = .ok y) xs ys := by
  induction xs generalizing ys state with
  | nil =>
    obtain rfl := Except.ok.inj h
    exact .nil
  | cons x xs ih =>
    rw [each, fst_andThen] at h
    obtain ⟨y, hy, h⟩ := bind_eq_ok.mp h
    rw [fst_andThen] at h
    obtain ⟨ys, hys, h⟩ := bind_eq_ok.mp h
    obtain rfl := Except.ok.inj h
    exact .cons ⟨state, hy⟩ (ih hys)

namespace EquationSystem

open Attempt Equation

variable {ρ S α σ : Type} [Scalar ρ] {s : Setting ρ S α} {host : Resolver σ S} {b : Backend ρ S α}
  {memory : S → α} {y : EquationSystem ρ S α} {vars : List Variable}

/-- The system was made from texts, by all their variables or by given ones. -/
def Made (s : Setting ρ S α) (host : Resolver σ S) (y : EquationSystem ρ S α) : Prop :=
  ∃ texts state, (ofTexts s host texts state).1 = .ok y ∨
    ∃ vars, (ofTextsBy s host vars texts state).1 = .ok y

/-- The equations of a system cover its variables. -/
theorem covers_of_ofExprs {exprs : List (String × Expr ρ)} {state : σ}
    (h : (ofExprs s host exprs vars state).1 = .ok y) :
    ∀ q ∈ y.rows, q.Covers (OrderedMap.distinct y.vars) := by
  rw [ofExprs, fst_andThen] at h
  obtain ⟨rows, hrows, h⟩ := bind_eq_ok.mp h
  obtain rfl := Except.ok.inj h
  intro q hq
  obtain ⟨t, -, state', ht⟩ := exists_left_of_mem (forall₂_of_each hrows) hq
  exact covers_of_assemble ht

/-- **The equations of a system cover its variables.** -/
theorem Made.covers (h : y.Made s host) : ∀ q ∈ y.rows, q.Covers (OrderedMap.distinct y.vars) := by
  obtain ⟨texts, state, h | ⟨vars, h⟩⟩ := h
  · rw [ofTexts, fst_andThen] at h
    obtain ⟨exprs, -, h⟩ := bind_eq_ok.mp h
    exact covers_of_ofExprs h
  · rw [ofTextsBy, fst_andThen] at h
    obtain ⟨exprs, -, h⟩ := bind_eq_ok.mp h
    exact covers_of_ofExprs h

/-! ### Writing into places -/

/-- Writing does what collecting does: it ends as collecting ends, and if that is without
error, the places hold what was collected. -/
structure Delivers {β : Type} (collected : Except EquationError (List β))
    (written : Except EquationError Unit × List β) : Prop where
  /-- The same error, or none. -/
  outcome : written.1 = collected.map fun _ => ()
  /-- The same results. -/
  results : ∀ xs, collected = .ok xs → written.2 = xs

/-- One result more on both sides. -/
theorem Delivers.cons {β : Type} {collected : Except EquationError (List β)}
    {written : Except EquationError Unit × List β} (h : Delivers collected written) (x : β) :
    Delivers (collected >>= fun xs => pure (x :: xs)) (written.1, x :: written.2) := by
  obtain ⟨houtcome, hresults⟩ := h
  cases hcollected : collected with
  | error e => exact ⟨houtcome.trans (by rw [hcollected]; rfl), nofun⟩
  | ok xs =>
    refine ⟨houtcome.trans (by rw [hcollected]; rfl), fun ys hys => ?_⟩
    obtain rfl := Except.ok.inj hys
    exact congrArg (x :: ·) (hresults xs hcollected)

/-- Filling a row delivers the derivatives, up to the first that is missing. -/
theorem fillRow_delivers (b : Backend ρ S α) (memory : S → α) (q : Equation ρ S α)
    {vs : List Variable} {places : List (Option α)} (h : places.length = vs.length) :
    Delivers (vs.mapM (q.slopeBy b memory)) (fillRow b memory q vs places) := by
  induction vs generalizing places with
  | nil =>
    obtain rfl := List.length_eq_zero_iff.mp h
    exact ⟨rfl, fun xs hxs => Except.ok.inj hxs⟩
  | cons v vs ih =>
    cases places with
    | nil => cases h
    | cons place places =>
      rw [List.mapM_cons, slopeBy, fillRow]
      cases q.derivativeBy v with
      | error e => exact ⟨rfl, nofun⟩
      | ok slope => exact (ih (Nat.succ.inj h)).cons (slope.value? b memory)

/-- **Filling rows goes through the derivatives one by one.** -/
theorem fillRows_delivers (b : Backend ρ S α) (memory : S → α) (vars : List Variable)
    {rows : List (Equation ρ S α)} {places : List (List (Option α))}
    (hrows : places.length = rows.length) (hcolumns : ∀ row ∈ places, row.length = vars.length) :
    Delivers (rows.mapM fun q => vars.mapM (q.slopeBy b memory))
      (fillRows b memory vars rows places) := by
  induction rows generalizing places with
  | nil =>
    obtain rfl := List.length_eq_zero_iff.mp hrows
    exact ⟨rfl, fun xs hxs => Except.ok.inj hxs⟩
  | cons q rows ih =>
    cases places with
    | nil => cases hrows
    | cons row places =>
      obtain ⟨hrow, hcolumns⟩ := List.forall_mem_cons.mp hcolumns
      obtain ⟨hfirst, hentries⟩ := fillRow_delivers b memory q hrow
      rw [List.mapM_cons, fillRows, if_pos hrow]
      cases hq : vars.mapM (q.slopeBy b memory) with
      | error e =>
        rcases hfill : fillRow b memory q vars row with ⟨outcome, written⟩
        rw [hq, hfill] at hfirst
        obtain rfl : outcome = .error e := hfirst
        exact ⟨rfl, nofun⟩
      | ok xs =>
        have hfill : fillRow b memory q vars row = (.ok (), xs) :=
          Prod.ext (hfirst.trans (by rw [hq]; rfl)) (hentries xs hq)
        rw [hfill]
        exact (ih (Nat.succ.inj hrows) hcolumns).cons xs

/-- Where there are no variables, nothing is written. -/
theorem fillRows_nil {rows : List (Equation ρ S α)} {places : List (List (Option α))}
    (hrows : places.length = rows.length) (hcolumns : ∀ row ∈ places, row.length = 0) :
    fillRows b memory [] rows places = (.ok (), places) := by
  have hcollected : (rows.mapM fun q => ([] : List Variable).mapM (q.slopeBy b memory)) =
      .ok places := by
    refine mapM_eq_ok.mpr (List.forall₂_iff_zip.mpr ⟨hrows.symm, fun {q row} hmem => ?_⟩)
    obtain rfl := List.length_eq_zero_iff.mp (hcolumns row (List.of_mem_zip hmem).2)
    rfl
  obtain ⟨houtcome, hresults⟩ :=
    fillRows_delivers b memory [] hrows hcolumns
  exact Prod.ext (houtcome.trans (by rw [hcollected]; rfl)) (hresults places hcollected)

/-! ### The matrix -/

/-- A gradient is there if the equation has derivatives, and else the error says so. -/
theorem gradient_cases (b : Backend ρ S α) (memory : S → α) {q : Equation ρ S α}
    (hq : q.Covers vars) :
    (q.isDifferentiable = true ∧ ∃ xs, q.gradient b memory = .ok xs) ∨
      q.isDifferentiable = false ∧ q.gradient b memory = .error (.notDifferentiable q.text) := by
  rw [← hq.slopes]
  cases h : q.slopes with
  | none => exact .inr ⟨rfl, gradient_of_not h⟩
  | some slopes => exact .inl ⟨rfl, _, by rw [Equation.gradient, h]⟩

/-- **The matrix is there if all equations have derivatives.** -/
theorem exists_jacobian_iff (hy : y.Made s host) :
    (∃ m, y.jacobian b memory = .ok m) ↔ y.isDifferentiable = true := by
  rw [jacobian, exists_mapM_eq_ok, isDifferentiable, List.all_eq_true]
  refine forall₂_congr fun q hq => ?_
  obtain ⟨hdifferentiable, xs, hxs⟩ | ⟨hnot, herror⟩ :=
    gradient_cases b memory (hy.covers q hq)
  · simp [hdifferentiable, hxs]
  · simp [hnot, herror]

/-- **The error of the matrix is that of its first row without derivatives.** -/
theorem jacobian_eq_error (hy : y.Made s host) {err : EquationError}
    (h : y.jacobian b memory = .error err) :
    ∃ before q after, y.rows = before ++ q :: after ∧ (∀ r ∈ before, r.isDifferentiable = true) ∧
      q.isDifferentiable = false ∧ err = .notDifferentiable q.text := by
  obtain ⟨before, q, after, hrows, hbefore, hq⟩ := exists_of_mapM_eq_error h
  have hcovers : ∀ r ∈ before ++ q :: after, r.Covers (OrderedMap.distinct y.vars) :=
    hrows ▸ hy.covers
  refine ⟨before, q, after, hrows, fun r hr => ?_, ?_⟩
  · obtain ⟨hr, -⟩ | ⟨-, herror⟩ :=
      gradient_cases b memory (hcovers r (List.mem_append_left _ hr))
    · exact hr
    · obtain ⟨xs, hxs⟩ := hbefore r hr
      cases herror.symm.trans hxs
  · obtain ⟨-, xs, hxs⟩ | ⟨hnot, herror⟩ :=
      gradient_cases b memory (hcovers q (by simp))
    · cases hxs.symm.trans hq
    · exact ⟨hnot, Except.error.inj (hq.symm.trans herror)⟩

/-- The matrix has the derivatives one by one, if there are variables or all equations have
derivatives. -/
theorem jacobian_eq_mapM (hy : y.Made s host) (hnodup : y.vars.Nodup)
    (h : y.isDifferentiable = true ∨ y.vars ≠ []) :
    y.jacobian b memory = y.rows.mapM fun q => y.vars.mapM (q.slopeBy b memory) := by
  refine mapM_congr fun q hq => ?_
  have hcovers := hy.covers q hq
  rw [OrderedMap.distinct_of_nodup hnodup] at hcovers
  exact gradient_eq_mapM hcovers (h.imp_left fun hall => List.all_eq_true.mp hall q hq)

/-- The entry of a row at the place of a variable is the derivative by it. -/
theorem slopeBy_eq_gradient {q : Equation ρ S α} (hq : q.Covers vars) {j : Nat} {v : Variable}
    (hv : vars[j]? = some v) :
    (q.slopeBy b memory v).map some = (q.gradient b memory).map (·[j]?) := by
  obtain ⟨hdifferentiable, xs, hxs⟩ | ⟨hnot, herror⟩ :=
    gradient_cases b memory hq
  · have hentries := hxs
    rw [gradient_eq_mapM hq (.inl hdifferentiable), mapM_eq_ok, List.forall₂_iff_get] at hentries
    obtain ⟨hlength, hentries⟩ := hentries
    obtain ⟨hj, rfl⟩ := List.getElem?_eq_some_iff.mp hv
    have hentry : q.slopeBy b memory vars[j] = .ok xs[j] := hentries j hj (hlength ▸ hj)
    rw [hxs, hentry, Except.map, Except.map, List.getElem?_eq_getElem]
  · rw [← hq.slopes, Option.isSome_eq_false_iff, Option.isNone_iff_eq_none] at hnot
    rw [slopeBy_of_not hnot, herror]
    rfl

/-- **A column is the column of the matrix,** or the same error. -/
theorem column_eq_jacobian (hy : y.Made s host) (hnodup : y.vars.Nodup) {j : Nat} {v : Variable}
    (hv : y.vars[j]? = some v) :
    (y.column b memory v).map (List.map some) = (y.jacobian b memory).map (List.map (·[j]?)) := by
  rw [column, jacobian, map_mapM, map_mapM]
  refine mapM_congr fun q hq => ?_
  have hcovers := hy.covers q hq
  rw [OrderedMap.distinct_of_nodup hnodup] at hcovers
  exact slopeBy_eq_gradient hcovers hv

/-- **Writing the matrix is collecting it,** if there are variables or all equations have
derivatives. -/
theorem jacobianInto_delivers (b : Backend ρ S α) (memory : S → α) (hy : y.Made s host)
    (hnodup : y.vars.Nodup) (h : y.isDifferentiable = true ∨ y.vars ≠ [])
    {places : List (List (Option α))} (hrows : places.length = y.size)
    (hcolumns : ∀ row ∈ places, row.length = y.vars.length) :
    Delivers (y.jacobian b memory) (y.jacobianInto b memory places) := by
  rw [jacobian_eq_mapM hy hnodup h, jacobianInto, if_pos hrows]
  exact fillRows_delivers b memory y.vars hrows hcolumns

end EquationSystem

open EquationSystem Attempt

/-- **The ways to the Jacobian agree, except that a system without variables is never
refused place by place.**  Take a system whose variables are distinct, at any moment, and
places of the right shape.  If the matrix is there, the places are filled with it.  If not,
the error is that of the first equation without derivatives; writing into the places ends
with the same error if there is a variable, and else ends well with nothing written.  And
the derivatives by the variable of a column are that column, or the same error. -/
theorem jacobian_paths {ρ S α σ : Type} [Scalar ρ] {s : Setting ρ S α} {host : Resolver σ S}
    {y : EquationSystem ρ S α} (hy : y.Made s host) (hnodup : y.vars.Nodup) (memory : S → α)
    {places : List (List (Option α))} (hrows : places.length = y.size)
    (hcolumns : ∀ row ∈ places, row.length = y.vars.length) :
    (∀ m, y.jacobian s.backend memory = .ok m →
      y.jacobianInto s.backend memory places = (.ok (), m)) ∧
    (∀ err, y.jacobian s.backend memory = .error err →
      (∃ before q after, y.rows = before ++ q :: after ∧
        (∀ r ∈ before, r.isDifferentiable = true) ∧ q.isDifferentiable = false ∧
        err = .notDifferentiable q.text) ∧
      (y.vars ≠ [] → (y.jacobianInto s.backend memory places).1 = .error err) ∧
      (y.vars = [] → y.jacobianInto s.backend memory places = (.ok (), places))) ∧
    ∀ (j : Nat) (v : Variable), y.vars[j]? = some v →
      (y.column s.backend memory v).map (List.map some) =
        (y.jacobian s.backend memory).map (List.map (·[j]?)) := by
  refine ⟨fun m hm => ?_,
    fun err herr => ⟨jacobian_eq_error hy herr, fun hvars => ?_, fun hvars => ?_⟩,
    fun j v hv => column_eq_jacobian hy hnodup hv⟩
  · have hall := (exists_jacobian_iff hy).mp ⟨m, hm⟩
    obtain ⟨houtcome, hresults⟩ :=
      jacobianInto_delivers s.backend memory hy hnodup (.inl hall) hrows hcolumns
    exact Prod.ext (houtcome.trans (by rw [hm]; rfl)) (hresults m hm)
  · have houtcome := (jacobianInto_delivers s.backend memory hy hnodup (.inr hvars) hrows
      hcolumns).outcome
    rw [houtcome, herr]
    rfl
  · rw [jacobianInto, if_pos hrows, hvars]
    exact fillRows_nil hrows (by rwa [hvars] at hcolumns)

/-- A variable alone is its only variable. -/
theorem Expr.vars_var {ρ : Type} [Scalar ρ] (v : Variable) : (Expr.var v : Expr ρ).vars = [v] := by
  rw [vars, occurrences_eq_leaves]
  rfl

/-- The equation of a variable. -/
def variableEquation {ρ : Type} [Scalar ρ] (text : String) (v : Variable) : Equation ρ Variable ρ :=
  ⟨text, .var v, [v], some (.single v .one), .read v, some (.single v (.value 1))⟩

/-- A variable alone comes out as its equation. -/
theorem ofExpr_var (text : String) (v : Variable) (asked : List Variable) :
    (Equation.ofExpr exactSetting (.recording some) text (.var v) [v] asked).1 =
      .ok (variableEquation text v : Equation ℝ Variable ℝ) := by
  have hderive : (Expr.var v : Expr ℝ).derive .builtin [v] = some (.single v .one) :=
    Expr.derive_variable (List.mem_singleton_self v)
  rw [Equation.ofExpr, exactSetting, hderive, Equation.fst_assemble (Resolver.steady_recording some)]
  simp only [Equation.translateSlopes, OrderedMap.get?_single, if_true]
  rfl

/-- The text `a` is a variable, unless `a` is a constant. -/
theorem parse_a {ρ : Type} [Scalar ρ] {constant? : String → Option ρ} (h : constant? "a" = none) :
    Expr.parse constant? "a" = .ok (.var (.named "a")) := by
  cbv
  rw [h]
  rfl

/-- The text `a` is read as a variable. -/
theorem read_a : Equation.read (exactSetting : Setting ℝ Variable ℝ) "a" =
    .ok (.var (.named "a")) :=
  mapError_eq_ok.mpr (parse_a constant?_a)

/-- The text `a<b` is a comparison, unless `a` or `b` is a constant. -/
theorem parse_comparison {ρ : Type} [Scalar ρ] {constant? : String → Option ρ}
    (ha : constant? "a" = none) (hb : constant? "b" = none) :
    Expr.parse constant? "a<b" = .ok (.binary .lt (.var (.named "a")) (.var (.named "b"))) := by
  cbv
  rw [ha, hb]
  rfl

/-- The text `a<b` is read as a comparison. -/
theorem read_comparison : Equation.read (exactSetting : Setting ℝ Variable ℝ) "a<b" =
    .ok (.binary .lt (.var (.named "a")) (.var (.named "b"))) :=
  mapError_eq_ok.mpr (parse_comparison constant?_a constant?_b)

/-- The system of the text `a`: its matrix is one, and so is what is written. -/
theorem identitySystem_paths :
    ∃ y : EquationSystem ℝ Variable ℝ, y.Made exactSetting (.recording some) ∧
      y.jacobian exactSetting.backend (fun _ => 5) = .ok [[some 1]] ∧
      y.jacobianInto exactSetting.backend (fun _ => 5) [[none]] = (.ok (), [[some 1]]) := by
  let a : Variable := .named "a"
  have hread : readAll (exactSetting : Setting ℝ Variable ℝ) ["a"] = .ok [("a", .var a)] := by
    rw [readAll, List.mapM_cons, read_a]
    rfl
  have hvars : unionOfVariables [(.var a : Expr ℝ)] = [a] := by
    rw [unionOfVariables, List.flatMap_singleton, Expr.vars_var]
    rfl
  let y : EquationSystem ℝ Variable ℝ := ⟨[variableEquation "a" a], [a]⟩
  have hmade : y.Made exactSetting (.recording some) := by
    refine ⟨["a"], [], .inl ?_⟩
    rw [ofTexts, fst_andThen, fst_ofExcept, hread]
    change (ofExprs exactSetting (.recording some) [("a", .var a)]
      (unionOfVariables [.var a]) []).1 = _
    rw [hvars, ofExprs, fst_andThen, each, fst_andThen, ofExpr_var]
    rfl
  have hjacobian : y.jacobian exactSetting.backend (fun _ => 5) = .ok [[some 1]] := rfl
  have hcolumns : ∀ row ∈ [[(none : Option ℝ)]], row.length = y.vars.length :=
    List.forall_mem_singleton.mpr rfl
  have hpaths := jacobian_paths hmade (List.nodup_singleton a) (fun _ => 5) rfl hcolumns
  exact ⟨y, hmade, hjacobian, hpaths.1 _ hjacobian⟩

/-- The system of `a<b` without variables: the matrix is refused, and writing it into a row
without places ends well. -/
theorem comparisonSystem_paths_part :
    ∃ y : EquationSystem ℝ Variable ℝ, y.Made exactSetting (.recording some) ∧ y.size = 1 ∧
      y.vars = [] ∧ ∀ memory,
        y.jacobian exactSetting.backend memory = .error (.notDifferentiable "a<b") ∧
        y.jacobianInto exactSetting.backend memory [[]] = (.ok (), [[]]) := by
  let comparison : Expr ℝ := .binary .lt (.var (.named "a")) (.var (.named "b"))
  have hread : readAll (exactSetting : Setting ℝ Variable ℝ) ["a<b"] =
      .ok [("a<b", comparison)] := by
    rw [readAll, List.mapM_cons, read_comparison]
    rfl
  have hderive : comparison.derive .builtin [] = none :=
    (Expr.derive_eq_derivatives ..).trans rfl
  refine ⟨⟨[⟨"a<b", comparison, [], none,
    .binary .lt (.read (.named "a")) (.read (.named "b")), none⟩], []⟩, ?_, rfl, rfl,
    fun memory => ⟨rfl, rfl⟩⟩
  refine ⟨["a<b"], [], .inr ⟨[], ?_⟩⟩
  rw [ofTextsBy, fst_andThen, fst_ofExcept, hread]
  change (ofExprs exactSetting (.recording some) [("a<b", comparison)] [] []).1 = _
  simp only [ofExprs, each, Equation.ofExpr, exactSetting, hderive]
  rfl

end CircuitExpr
