/-
# The variables of an equation

An equation may be differentiated by all variables of its expression or by a given list.
`derivatives_by_fewer` says that the list decides only which derivatives there are: one
that is asked for either way is the same, as a tree and as an evaluator.

Whether an equation comes out at all depends on the host.  With a steady host it comes
out if value and derivatives are buildable (`exists_assemble`), and a variable of the list
that the expression does not have adds the evaluator of zero.
-/

import Mathlib
import CircuitExpr.Proofs.BuildableDerivatives
import CircuitExpr.Proofs.FewerVariables

namespace CircuitExpr

/-! ### Attempts and their outcomes -/

namespace Attempt

variable {ε ε' σ β γ : Type}

/-- What follows on an attempt has its outcome after that of the attempt. -/
theorem fst_andThen (x : Attempt ε σ β) (f : β → Attempt ε σ γ) (state : σ) :
    (andThen x f state).1 = (x state).1.bind fun b => (f b (x state).2).1 := by
  unfold andThen
  rcases x state with ⟨_ | b, state'⟩ <;> rfl

/-- An outcome that needs no state is the outcome. -/
theorem fst_ofExcept (x : Except ε β) (state : σ) : (ofExcept x state).1 = x := rfl

/-- The error of an attempt is put into another, and nothing else changes. -/
theorem fst_mapError (f : ε → ε') (x : Attempt ε σ β) (state : σ) :
    (mapError f x state).1 = (x state).1.mapError f := by
  unfold mapError
  rcases x state with ⟨_ | b, state'⟩ <;> rfl

end Attempt

/-- Putting an error into another changes no result. -/
theorem mapError_eq_ok {ε ε' β : Type} {f : ε → ε'} {x : Except ε β} {b : β} :
    x.mapError f = .ok b ↔ x = .ok b := by
  cases x <;> simp [Except.mapError]

/-- A mapped outcome is a result if the outcome is one. -/
theorem map_eq_ok {ε β γ : Type} {f : β → γ} {x : Except ε β} {y : γ} :
    x.map f = .ok y ↔ ∃ b, x = .ok b ∧ f b = y := by
  cases x <;> simp [Except.map]

namespace Equation

open Attempt

variable {ρ S α σ : Type} [Scalar ρ] {s : Setting ρ S α} {host : Resolver σ S}

/-- Without derivatives, the evaluator of the value is all that is built. -/
theorem assemble_none_eq_ok {text : String} {e : Expr ρ} {vars : List Variable} {state : σ}
    {q : Equation ρ S α} :
    (assemble s host text e vars none state).1 = .ok q ↔
      ∃ value, (Evaluator.build s host e state).1 = .ok value ∧
        (⟨text, e, vars, none, value, none⟩ : Equation ρ S α) = q := by
  rw [assemble, fst_mapError, mapError_eq_ok, fst_andThen]
  exact bind_eq_ok.trans (by simp only [Attempt.done, Except.ok.injEq])

/-- With derivatives, their evaluators are built where the value left the host. -/
theorem assemble_some_eq_ok {text : String} {e : Expr ρ} {vars : List Variable}
    {ds : Derivatives ρ} {state : σ} {q : Equation ρ S α} :
    (assemble s host text e vars (some ds) state).1 = .ok q ↔
      ∃ value slopes, (Evaluator.build s host e state).1 = .ok value ∧
        (buildSlopes s host ds vars .empty (Evaluator.build s host e state).2).1 = .ok slopes ∧
        (⟨text, e, vars, some ds, value, some slopes⟩ : Equation ρ S α) = q := by
  rw [assemble, fst_mapError, mapError_eq_ok, fst_andThen]
  refine bind_eq_ok.trans (exists_congr fun value => ?_)
  rw [exists_and_left, fst_andThen]
  exact and_congr_right fun _ => bind_eq_ok.trans (by simp only [Attempt.done, Except.ok.injEq])

/-- An equation has the variables and the derivatives from which it was put together. -/
theorem assemble_eq_ok {text : String} {e : Expr ρ} {vars : List Variable}
    {ds : Option (Derivatives ρ)} {state : σ} {q : Equation ρ S α}
    (h : (assemble s host text e vars ds state).1 = .ok q) : q.vars = vars ∧ q.derivatives = ds := by
  cases ds with
  | none =>
    obtain ⟨value, -, rfl⟩ := assemble_none_eq_ok.mp h
    exact ⟨rfl, rfl⟩
  | some ds =>
    obtain ⟨value, slopes, -, -, rfl⟩ := assemble_some_eq_ok.mp h
    exact ⟨rfl, rfl⟩

/-- The equation of a text is assembled from what is read. -/
theorem ofText_eq (text : String) (state : σ) {e : Expr ρ} (he : read s text = .ok e) :
    (ofText s host text state).1 =
      (assemble s host text e e.vars (e.derive s.vocabulary e.vars) state).1 := by
  rw [ofText, fst_andThen, fst_ofExcept, he]
  rfl

/-- The equation of a text with given variables is assembled from what is read. -/
theorem ofTextBy_eq (text : String) (vars : List Variable) (state : σ) {e : Expr ρ}
    (he : read s text = .ok e) :
    (ofTextBy s host vars text state).1 =
      (assemble s host text e vars (e.derive s.vocabulary vars) state).1 := by
  rw [ofTextBy, fst_andThen, fst_ofExcept, he]
  rfl

/-- An equation comes from a text that can be read. -/
theorem exists_read_of_ofText {text : String} {state : σ} {q : Equation ρ S α}
    (h : (ofText s host text state).1 = .ok q) : ∃ e, read s text = .ok e := by
  rw [ofText, fst_andThen] at h
  obtain ⟨e, he, -⟩ := bind_eq_ok.mp h
  exact ⟨e, he⟩

/-! ### Evaluators of derivatives -/

variable {source? : Variable → Option S}

/-- The evaluators of the derivatives by some variables, one after the other. -/
def translateSlopes (s : Setting ρ S α) (source? : Variable → Option S) (ds : Derivatives ρ) :
    List Variable → OrderedMap Variable (Evaluator ρ S α) →
      Except BuildError (OrderedMap Variable (Evaluator ρ S α))
  | [], built => .ok built
  | v :: vs, built => do
    let slope ← Evaluator.translate s source? (Vocabulary.orZero (ds.get? v))
    translateSlopes s source? ds vs (built.insert v slope)

/-- At a steady host, derivatives are built as they are translated. -/
theorem fst_buildSlopes (hhost : host.Steady source?) (ds : Derivatives ρ) (vs : List Variable)
    (built : OrderedMap Variable (Evaluator ρ S α)) (state : σ) :
    (buildSlopes s host ds vs built state).1 = translateSlopes s source? ds vs built := by
  induction vs generalizing built state with
  | nil => rfl
  | cons v vs ih =>
    rw [buildSlopes, fst_andThen, Evaluator.build_eq_translate hhost, translateSlopes]
    exact congrArg _ (funext fun slope => ih _ _)

/-- **With a steady host an equation comes out if its parts are translated.** -/
theorem fst_assemble (hhost : host.Steady source?) (text : String) (e : Expr ρ)
    (vars : List Variable) (ds : Derivatives ρ) (state : σ) :
    (assemble s host text e vars (some ds) state).1 =
      (do
        let value ← Evaluator.translate s source? e
        let slopes ← translateSlopes s source? ds vars .empty
        return (⟨text, e, vars, some ds, value, some slopes⟩ : Equation ρ S α)).mapError .build := by
  rw [assemble, fst_mapError, fst_andThen, Evaluator.build_eq_translate hhost]
  refine congrArg _ (congrArg _ (funext fun value => ?_))
  rw [fst_andThen, fst_buildSlopes hhost]
  rfl

/-- With a steady host, what was built is what was translated. -/
theorem assemble_steady_eq_ok (hhost : host.Steady source?) {text : String} {e : Expr ρ}
    {vars : List Variable} {ds : Derivatives ρ} {state : σ} {q : Equation ρ S α} :
    (assemble s host text e vars (some ds) state).1 = .ok q ↔
      ∃ value slopes, Evaluator.translate s source? e = .ok value ∧
        translateSlopes s source? ds vars .empty = .ok slopes ∧
        (⟨text, e, vars, some ds, value, some slopes⟩ : Equation ρ S α) = q := by
  simp only [assemble_some_eq_ok, Evaluator.build_eq_translate hhost, fst_buildSlopes hhost]

/-- Each variable has the evaluator of its derivative. -/
theorem get?_of_buildSlopes {ds : Derivatives ρ} {vs : List Variable}
    {built slopes : OrderedMap Variable (Evaluator ρ S α)} {state : σ}
    (h : (buildSlopes s host ds vs built state).1 = .ok slopes) (v : Variable) :
    (v ∈ vs → ∃ x state', (Evaluator.build s host (Vocabulary.orZero (ds.get? v)) state').1 = .ok x ∧
      slopes.get? v = some x) ∧ (v ∉ vs → slopes.get? v = built.get? v) := by
  induction vs generalizing built state with
  | nil =>
    obtain rfl := Except.ok.inj h
    exact ⟨nofun, fun _ => rfl⟩
  | cons u vs ih =>
    rw [buildSlopes, fst_andThen] at h
    obtain ⟨slope, hslope, h⟩ := bind_eq_ok.mp h
    obtain ⟨hmem, hnot⟩ := ih h
    by_cases hv : v ∈ vs
    · exact ⟨fun _ => hmem hv, fun hnv => absurd (List.mem_cons_of_mem u hv) hnv⟩
    · rw [hnot hv, OrderedMap.get?_insert]
      constructor
      · intro h
        obtain rfl : v = u := (List.mem_cons.mp h).resolve_right hv
        exact ⟨slope, state, hslope, if_pos rfl⟩
      · intro h
        exact if_neg fun heq : u = v => h (heq ▸ List.mem_cons_self)

/-- Each of the variables has the translation of its derivative, and other keys keep what they
had. -/
theorem get?_of_translateSlopes {ds : Derivatives ρ} {vs : List Variable}
    {built slopes : OrderedMap Variable (Evaluator ρ S α)}
    (h : translateSlopes s source? ds vs built = .ok slopes) (v : Variable) :
    (v ∈ vs → ∃ x, Evaluator.translate s source? (Vocabulary.orZero (ds.get? v)) = .ok x ∧
      slopes.get? v = some x) ∧ (v ∉ vs → slopes.get? v = built.get? v) := by
  have hhost := Resolver.steady_recording source?
  rw [← fst_buildSlopes hhost ds vs built []] at h
  obtain ⟨hmem, hnot⟩ := get?_of_buildSlopes h v
  refine ⟨fun hv => ?_, hnot⟩
  obtain ⟨x, state, hx, hfound⟩ := hmem hv
  rw [Evaluator.build_eq_translate hhost] at hx
  exact ⟨x, hx, hfound⟩

/-- If all derivatives can be built, they are translated. -/
theorem exists_translateSlopes {ds : Derivatives ρ} {vs : List Variable}
    (h : ∀ v ∈ vs, Expr.Buildable s source? (Vocabulary.orZero (ds.get? v)))
    (built : OrderedMap Variable (Evaluator ρ S α)) :
    ∃ slopes, translateSlopes s source? ds vs built = .ok slopes := by
  induction vs generalizing built with
  | nil => exact ⟨built, rfl⟩
  | cons v vs ih =>
    obtain ⟨x, hx⟩ := h v List.mem_cons_self
    obtain ⟨slopes, hslopes⟩ := ih (fun u hu => h u (List.mem_cons_of_mem _ hu)) (built.insert v x)
    exact ⟨slopes, bind_eq_ok.mpr ⟨x, hx, hslopes⟩⟩

/-- An equation comes out if the expression and the derivatives by its variables are
buildable. -/
theorem exists_assemble (hhost : host.Steady source?) {e : Expr ρ}
    (hvalue : e.Buildable s source?) {ds : Derivatives ρ} {vars : List Variable}
    (hslopes : ∀ v ∈ vars, Expr.Buildable s source? (Vocabulary.orZero (ds.get? v)))
    (text : String) (state : σ) :
    ∃ q, (assemble s host text e vars (some ds) state).1 = .ok q ∧
      ∃ slopes, q.slopes = some slopes ∧ translateSlopes s source? ds vars .empty = .ok slopes := by
  obtain ⟨value, hvalue⟩ := hvalue
  obtain ⟨slopes, hslopes⟩ := exists_translateSlopes hslopes .empty
  exact ⟨⟨text, e, vars, some ds, value, some slopes⟩,
    (assemble_steady_eq_ok hhost).mpr ⟨value, slopes, hvalue, hslopes, rfl⟩, slopes, rfl, hslopes⟩

omit [Scalar ρ] in
/-- A derivative that was built is found. -/
theorem derivativeBy_eq_ok {q : Equation ρ S α} {slopes : OrderedMap Variable (Evaluator ρ S α)}
    (hslopes : q.slopes = some slopes) {v : Variable} {x : Evaluator ρ S α}
    (hx : slopes.get? v = some x) : q.derivativeBy v = .ok x := by
  rw [derivativeBy, hslopes]
  simp only [hx]

/-- An equation of a text by other variables, as far as they are variables of the text. -/
theorem exists_ofTextBy (hhost : host.Steady source?) {text : String} {e : Expr ρ}
    (he : read s text = .ok e) {ds : Derivatives ρ}
    (hds : e.derive s.vocabulary e.vars = some ds) {vars : List Variable}
    (hby : e.derive s.vocabulary vars = some (ds.by vars)) {state state' : σ} {q : Equation ρ S α}
    (hq : (ofText s host text state).1 = .ok q) :
    ∃ q', (ofTextBy s host vars text state').1 = .ok q' ∧
      ∀ v ∈ vars, v ∈ q.vars → ∃ x, q.derivativeBy v = .ok x ∧ q'.derivativeBy v = .ok x := by
  rw [ofText_eq text state he, hds] at hq
  obtain ⟨value, slopes, hvalue, hslopes, rfl⟩ := (assemble_steady_eq_ok hhost).mp hq
  have hget {v : Variable} (hv : v ∈ vars) : (ds.by vars).get? v = ds.get? v := by
    rw [Derivatives.by, OrderedMap.get?_keep_of, if_pos (decide_eq_true hv)]
  -- A variable that the expression does not have has no derivative by any list.
  have hnone {v : Variable} (hv : v ∉ e.vars) : ds.get? v = none := by
    have hself : ds = ds.by e.vars :=
      Option.some.inj (hds.symm.trans (Expr.deriveWith_by (fun _ _ h => h) hds))
    rw [hself, Derivatives.by, OrderedMap.get?_keep_of, if_neg (by simpa using hv)]
  have hbuildable : ∀ v ∈ vars,
      Expr.Buildable s source? (Vocabulary.orZero ((ds.by vars).get? v)) := by
    intro v hv
    rw [hget hv]
    by_cases hmem : v ∈ e.vars
    · obtain ⟨x, hx, -⟩ := (get?_of_translateSlopes hslopes v).1 hmem
      exact ⟨x, hx⟩
    · rw [hnone hmem]
      exact ⟨_, rfl⟩
  obtain ⟨q', hq', slopes', hslopes', htranslated⟩ :=
    exists_assemble hhost ⟨value, hvalue⟩ hbuildable text state'
  refine ⟨q', ?_, ?_⟩
  · rw [ofTextBy_eq text vars state' he, hby, hq']
  · intro v hv hmem
    obtain ⟨x, hx, hfound⟩ := (get?_of_translateSlopes hslopes v).1 hmem
    obtain ⟨x', hx', hfound'⟩ := (get?_of_translateSlopes htranslated v).1 hv
    rw [hget hv, hx] at hx'
    obtain rfl := Except.ok.inj hx'
    exact ⟨x, derivativeBy_eq_ok rfl hfound, derivativeBy_eq_ok hslopes' hfound'⟩

end Equation

/-- **Fewer variables only drop derivatives.**  If a tree has derivatives by many
variables, its derivatives by few of them are these, the entries of other variables
removed.  So an equation with a list of variables has, by each variable of the list that
the expression has, the derivative of the equation by all variables: as a tree with any
host, and as an evaluator with a steady one. -/
theorem derivatives_by_fewer {ρ : Type} [Scalar ρ] :
    (∀ (w : Vocabulary ρ) (mix : Hasher ρ) (e : Expr ρ) (many few : List Variable)
      (ds : Derivatives ρ), few ⊆ many → e.deriveWith mix w many = some ds →
      ∃ ds', e.deriveWith mix w few = some ds' ∧
        ds'.entries = ds.entries.filter fun entry => decide (entry.1 ∈ few)) ∧
    ∀ {S α σ : Type} (s : Setting ρ S α) (host : Resolver σ S) (text : String)
      (vars : List Variable) (state state' : σ) (q : Equation ρ S α) (ds : Derivatives ρ),
      (Equation.ofText s host text state).1 = .ok q → q.derivatives = some ds →
      (∀ q', (Equation.ofTextBy s host vars text state').1 = .ok q' →
        ∃ ds', q'.derivatives = some ds' ∧ ∀ v ∈ vars, ds'.get? v = ds.get? v) ∧
      ∀ source?, host.Steady source? →
        ∃ q', (Equation.ofTextBy s host vars text state').1 = .ok q' ∧
          ∀ v ∈ vars, v ∈ q.vars →
            ∃ x, q.derivativeBy v = .ok x ∧ q'.derivativeBy v = .ok x := by
  constructor
  · intro w mix e many few ds hsubset hds
    exact ⟨ds.by few, Expr.deriveWith_by (fun v _ hv => hsubset hv) hds, rfl⟩
  · intro S α σ s host text vars state state' q ds hq hqds
    obtain ⟨e, he⟩ := Equation.exists_read_of_ofText hq
    have hds : e.derive s.vocabulary e.vars = some ds := by
      rw [Equation.ofText_eq text state he] at hq
      exact (Equation.assemble_eq_ok hq).2.symm.trans hqds
    have hby : e.derive s.vocabulary vars = some (ds.by vars) := by
      refine Expr.deriveWith_by (fun v hv _ => ?_) hds
      rw [Expr.vars, OrderedMap.mem_distinct, Expr.occurrences_eq_leaves]
      exact hv
    constructor
    · intro q' hq'
      rw [Equation.ofTextBy_eq text vars state' he] at hq'
      refine ⟨ds.by vars, (Equation.assemble_eq_ok hq').2.trans hby, fun v hv => ?_⟩
      rw [Derivatives.by, OrderedMap.get?_keep_of, if_pos (decide_eq_true hv)]
    · intro source? hhost
      exact Equation.exists_ofTextBy hhost he hds hby hq

/-- No built-in constant is called `a`. -/
theorem constant?_a {ρ : Type} [Scalar ρ] :
    (Vocabulary.builtin : Vocabulary ρ).constant? "a" = none :=
  Vocabulary.builtin_constant?_eq_none.mpr (by decide +kernel)

/-- No built-in constant is called `b`. -/
theorem constant?_b {ρ : Type} [Scalar ρ] :
    (Vocabulary.builtin : Vocabulary ρ).constant? "b" = none :=
  Vocabulary.builtin_constant?_eq_none.mpr (by decide +kernel)

/-- The text `a*b` is a product, unless `a` or `b` is a constant. -/
theorem parse_product {ρ : Type} [Scalar ρ] {constant? : String → Option ρ}
    (ha : constant? "a" = none) (hb : constant? "b" = none) :
    Expr.parse constant? "a*b" = .ok (.binary .mul (.var (.named "a")) (.var (.named "b"))) := by
  cbv
  rw [ha, hb]
  rfl

/-- The product of `a` and `b`, by its own variables and by `b` and an absent one. -/
theorem productEquation_by_fewer :
    ∃ (ds : Derivatives ℝ) (q q' : Equation ℝ Variable ℝ) (x : Evaluator ℝ Variable ℝ),
      (Equation.ofText exactSetting (fun v n => (some v, n + 1)) "a*b" (0 : Nat)).1 = .ok q ∧
      q.derivatives = some ds ∧
      (Equation.ofTextBy exactSetting (fun v n => (some v, n + 1)) [.named "b", .named "c"]
        "a*b" (0 : Nat)).1 = .ok q' ∧
      q.derivativeBy (.named "b") = .ok x ∧ q'.derivativeBy (.named "b") = .ok x := by
  let host : Resolver Nat Variable := fun v n => (some v, n + 1)
  let product : Expr ℝ := .binary .mul (.var (.named "a")) (.var (.named "b"))
  have hhost : host.Steady some := fun _ _ => rfl
  have hread : Equation.read (exactSetting : Setting ℝ Variable ℝ) "a*b" = .ok product :=
    mapError_eq_ok.mpr (parse_product constant?_a constant?_b)
  have hvars : product.vars = [.named "a", .named "b"] := by
    rw [Expr.vars, Expr.occurrences_eq_leaves]
    decide
  have hbuildable : product.Buildable exactSetting (some : Variable → Option Variable) := ⟨_, rfl⟩
  obtain ⟨ds, hds⟩ : ∃ ds, product.derivatives .builtin product.vars = some ds := ⟨_, rfl⟩
  have hderive : product.derive .builtin product.vars = some ds :=
    (Expr.derive_eq_derivatives ..).trans hds
  obtain ⟨q, hq, -⟩ := Equation.exists_assemble hhost hbuildable
    (fun v _ => Expr.buildable_derivatives hbuildable hds v) "a*b" (0 : Nat)
  obtain ⟨hqvars, hqds⟩ := Equation.assemble_eq_ok hq
  rw [← hderive] at hq
  replace hq := (Equation.ofText_eq "a*b" (0 : Nat) hread).trans hq
  obtain ⟨q', hq', hsame⟩ := (derivatives_by_fewer.2 exactSetting host "a*b"
    [.named "b", .named "c"] 0 0 q ds hq hqds).2 some hhost
  obtain ⟨x, hx, hx'⟩ := hsame (.named "b") (by decide) (by rw [hqvars, hvars]; decide)
  exact ⟨ds, q, q', x, hq, hqds, hq', hx, hx'⟩

end CircuitExpr
