/-
# Which variables have an entry

Differentiating a tree comes to some of its variables: not to those in a condition, nor to
those under a function that is constant in pieces.  `Expr.reached` lists them as they stand
from left to right.  The derivatives have an entry for each of them that is wanted, in the
order in which they are met first (`keys_derive`), and also where the derivative folds
to zero.

Each way to combine maps lists the keys of one map after those of another, each where it
comes first (`keys_plus`, `keys_chain`, `keys_ofKeys`).  A rule must not lose a variable on
the way: it leaves out partial derivatives by constants only, and has a derivative by a
variable if an argument has one (`Rule.Complete`).
-/

import Mathlib
import CircuitExpr.Proofs.Differentiability
import CircuitExpr.Proofs.KeptVariables

namespace CircuitExpr

open CircuitExpr.Expr (Alike)

/-! ### Keys -/

namespace Derivatives

open OrderedMap

variable {ρ : Type} [Scalar ρ]

/-- Adding a term brings its variable, unless that is there. -/
theorem keys_addTerm (ds : Derivatives ρ) (v : Variable) (term : Expr ρ) :
    (ds.addTerm v term).keys = distinct (ds.keys ++ [v]) := by
  unfold addTerm
  split <;> exact keys_insert_eq_distinct ..

/-- **The keys of the second map come after those of the first.** -/
theorem keys_plus (ds es : Derivatives ρ) : (ds.plus es).keys = distinct (ds.keys ++ es.keys) := by
  have h (l : List (Variable × Expr ρ)) (ds : Derivatives ρ) :
      (l.foldl (fun acc e => acc.addTerm e.1 e.2) ds).keys =
        distinct (ds.keys ++ l.map Prod.fst) := by
    induction l generalizing ds with
    | nil => rw [List.map_nil, List.append_nil, distinct_keys, List.foldl_nil]
    | cons e l ih =>
      rw [List.foldl_cons, ih, keys_addTerm, distinct_distinct_append, List.append_assoc]
      rfl
  exact h es.entries ds

/-- A sum has the variables of its terms. -/
theorem keys_sum (maps : List (Derivatives ρ)) : (sum maps).keys = vars maps := by
  induction maps using List.reverseRecOn with
  | nil => rfl
  | append_singleton maps m ih =>
    rw [vars, List.flatMap_append, List.flatMap_singleton, ← distinct_distinct_append]
    rw [vars] at ih
    rw [← ih, ← keys_plus, sum, List.foldl_append]
    rfl

omit [Scalar ρ] in
/-- The variables of some maps are listed once each. -/
theorem distinct_vars (maps : List (Derivatives ρ)) : distinct (vars maps) = vars maps :=
  distinct_of_nodup (nodup_distinct _)

omit [Scalar ρ] in
/-- Those of a single map are its keys. -/
theorem vars_singleton (m : Derivatives ρ) : vars [m] = m.keys := by
  rw [vars, List.flatMap_singleton, distinct_keys]

/-- A choice has the variables of both branches. -/
theorem keys_ofConditional (c : Expr ρ) (dt df : Derivatives ρ) :
    (Derivative.ofConditional c dt df).keys = vars [dt, df] := by
  rw [Derivative.ofConditional, keys_ofKeys fun v _ => Option.some_ne_none _, distinct_vars]

/-- The chain rule keeps the keys of all maps if a partial derivative is missing only where
there are no keys. -/
theorem keys_chain {terms : List (Option (Expr ρ) × Derivatives ρ)}
    (hterms : ∀ t ∈ terms, t.1 = none → t.2 = .empty) :
    (chain terms).keys = vars (terms.map Prod.snd) := by
  rw [chain, keys_sum, vars, vars]
  congr 1
  induction terms with
  | nil => rfl
  | cons t terms ih =>
    rw [List.map_cons, List.flatMap_cons, ← ih fun t ht => hterms t (List.mem_cons_of_mem _ ht),
      List.filterMap_cons]
    cases ht : t.1 with
    | none =>
      rw [hterms t List.mem_cons_self ht]
      rfl
    | some partialBy => rw [Option.map_some, List.flatMap_cons, keys_map]

end Derivatives

/-! ### Rules -/

section Rules

variable {ρ : Type}

/-- By a rule for this number of arguments there is a derivative by each variable that there
is one of an argument by: no partial derivative is missing, unless it is by a constant. -/
def Rule.Complete (arity : Nat) : Rule ρ → Prop
  | .constant => True
  | .partials f => ∀ xs, xs.length = arity →
    List.Forall₂ (fun x p => p = none → x.asConstant? ≠ none) xs (f xs)
  | .direct f => ∀ xs ds, xs.length = arity → ds.length = arity → (∃ d ∈ ds, d ≠ none) →
    f xs ds ≠ none

namespace Derivative

open Derivatives

/-- Where a partial derivative is missing there are no derivatives. -/
theorem forall₂_zip_of_complete {xs : List (Expr ρ)} {ps : List (Option (Expr ρ))}
    (hps : List.Forall₂ (fun x p => p = none → x.asConstant? ≠ none) xs ps)
    {maps : List (Derivatives ρ)} (hflat : ConstantsFlat xs maps) :
    (ps.zip maps).map Prod.snd = maps ∧ ∀ t ∈ ps.zip maps, t.1 = none → t.2 = .empty := by
  induction hps generalizing maps with
  | nil =>
    cases hflat
    exact ⟨rfl, nofun⟩
  | cons hp _ ih =>
    cases hflat with
    | cons hm hflat =>
      obtain ⟨hsnd, hempty⟩ := ih hflat
      refine ⟨congrArg _ hsnd, fun t ht hnone => ?_⟩
      obtain rfl | ht := List.mem_cons.mp ht
      · exact hm (hp hnone)
      · exact hempty t ht hnone

/-- A call has the variables of its arguments if the rule leaves out no partial derivative but by
constants. -/
theorem keys_ofCall [Scalar ρ] {rule : Rule ρ} {args : List (Expr ρ)}
    (hrule : rule.Complete args.length) (hconstant : rule ≠ .constant)
    {maps : List (Derivatives ρ)} (hflat : ConstantsFlat args maps) {ds : Derivatives ρ}
    (h : ofCall (some rule) args maps = some ds) : ds.keys = vars maps := by
  cases rule with
  | constant => exact absurd rfl hconstant
  | partials f =>
    obtain rfl := Option.some.inj h
    obtain ⟨hsnd, hempty⟩ := forall₂_zip_of_complete (hrule args rfl) hflat
    rw [keys_chain hempty, hsnd]
  | direct f =>
    obtain rfl := Option.some.inj h
    rw [ofDirect, OrderedMap.keys_ofKeys, distinct_vars]
    intro v hv
    obtain ⟨m, hm, hkey⟩ := List.mem_flatMap.mp (OrderedMap.mem_distinct.mp hv)
    refine hrule args _ rfl ?_ ⟨m.get? v, List.mem_map_of_mem hm, ?_⟩
    · rw [List.length_map, List.Forall₂.length_eq hflat]
    · exact Option.isSome_iff_ne_none.mp ((OrderedMap.contains_iff m v).mpr hkey)

end Derivative

namespace Vocabulary

/-- The names of the functions that are constant in pieces. -/
def roundingNames : List String := ["sgn", "floor", "ceil", "round", "trunc"]

end Vocabulary

namespace NamedFunction

open Vocabulary (roundingNames)

/-- The function has a rule that misses no variable; it has no derivatives, whatever the
arguments, if it is constant in pieces. -/
def KeepsVariables (f : NamedFunction ρ) : Prop :=
  ∃ rule, f.derivative = some rule ∧ rule.Complete f.arity ∧
    (rule = .constant ↔ f.name ∈ roundingNames)

variable {name : String} {real : Option (Implementation ρ ρ)}
  {complex : Option (Implementation ρ (Complex ρ))}

/-- A function of one argument keeps variables: its chain rule has a factor. -/
theorem keepsVariables_unary {f : ρ → ρ} {g : Complex ρ → Complex ρ} {derivative : Expr ρ → Expr ρ}
    (hname : name ∉ roundingNames) : (unary name f g derivative).KeepsVariables := by
  refine ⟨_, rfl, fun xs hxs => ?_, iff_of_false nofun hname⟩
  obtain ⟨x, rfl⟩ := List.length_eq_one_iff.mp hxs
  exact .cons nofun .nil

/-- A function that rounds may drop them. -/
theorem keepsVariables_rounding [Scalar ρ] {f : ρ → ρ} (hname : name ∈ roundingNames) :
    (Vocabulary.piecewiseConstant name f).KeepsVariables :=
  ⟨_, rfl, trivial, iff_of_true rfl hname⟩

/-- A function of two arguments by partial derivatives. -/
theorem keepsVariables_two {f : List (Expr ρ) → List (Option (Expr ρ))}
    (hname : name ∉ roundingNames)
    (hf : ∀ x y, List.Forall₂ (fun x p => p = none → x.asConstant? ≠ none) [x, y] (f [x, y])) :
    (⟨name, 2, real, complex, some (.partials f)⟩ : NamedFunction ρ).KeepsVariables := by
  refine ⟨_, rfl, fun xs hxs => ?_, iff_of_false nofun hname⟩
  obtain ⟨x, y, rfl⟩ := List.length_eq_two.mp hxs
  exact hf x y

/-- The smaller and the larger of two arguments keep variables. -/
theorem keepsVariables_selectBy [Scalar ρ] {op : BinaryOp} (hname : name ∉ roundingNames) :
    (⟨name, 2, real, complex, some (.direct (Vocabulary.selectBy op))⟩ :
      NamedFunction ρ).KeepsVariables := by
  refine ⟨_, rfl, fun xs ds hxs hds _ => ?_, iff_of_false nofun hname⟩
  obtain ⟨x, y, rfl⟩ := List.length_eq_two.mp hxs
  obtain ⟨d, e, rfl⟩ := List.length_eq_two.mp hds
  exact nofun

/-- A limited value keeps the variables of its arguments. -/
theorem keepsVariables_limit [Scalar ρ] : (Vocabulary.limit : NamedFunction ρ).KeepsVariables := by
  have hname : "limit" ∉ roundingNames := by decide
  refine ⟨_, rfl, fun xs ds hxs hds _ => ?_, iff_of_false nofun hname⟩
  obtain ⟨x, y, z, rfl⟩ := List.length_eq_three.mp hxs
  obtain ⟨d, e, f, rfl⟩ := List.length_eq_three.mp hds
  exact nofun

/-- The operators in time keep the variables of the argument. -/
theorem keepsVariables_linearInTime (hname : name ∉ roundingNames) :
    (Vocabulary.linearInTime name : NamedFunction ρ).KeepsVariables := by
  refine ⟨_, rfl, fun xs ds _ hds hsome => ?_, iff_of_false nofun hname⟩
  obtain ⟨d, rfl⟩ := List.length_eq_one_iff.mp hds
  obtain ⟨x, hx⟩ := Option.ne_none_iff_exists'.mp (by simpa using hsome)
  rw [hx]
  exact nofun

end NamedFunction

namespace Vocabulary

variable [Scalar ρ]

/-- A partial derivative by the exponent is missing only if that is a constant. -/
theorem complete_powerPartials (f g : Expr ρ) :
    List.Forall₂ (fun x p => p = none → x.asConstant? ≠ none) [f, g] (powerPartials f g) := by
  refine .cons nofun (.cons ?_ .nil)
  unfold powerByExponent
  cases g.asConstant? <;> simp

/-- The power of the absolute value leaves out partial derivatives by constants only. -/
theorem complete_signedPowerPartials (f g : Expr ρ) :
    List.Forall₂ (fun x p => p = none → x.asConstant? ≠ none) [f, g] (signedPowerPartials f g) := by
  refine .cons nofun (.cons ?_ .nil)
  cases g.asConstant? <;> simp

/-- The distance leaves out no partial derivative. -/
theorem complete_hypotPartials (x y : Expr ρ) :
    List.Forall₂ (fun x p => p = none → x.asConstant? ≠ none) [x, y] (hypotPartials [x, y]) :=
  .cons nofun (.cons nofun .nil)

/-- The angle leaves out no partial derivative. -/
theorem complete_atan2Partials (y x : Expr ρ) :
    List.Forall₂ (fun x p => p = none → x.asConstant? ≠ none) [y, x] (atan2Partials [y, x]) :=
  .cons nofun (.cons nofun .nil)

/-- **No built-in function loses a variable,** except those that are constant in pieces. -/
theorem keepsVariables_of_mem_builtinFunctions {f : NamedFunction ρ} (hf : f ∈ builtinFunctions) :
    f.KeepsVariables := by
  revert f
  simp only [builtinFunctions, roundings, List.cons_append, List.nil_append,
    List.forall_mem_cons]
  and_intros
  all_goals first
    | exact NamedFunction.keepsVariables_unary (by decide)
    | exact NamedFunction.keepsVariables_rounding (by decide)
    | exact NamedFunction.keepsVariables_selectBy (by decide)
    | exact NamedFunction.keepsVariables_limit
    | exact NamedFunction.keepsVariables_linearInTime (by decide)
    | exact NamedFunction.keepsVariables_two (by decide) complete_powerPartials
    | exact NamedFunction.keepsVariables_two (by decide) complete_signedPowerPartials
    | exact NamedFunction.keepsVariables_two (by decide) complete_hypotPartials
    | exact NamedFunction.keepsVariables_two (by decide) complete_atan2Partials
    | exact List.forall_mem_nil _

end Vocabulary

/-! ### Trees -/

namespace Expr

mutual

/-- The variables that differentiating the tree comes to, as they stand from left to right. -/
def reached : Expr ρ → List Variable
  | .constant _ | .unary .not _ => []
  | .var v => [v]
  | .unary _ x => reached x
  | .binary op x y => if op.isBoolean then [] else reached x ++ reached y
  | .call name args =>
    if Text.lowercase name ∈ Vocabulary.roundingNames then [] else reachedAll args
  | .conditional _ t f => reached t ++ reached f

/-- The variables that differentiating some trees comes to. -/
def reachedAll : List (Expr ρ) → List Variable
  | [] => []
  | x :: xs => reached x ++ reachedAll xs

end

/-- Does the tree call a function that is constant in pieces? -/
def rounds : Expr ρ → Bool
  | .call name _ => decide (Text.lowercase name ∈ Vocabulary.roundingNames)
  | _ => false

/-- The variables that a tree comes to are those that its operands come to, unless it rounds
them. -/
theorem reached_eq (e : Expr ρ) :
    e.reached = if e.rounds then [] else e.operands.flatMap reached ++ e.asVariable?.toList := by
  have hall (es : List (Expr ρ)) : reachedAll es = es.flatMap reached := by
    induction es with
    | nil => rfl
    | cons e es ih => rw [reachedAll, ih, List.flatMap_cons]
  cases e with
  | unary op x => cases op <;> simp [reached, rounds, operands, asVariable?]
  | binary op x y =>
    cases hop : op.isBoolean <;> simp [reached, rounds, operands, asVariable?, hop]
  | call name args => simp [reached, rounds, operands, asVariable?, hall]
  | _ => simp [reached, rounds, operands, asVariable?]

variable [Scalar ρ]

/-- Trees that are alike both round, or neither does. -/
theorem rounds_alike {x y : Expr ρ} (h : Alike x y) : x.rounds = y.rounds := by
  cases h <;> rfl

/-- Trees that are alike are the same variable, or both are none. -/
theorem asVariable?_alike {x y : Expr ρ} (h : Alike x y) : x.asVariable? = y.asVariable? := by
  cases h <;> rfl

end Expr

namespace Derivative

open Derivatives OrderedMap

variable [Scalar ρ] {wanted : List Variable}

/-- An operator has the variables of its operands. -/
theorem keys_ofBinary {op : BinaryOp} {f g : Expr ρ} {df dg : Derivatives ρ}
    (hflat : ConstantsFlat [f, g] [df, dg]) {ds : Derivatives ρ}
    (h : ofBinary op f g df dg = some ds) : ds.keys = vars [df, dg] := by
  have hboth (k l : Expr ρ → Expr ρ) : (sum [df.map k, dg.map l]).keys = vars [df, dg] := by
    simp only [keys_sum, vars, List.flatMap_cons, keys_map]
  have hright (l : Expr ρ → Expr ρ) : (sum [df, dg.map l]).keys = vars [df, dg] := by
    simp only [keys_sum, vars, List.flatMap_cons, keys_map]
  cases op with
  | add => exact Option.some.inj h ▸ keys_sum _
  | sub => exact Option.some.inj h ▸ hright _
  | mul => exact Option.some.inj h ▸ hboth _ _
  | div => exact Option.some.inj h ▸ hboth _ _
  | mod => exact Option.some.inj h ▸ hright _
  | pow =>
    obtain rfl := Option.some.inj h
    obtain ⟨hsnd, hempty⟩ :=
      forall₂_zip_of_complete (Vocabulary.complete_powerPartials f g) hflat
    rw [keys_chain hempty, hsnd]
  | _ => cases h

/-- A call by the rule of a built-in function, or of arguments without derivatives. -/
theorem keys_call {name : String} {args : List (Expr ρ)} {maps : List (Derivatives ρ)}
    (hflat : ConstantsFlat args maps) {ds : Derivatives ρ}
    (h : step .builtin wanted (.call name args) maps = some ds) :
    ds.keys = if Text.lowercase name ∈ Vocabulary.roundingNames then [] else vars maps := by
  rw [step] at h
  cases hrule : ((Vocabulary.builtin : Vocabulary ρ).functionOf? name args.length).bind
      (·.derivative) with
  | none =>
    rw [hrule, ofCall, Option.ite_none_right_eq_some] at h
    obtain ⟨hempty, hds⟩ := h
    obtain rfl := Option.some.inj hds
    have hkeys : maps.flatMap keys = [] := by
      rw [List.flatMap_eq_nil_iff]
      intro m hm
      exact List.map_eq_nil_iff.mpr (List.isEmpty_iff.mp (List.all_eq_true.mp hempty m hm))
    rw [vars, hkeys]
    exact (ite_self _).symm
  | some rule =>
    obtain ⟨f, hf, hderivative⟩ := Option.bind_eq_some_iff.mp hrule
    obtain ⟨hmem, hname, harity⟩ := Vocabulary.builtin_functionOf?_eq_some.mp hf
    obtain ⟨rule', hrule', hcomplete, hconstant⟩ :=
      Vocabulary.keepsVariables_of_mem_builtinFunctions hmem
    obtain rfl : rule = rule' := Option.some.inj (hderivative.symm.trans hrule')
    rw [hname] at hconstant
    rw [hrule] at h
    split
    · rename_i hrounds
      obtain rfl := hconstant.mpr hrounds
      exact Option.some.inj h ▸ rfl
    · rename_i hrounds
      exact keys_ofCall (harity ▸ hcomplete) (mt hconstant.mp hrounds) hflat h

/-- **A step of differentiation keeps the variables of the operands** in their order, unless it
rounds. -/
theorem keys_step {e : Expr ρ} {maps : List (Derivatives ρ)} (hflat : ConstantsFlat e.operands maps)
    {ds : Derivatives ρ} (h : step .builtin wanted e maps = some ds) :
    ds.keys = if e.rounds then [] else
      distinct (maps.flatMap keys ++ e.asVariable?.toList.filter (· ∈ wanted)) := by
  cases e with
  | constant c =>
    cases hflat
    exact Option.some.inj h ▸ rfl
  | var v =>
    cases hflat
    obtain rfl := Option.some.inj h
    by_cases hv : v ∈ wanted
    · simp only [Expr.asVariable?, Option.toList, List.filter_singleton, hv, decide_true]
      rfl
    · simp only [Expr.asVariable?, Option.toList, List.filter_singleton, hv, decide_false]
      rfl
  | unary op x =>
    have hone (m : Derivatives ρ) : m.keys = distinct ([m].flatMap keys ++ []) := by
      rw [List.append_nil, ← vars, vars_singleton]
    cases op with
    | not => cases h
    | plus =>
      obtain _ | ⟨_, _ | _⟩ := hflat
      exact Option.some.inj h ▸ hone _
    | minus =>
      obtain _ | ⟨_, _ | _⟩ := hflat
      obtain rfl := Option.some.inj h
      rw [keys_map]
      exact hone _
  | binary op f g =>
    rw [Expr.operands] at hflat
    split at hflat
    · -- a comparison or a connective has no derivative
      cases hflat
      cases h
    · have htwo := hflat
      obtain _ | ⟨_, _ | ⟨_, _ | _⟩⟩ := htwo
      exact (keys_ofBinary hflat h).trans (congrArg distinct (List.append_nil _).symm)
  | call name args =>
    have hroot : (Expr.call name args).asVariable?.toList.filter (· ∈ wanted) = [] := rfl
    rw [keys_call hflat h, hroot, List.append_nil, Expr.rounds]
    simp only [decide_eq_true_eq]
    rfl
  | conditional c t f =>
    obtain _ | ⟨_, _ | ⟨_, _ | _⟩⟩ := hflat
    obtain rfl := Option.some.inj h
    rw [keys_ofConditional]
    exact congrArg distinct (List.append_nil _).symm

/-- A constant in the table has no derivatives. -/
theorem Table.empty_of_constant {w : Vocabulary ρ} {known : Expr ρ → Prop}
    {found : Expr ρ → Option (Derivatives ρ)} (h : Table w wanted known found) {x : Expr ρ}
    (hx : known x) (hconstant : x.asConstant? ≠ none) {ds : Derivatives ρ}
    (hds : found x = some ds) : ds = .empty := by
  obtain ⟨y, hyx, hfound⟩ := h.computed hx
  obtain ⟨c, hc⟩ := Option.ne_none_iff_exists'.mp (mt hyx.asConstant?_eq_none.mp hconstant)
  obtain rfl := Expr.asConstant?_eq_some.mp hc
  exact Option.some.inj (hds.symm.trans hfound)

/-- **What a table has for a tree is by the variables that the tree comes to.** -/
theorem keys_found {known : Expr ρ → Prop} {found : Expr ρ → Option (Derivatives ρ)}
    (h : Table .builtin wanted known found) {x : Expr ρ} (hx : known x) {ds : Derivatives ρ}
    (hds : found x = some ds) : ds.keys = distinct (x.reached.filter (· ∈ wanted)) := by
  induction x using Expr.childrenInduction generalizing ds with
  | step x ih =>
    obtain ⟨y, hyx, hfound⟩ := h.computed hx
    rw [hds] at hfound
    obtain ⟨maps, hmaps, hstep⟩ := Option.bind_eq_some_iff.mp hfound.symm
    have hflat : ConstantsFlat y.operands maps := by
      refine Expr.forall₂_imp_of_mem (fun o ho m hm hconstant => ?_) (mapM_eq_some_iff.mp hmaps)
      obtain ⟨o', ho', halike⟩ := exists_right_of_mem (operands_alike hyx) ho
      exact h.empty_of_constant (h.operand hx ho')
        (mt halike.asConstant?_eq_none.mpr hconstant) (h.shared halike ▸ hm)
    have hkeys : maps.flatMap keys =
        x.operands.flatMap fun o => distinct (o.reached.filter (· ∈ wanted)) := by
      rw [h.mapM_operands hyx, mapM_eq_some_iff] at hmaps
      rw [List.flatMap_def, List.flatMap_def]
      refine congrArg _ (map_eq_map_of_forall₂ (List.Forall₂.flip ?_))
      exact Expr.forall₂_imp_of_mem (fun o ho m hm =>
        ih o (Expr.mem_children_of_mem_operands ho) (h.operand hx ho) hm) hmaps
    rw [keys_step hflat hstep, Expr.rounds_alike hyx, Expr.asVariable?_alike hyx, Expr.reached_eq x,
      hkeys]
    split
    · rfl
    · rw [← distinct_distinct_append, distinct_flatMap_distinct, distinct_distinct_append,
        List.filter_append, List.filter_flatMap]

end Derivative

namespace Expr

variable [Scalar ρ] {wanted : List Variable}

/-- **By which variables a tree has derivatives,** and in which order. -/
theorem keys_derive {e : Expr ρ} {ds : Derivatives ρ}
    (h : e.derive .builtin wanted = some ds) :
    ds.keys = OrderedMap.distinct (e.reached.filter (· ∈ wanted)) ∧ ds.keys.Nodup ∧
      (∀ v, v ∈ ds.keys ↔ v ∈ wanted ∧ v ∈ e.reached) ∧
      ds.keys.Pairwise fun v u => e.reached.idxOf v < e.reached.idxOf u := by
  have hkeys : ds.keys = OrderedMap.distinct (e.reached.filter (· ∈ wanted)) := by
    rw [derive_eq_found] at h
    exact Derivative.keys_found (table_found .builtin wanted e)
      (known_of_active .builtin wanted (.root e)) h
  refine ⟨hkeys, ds.nodup_keys, fun v => ?_, ?_⟩
  · rw [hkeys, OrderedMap.mem_distinct, List.mem_filter, decide_eq_true_eq, and_comm]
  · rw [hkeys, OrderedMap.distinct_filter]
    exact (OrderedMap.pairwise_idxOf_distinct _).filter _

/-- A difference whose derivative folds to zero. -/
def selfDifference : Expr Double :=
  .binary .sub (.var (.named "x")) (.var (.named "x"))

/-- The difference of a variable with itself has the derivative `1 + -1`, folded to zero. -/
theorem derive_selfDifference :
    selfDifference.derive .builtin [.named "x"] =
      some (.single (.named "x") (.constant 0)) := by
  have htable := table_found .builtin [.named "x"] selfDifference
  have hvar : selfDifference.found .builtin [.named "x"] (.var (.named "x")) =
      some (.single (.named "x") .one) := by
    obtain ⟨y, ⟨⟩, hfound⟩ := htable.computed
      (known_of_active .builtin [.named "x"] (.operand List.mem_cons_self (.root _)))
    exact hfound
  obtain ⟨y, hy, hfound⟩ :=
    htable.computed (known_of_active .builtin [.named "x"] (.root selfDifference))
  obtain rfl : y = selfDifference := by
    obtain _ | _ | _ | ⟨⟨⟩, ⟨⟩⟩ := hy
    rfl
  have hmaps : selfDifference.operands.mapM (selfDifference.found .builtin [.named "x"]) =
      some [.single (.named "x") .one, .single (.named "x") .one] := by
    rw [Derivative.mapM_eq_some_iff]
    exact .cons hvar (.cons hvar .nil)
  have hstep : Derivative.step .builtin [.named "x"] selfDifference
      [.single (.named "x") .one, .single (.named "x") .one] =
        some (.single (.named "x") (.constant (1 + -1))) := rfl
  have hzero : (1 + -1 : Double) = 0 := by decide +kernel
  rw [derive_eq_found, hfound, ← hzero, ← hstep]
  exact congrArg (Option.bind · _) hmaps

/-- The entry is kept though the derivative is zero. -/
theorem keys_selfDifference :
    ∃ ds, selfDifference.derive .builtin [.named "x"] = some ds ∧ ds.keys = [.named "x"] ∧
      ds.get? (.named "x") = some (.constant 0) :=
  ⟨_, derive_selfDifference, (keys_derive derive_selfDifference).1, rfl⟩

end Expr
end Rules
end CircuitExpr
