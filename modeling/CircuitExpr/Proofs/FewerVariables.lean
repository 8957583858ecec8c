/-
# Differentiating by fewer variables

The walks by many variables and by few of them visit the same parts in the same order:
which parts are known does not depend on the variables.  So they run side by side, and
whatever derivatives the first finds for a part, the second finds the entries of its own
variables among them (`Narrows`).  Nothing is asked of the rules of functions, only that
they are functions of the arguments and of the derivatives by one variable.

A part without derivatives by many variables may have derivatives by few: a call without a
rule is constant in the variables that its arguments do not depend on.
-/

import Mathlib
import CircuitExpr.Equation
import CircuitExpr.Proofs.KeptVariables
import CircuitExpr.Proofs.SteadyHosts
import CircuitExpr.Proofs.WalkStates

namespace CircuitExpr

variable {ρ : Type}

/-- The derivatives by some of the variables only. -/
def Derivatives.by (few : List Variable) (ds : Derivatives ρ) : Derivatives ρ :=
  ds.keep fun v => decide (v ∈ few)

namespace Derivative

variable [Scalar ρ] {w : Vocabulary ρ} {many few : List Variable}

open Derivatives

/-! ### A step -/

variable (p : Variable → Bool)

/-- Leaving out variables of the operands leaves them out of the operator. -/
theorem ofBinary_keep {op : BinaryOp} {f g : Expr ρ} {df dg ds : Derivatives ρ}
    (h : ofBinary op f g df dg = some ds) :
    ofBinary op f g (df.keep p) (dg.keep p) = some (ds.keep p) := by
  have htwo (m n : Derivatives ρ) : (sum [m, n]).keep p = sum [m.keep p, n.keep p] := keep_sum p _
  cases op with
  | pow =>
    obtain rfl := Option.some.inj h
    rw [keep_chain]
    rfl
  | add | sub | mul | div | mod =>
    obtain rfl := Option.some.inj h
    simp only [ofBinary, htwo, OrderedMap.keep_map]
  | _ => cases h

/-- Leaving out variables of the arguments leaves them out of the call. -/
theorem ofCall_keep {rule : Option (Rule ρ)} {args : List (Expr ρ)} {maps : List (Derivatives ρ)}
    {ds : Derivatives ρ} (h : ofCall rule args maps = some ds) :
    ofCall rule args (maps.map (OrderedMap.keep p)) = some (ds.keep p) := by
  cases rule with
  | none =>
    rw [ofCall] at h ⊢
    split at h
    · rename_i hall
      obtain rfl := Option.some.inj h
      rw [if_pos]
      · rfl
      · rw [List.all_map, List.all_eq_true]
        exact fun m hm => OrderedMap.isEmpty_keep (List.all_eq_true.mp hall m hm)
    · cases h
  | some rule =>
    cases rule with
    | constant =>
      obtain rfl := Option.some.inj h
      rfl
    | partials f =>
      obtain rfl := Option.some.inj h
      rw [ofCall, keep_chain, List.zip_map_right]
      rfl
    | direct f =>
      obtain rfl := Option.some.inj h
      rw [ofCall, ofDirect, ofDirect, vars_keep]
      refine congrArg some (OrderedMap.keep_ofKeys p (fun v hv => ?_) _).symm
      rw [List.map_map]
      congr 1
      refine List.map_congr_left fun m _ => ?_
      rw [Function.comp_apply, OrderedMap.get?_keep_of, if_pos hv]

/-- Leaving out variables of both branches leaves them out of the choice. -/
theorem ofConditional_keep (c : Expr ρ) (dt df : Derivatives ρ) :
    (ofConditional c dt df).keep p = ofConditional c (dt.keep p) (df.keep p) := by
  have hvars : vars [dt.keep p, df.keep p] = (vars [dt, df]).filter p := vars_keep p [dt, df]
  rw [ofConditional, ofConditional, hvars]
  refine OrderedMap.keep_ofKeys p (fun v hv => ?_) _
  rw [OrderedMap.get?_keep_of, OrderedMap.get?_keep_of, if_pos hv, if_pos hv]

/-- A variable by itself, where it is one of the few if it is wanted among the many. -/
theorem ofVar_by {v : Variable} (hv : v ∈ few → v ∈ many) :
    Derivatives.by few (if v ∈ many then .single v (Expr.one : Expr ρ) else .empty) =
      if v ∈ few then .single v Expr.one else .empty := by
  refine OrderedMap.ext_entries ?_
  by_cases hfew : v ∈ few
  · simp [Derivatives.by, OrderedMap.keep, OrderedMap.single, hfew, hv hfew]
  · split <;> simp [Derivatives.by, OrderedMap.keep, OrderedMap.single, OrderedMap.empty, hfew]

/-- **A step by many variables is a step by few of them,** other variables dropped. -/
theorem step_by {e : Expr ρ} {maps : List (Derivatives ρ)} {ds : Derivatives ρ}
    (hvar : ∀ v ∈ e.leaves, v ∈ few → v ∈ many) (h : step w many e maps = some ds) :
    step w few e (maps.map (Derivatives.by few)) = some (ds.by few) := by
  unfold step at h
  split at h
  · obtain rfl := Option.some.inj h
    rfl
  · rename_i v
    obtain rfl := Option.some.inj h
    rw [ofVar_by (hvar v (List.mem_singleton_self v)), step]
  · obtain rfl := Option.some.inj h
    rfl
  · obtain rfl := Option.some.inj h
    exact congrArg some (OrderedMap.keep_map _ _ _).symm
  · exact ofBinary_keep _ h
  · rw [step]
    exact ofCall_keep (fun v => decide (v ∈ few)) h
  · obtain rfl := Option.some.inj h
    exact congrArg some (ofConditional_keep _ _ _ _).symm
  · cases h

/-! ### Two walks side by side -/

omit [Scalar ρ] in
/-- The leaves of an operand are among those of the part. -/
theorem leaves_operand_subset {s x : Subtree ρ} (hs : s.Faithful) (hx : x ∈ operands s) :
    x.tree.leaves ⊆ s.tree.leaves := by
  intro v hv
  have hchild := Expr.mem_children_of_mem_operands (tree_mem_operands_of_mem_operands hs hx)
  rw [Expr.leaves_eq]
  exact List.mem_append_left _ (List.mem_flatMap.mpr ⟨x.tree, hchild, hv⟩)

/-- The walk by few variables stands where the walk by many stands, and knows the
derivatives by its own variables wherever the other knows derivatives. -/
structure Narrows (many few : List Variable) (st st' : State ρ) : Prop where
  /-- The visits to come are the same. -/
  pending : st'.pending = st.pending
  /-- The parts that are known are the same. -/
  contains : ∀ s, st'.memo.contains s = st.memo.contains s
  /-- What is known by many variables is known by the few of them. -/
  lookup : ∀ s ds, st.memo.lookup s = some ds → st'.memo.lookup s = some (ds.by few)
  /-- The parts on the stack have the parts below that they should have. -/
  faithful : ∀ v ∈ st.pending, v.part.Faithful
  /-- In the parts on the stack, the few variables are among the many. -/
  among : ∀ v ∈ st.pending, ∀ u ∈ v.part.tree.leaves, u ∈ few → u ∈ many

/-- Lists of what is known are found side by side. -/
theorem mapM_lookup_by {m m' : Memo ρ}
    (h : ∀ s ds, m.lookup s = some ds → m'.lookup s = some (ds.by few)) {ss : List (Subtree ρ)}
    {maps : List (Derivatives ρ)} (hmaps : ss.mapM m.lookup = some maps) :
    ss.mapM m'.lookup = some (maps.map (Derivatives.by few)) := by
  induction ss generalizing maps with
  | nil =>
    obtain rfl := Option.some.inj hmaps
    rfl
  | cons s ss ih =>
    rw [List.mapM_cons] at hmaps ⊢
    obtain ⟨d, hd, hmaps⟩ := Option.bind_eq_some_iff.mp hmaps
    obtain ⟨ds, hds, hmaps⟩ := Option.bind_eq_some_iff.mp hmaps
    obtain rfl := Option.some.inj hmaps
    rw [h s d hd, ih hds]
    rfl

/-- A part is computed side by side. -/
theorem compute_by {m m' : Memo ρ}
    (h : ∀ s ds, m.lookup s = some ds → m'.lookup s = some (ds.by few)) {s : Subtree ρ}
    (hvar : ∀ v ∈ s.tree.leaves, v ∈ few → v ∈ many) {ds : Derivatives ρ}
    (hds : compute w many m s = some ds) : compute w few m' s = some (ds.by few) := by
  obtain ⟨maps, hmaps, hstep⟩ := Option.bind_eq_some_iff.mp hds
  rw [compute, mapM_lookup_by h hmaps, Option.bind_some]
  exact step_by hvar hstep

/-- **The walks take each turn together.** -/
theorem Narrows.advance {st st' st₂ : State ρ} (h : Narrows many few st st')
    (hst : advance w many st = some st₂) :
    ∃ st₂', advance w few st' = some st₂' ∧ Narrows many few st₂ st₂' := by
  have hoperands (s : Subtree ρ) (hs : s.Faithful ∧ ∀ u ∈ s.tree.leaves, u ∈ few → u ∈ many)
      (x : Subtree ρ) (hx : x ∈ operands s) :
      x.Faithful ∧ ∀ u ∈ x.tree.leaves, u ∈ few → u ∈ many :=
    ⟨faithful_of_mem_operands hs.1 hx, fun u hu => hs.2 u (leaves_operand_subset hs.1 hx hu)⟩
  have hparts := forall_pending_advance hoperands
    (fun v hv => ⟨h.faithful v hv, h.among v hv⟩) hst
  have hfaithful := fun v hv => (hparts v hv).1
  have hamong := fun v hv => (hparts v hv).2
  obtain ⟨pending, memo⟩ := st
  obtain ⟨pending', memo'⟩ := st'
  obtain ⟨hpending, hcontains, hlookup, -, hbefore⟩ := h
  obtain rfl : pending' = pending := hpending
  obtain ⟨v, rest, rfl, hknown, rfl⟩ | ⟨s, rest, rfl, hknown, rfl⟩ | ⟨s, rest, rfl, hknown, rfl⟩ :=
    advance_cases hst
  · refine ⟨⟨rest, memo'⟩, ?_, rfl, hcontains, hlookup, hfaithful, hamong⟩
    simp [Derivative.advance, hcontains, hknown]
  · refine ⟨⟨rest, memo'.insert s (compute w few memo' s)⟩, ?_, rfl, ?_, ?_, hfaithful, hamong⟩
    · simp [Derivative.advance, hcontains, Visit.part, hknown]
    · intro t
      rw [Memo.contains_insert_eq, Memo.contains_insert_eq, hcontains]
    · -- only the new entry has to be compared: its operands are known to both walks
      intro t ds hds
      rw [Memo.lookup_insert] at hds ⊢
      split at hds
      · rename_i hsame
        rw [if_pos hsame]
        exact compute_by hlookup (hbefore _ List.mem_cons_self) hds
      · rename_i hsame
        rw [if_neg hsame]
        exact hlookup t ds hds
  · refine ⟨⟨(operands s).map .enter ++ .leave s :: rest, memo'⟩, ?_, rfl, hcontains, hlookup,
      hfaithful, hamong⟩
    simp [Derivative.advance, hcontains, Visit.part, hknown]

/-- **The walks run side by side.** -/
theorem Narrows.runs {st st' st₂ : State ρ} (h : Narrows many few st st')
    (hruns : Runs w many st st₂) : ∃ st₂', Runs w few st' st₂' ∧ Narrows many few st₂ st₂' := by
  induction hruns with
  | refl => exact ⟨st', .refl, h⟩
  | tail _ hlast ih =>
    obtain ⟨st₁', hruns', h₁⟩ := ih
    obtain ⟨st₂', hst₂', h₂⟩ := h₁.advance hlast
    exact ⟨st₂', hruns'.tail hst₂', h₂⟩

/-- The walk by few variables finds what the walk by many finds for them. -/
theorem ofSubtree_by {s : Subtree ρ} (hs : s.Faithful)
    (hvar : ∀ v ∈ s.tree.leaves, v ∈ few → v ∈ many) {ds : Derivatives ρ}
    (hds : ofSubtree w many s = some ds) : ofSubtree w few s = some (ds.by few) := by
  have hstart : Narrows many few (⟨[.enter s], .empty⟩ : State ρ) ⟨[.enter s], .empty⟩ := by
    refine ⟨rfl, fun _ => rfl, fun t ds ht => ?_, List.forall_mem_singleton.mpr hs,
      List.forall_mem_singleton.mpr hvar⟩
    simp [Memo.lookup, Memo.find?, Memo.bucket, Memo.empty] at ht
  obtain ⟨⟨pending, memo⟩, hruns, hpending, -, hlookup, -, -⟩ :=
    hstart.runs (runs_walk (w := w) [.enter s] .empty)
  obtain rfl : pending = [] := hpending
  have hwalk : walk w few [.enter s] .empty = memo := by
    rw [walk_eq_of_runs hruns]
    exact walk.eq_1 w few memo
  rw [ofSubtree, hwalk]
  exact hlookup s ds hds

end Derivative

/-- The derivatives of a tree by few variables are those by many, the others dropped. -/
theorem Expr.deriveWith_by [Scalar ρ] {w : Vocabulary ρ} {many few : List Variable}
    {mix : Hasher ρ} {e : Expr ρ} (hvar : ∀ v ∈ e.leaves, v ∈ few → v ∈ many)
    {ds : Derivatives ρ} (hds : e.deriveWith mix w many = some ds) :
    e.deriveWith mix w few = some (ds.by few) := by
  rw [deriveWith_eq_ofSubtree] at hds ⊢
  refine Derivative.ofSubtree_by (e.faithful_hashed mix) ?_ hds
  rwa [tree_hashed]

end CircuitExpr
