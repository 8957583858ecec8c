/-
# The walk of differentiation, state by state

The walk has a stack of parts still to visit and a memory of the parts that it knows.
`advance` is one turn of its loop, and the walk takes turns until the stack is empty
(`runs_walk`).  What keeps it right is an invariant of the states (`Consistent`):

* a part on the stack that is left has its operands known by then, already now or through
  a visit above it (`Prepared`), so that looking up an operand never fails because it was
  not visited;
* what is known of a part is, up to constants that count as one, what the plain recursion
  gives for its tree (`Memo.Sound`).

A part may be known because another part that counts as the same was visited.  That this
changes nothing is a property of the rules (`Stable`).  Hashes take no part in it: the walk
may be given any hash with each part (`Subtree.Faithful`).
-/

import Mathlib
import CircuitExpr.Proofs.AlikeDerivatives

namespace CircuitExpr

open CircuitExpr.Expr (Alike)

variable {ρ : Type}

/-! ### Parts with arbitrary hashes -/

/-- The parts below are those of the tree, throughout; the hashes may be any. -/
inductive Subtree.Faithful : Subtree ρ → Prop
  /-- A tree over its parts. -/
  | mk {e : Expr ρ} {hash : UInt64} {parts : List (Subtree ρ)} :
    parts.map tree = e.children → (∀ p ∈ parts, p.Faithful) → Faithful (.mk e hash parts)

/-- A tree with its computed hashes. -/
theorem Expr.faithful_hashed [Scalar ρ] (mix : Hasher ρ) (e : Expr ρ) :
    (e.hashed mix).Faithful := by
  induction e using Expr.childrenInduction with
  | step e ih =>
    rw [hashed_eq]
    refine .mk ?_ ?_
    · rw [List.map_map]
      exact (List.map_congr_left fun x _ => tree_hashed mix x).trans (List.map_id _)
    · intro p hp
      obtain ⟨x, hx, rfl⟩ := List.mem_map.mp hp
      exact ih x hx

namespace Derivative

/-- The operands of a part are those of its tree. -/
theorem map_tree_operands {s : Subtree ρ} (hs : s.Faithful) :
    (operands s).map Subtree.tree = s.tree.operands := by
  obtain ⟨hparts, -⟩ := hs
  rename_i e hash parts
  cases e with
  | constant c => rfl
  | var v => rfl
  | unary op x => cases op with
    | not => rfl
    | _ => exact hparts
  | binary op x y =>
    simp only [operands, Subtree.tree, Expr.operands]
    split
    · rfl
    · exact hparts
  | call name args => exact hparts
  | conditional c t f =>
    simp only [operands, Subtree.tree, Subtree.parts, Expr.operands, List.map_drop]
    exact congrArg (List.drop 1) hparts

/-- Operands are parts. -/
theorem mem_parts_of_mem_operands {s x : Subtree ρ} (h : x ∈ operands s) : x ∈ s.parts := by
  unfold operands at h
  split at h
  · cases h
  · cases h
  · cases h
  · exact h
  · exact h
  · split at h
    · cases h
    · exact h
  · exact List.mem_of_mem_drop h

/-- Operands of a part with faithful hashes have faithful hashes. -/
theorem faithful_of_mem_operands {s x : Subtree ρ} (hs : s.Faithful) (hx : x ∈ operands s) :
    x.Faithful := by
  have hmem := mem_parts_of_mem_operands hx
  obtain ⟨-, hparts⟩ := hs
  exact hparts x hmem

/-- The tree of an operand is an operand of the tree. -/
theorem tree_mem_operands_of_mem_operands {s x : Subtree ρ} (hs : s.Faithful)
    (hx : x ∈ operands s) : x.tree ∈ s.tree.operands := by
  rw [← map_tree_operands hs]
  exact List.mem_map_of_mem hx

/-! ### Optional results -/

/-- Outcomes that are alike in turn are alike. -/
theorem rel_trans [Scalar ρ] {a b c : Option (Derivatives ρ)}
    (h : Option.Rel Derivatives.Alike a b) (h' : Option.Rel Derivatives.Alike b c) :
    Option.Rel Derivatives.Alike a c := by
  cases h with
  | none => exact h'
  | some h => cases h' with
    | some h' => exact .some (h.trans h')

/-- Being alike goes both ways for outcomes. -/
theorem rel_symm [Scalar ρ] {a b : Option (Derivatives ρ)}
    (h : Option.Rel Derivatives.Alike a b) : Option.Rel Derivatives.Alike b a := by
  cases h with
  | none => exact .none
  | some h => exact .some h.symm

/-- There are results for all elements if there is one for each of them. -/
theorem mapM_eq_some_iff {α β : Type} {f : α → Option β} {xs : List α} {ys : List β} :
    xs.mapM f = some ys ↔ List.Forall₂ (fun x y => f x = some y) xs ys := by
  induction xs generalizing ys with
  | nil =>
    rw [List.mapM_nil, List.forall₂_nil_left_iff]
    exact ⟨fun h => (Option.some.inj h).symm, fun h => h ▸ rfl⟩
  | cons x xs ih =>
    rw [List.mapM_cons, List.forall₂_cons_left_iff]
    constructor
    · intro h
      obtain ⟨y, hy, h⟩ := Option.bind_eq_some_iff.mp h
      obtain ⟨ys, hys, h⟩ := Option.bind_eq_some_iff.mp h
      exact ⟨y, ys, hy, ih.mp hys, (Option.some.inj h).symm⟩
    · rintro ⟨y, ys, hy, hys, rfl⟩
      rw [hy, ih.mpr hys]
      rfl

/-- There are no results for all elements if there is none for one of them. -/
theorem mapM_eq_none_iff {α β : Type} {f : α → Option β} {xs : List α} :
    xs.mapM f = none ↔ ∃ x ∈ xs, f x = none := by
  induction xs with
  | nil => simp
  | cons x xs ih =>
    rw [List.mapM_cons]
    cases hx : f x with
    | none => simp [hx]
    | some y => cases hxs : xs.mapM f <;> simp_all

/-- Lists come out alike if their elements do. -/
theorem mapM_eq_mapM_of_forall₂ {α β γ : Type} {f : α → Option γ} {g : β → Option γ}
    {xs : List α} {ys : List β} (h : List.Forall₂ (fun x y => f x = g y) xs ys) :
    xs.mapM f = ys.mapM g := by
  induction h with
  | nil => rfl
  | cons hxy _ ih => rw [List.mapM_cons, List.mapM_cons, hxy, ih]

/-! ### The recursion on trees that count as the same -/

variable [Scalar ρ] {w : Vocabulary ρ} {wanted : List Variable}

/-- A step of differentiation gives derivatives that are alike for trees and derivatives
of operands that are. -/
def Stable (w : Vocabulary ρ) (wanted : List Variable) : Prop :=
  ∀ {e e' : Expr ρ} {ds es : List (Derivatives ρ)}, Alike e e' →
    List.Forall₂ Derivatives.Alike ds es → ConstantsFlat e.operands ds →
      Option.Rel Derivatives.Alike (step w wanted e ds) (step w wanted e' es)

/-- The operands of trees that are alike are alike, one by one. -/
theorem operands_alike {e e' : Expr ρ} (h : Alike e e') :
    List.Forall₂ Alike e.operands e'.operands :=
  (Expr.alike_iff_matches.mp h).operands.imp fun _ _ => Expr.alike_iff_matches.mpr

/-- **Trees that are alike have derivatives that are alike.** -/
theorem derivatives_alike (hstable : Stable w wanted) {e e' : Expr ρ} (h : Alike e e') :
    Option.Rel Derivatives.Alike (e.derivatives w wanted) (e'.derivatives w wanted) :=
  derivatives_related operands_alike hstable h

/-! ### States -/

/-- What the walk still has to visit, and what it knows. -/
structure State (ρ : Type) where
  /-- The visits to come, the next one first. -/
  pending : List (Visit ρ)
  /-- The derivatives of the parts visited so far. -/
  memo : Memo ρ

/-- The state after the next visit; none if there are no visits to come. -/
def advance (w : Vocabulary ρ) (wanted : List Variable) (st : State ρ) : Option (State ρ) :=
  match st.pending with
  | [] => none
  | visit :: rest =>
    some <| if st.memo.contains visit.part then ⟨rest, st.memo⟩
      else match visit with
        | .leave s => ⟨rest, st.memo.insert s (compute w wanted st.memo s)⟩
        | .enter s => ⟨(operands s).map .enter ++ .leave s :: rest, st.memo⟩

/-- The walk comes from one state to the other. -/
def Runs (w : Vocabulary ρ) (wanted : List Variable) : State ρ → State ρ → Prop :=
  Relation.ReflTransGen fun st st' => advance w wanted st = some st'

/-- **The walk takes turns until no visits are left,** which happens. -/
theorem runs_walk (pending : List (Visit ρ)) (memo : Memo ρ) :
    Runs w wanted ⟨pending, memo⟩ ⟨[], walk w wanted pending memo⟩ := by
  fun_induction walk w wanted pending memo with
  | case1 memo => exact .refl
  | case2 memo visit rest hknown ih => exact .head (by simp [advance, hknown]) ih
  | case3 memo rest s hknown ih => exact .head (by simp [advance, hknown]) ih
  | case4 memo rest s hknown ih => exact .head (by simp [advance, hknown]) ih

/-- Turns do not change what the walk ends with. -/
theorem walk_eq_of_runs {st st' : State ρ} (h : Runs w wanted st st') :
    walk w wanted st.pending st.memo = walk w wanted st'.pending st'.memo := by
  induction h with
  | refl => rfl
  | @tail a b _ hlast ih =>
    rw [ih]
    obtain ⟨pending, memo⟩ := a
    cases pending with
    | nil => cases hlast
    | cons visit rest =>
      obtain rfl := Option.some.inj hlast
      rw [walk.eq_def]
      simp only
      split
      · rfl
      · cases visit <;> rfl

/-- A turn skips a visit to a part that is known, or leaves a part that is not, or enters
it. -/
theorem advance_cases {st st' : State ρ} (h : advance w wanted st = some st') :
    (∃ v rest, st.pending = v :: rest ∧ st.memo.contains v.part = true ∧
      st' = ⟨rest, st.memo⟩) ∨
    (∃ s rest, st.pending = .leave s :: rest ∧ st.memo.contains s = false ∧
      st' = ⟨rest, st.memo.insert s (compute w wanted st.memo s)⟩) ∨
    (∃ s rest, st.pending = .enter s :: rest ∧ st.memo.contains s = false ∧
      st' = ⟨(operands s).map .enter ++ .leave s :: rest, st.memo⟩) := by
  unfold advance at h
  split at h
  · cases h
  · rename_i visit rest hpending
    obtain rfl := Option.some.inj h
    split
    · rename_i hknown
      exact .inl ⟨visit, rest, hpending, hknown, rfl⟩
    · rename_i hknown
      rw [Bool.not_eq_true] at hknown
      cases visit with
      | leave s => exact .inr (.inl ⟨s, rest, hpending, hknown, rfl⟩)
      | enter s => exact .inr (.inr ⟨s, rest, hpending, hknown, rfl⟩)

/-- What operands take over from a part goes on to hold of the parts on the stack. -/
theorem forall_pending_advance {Q : Subtree ρ → Prop} (hQ : ∀ s, Q s → ∀ x ∈ operands s, Q x)
    {st st' : State ρ} (h : ∀ v ∈ st.pending, Q v.part) (hst : advance w wanted st = some st') :
    ∀ v ∈ st'.pending, Q v.part := by
  obtain ⟨pending, memo⟩ := st
  obtain ⟨v, rest, rfl, -, rfl⟩ | ⟨s, rest, rfl, -, rfl⟩ | ⟨s, rest, rfl, -, rfl⟩ :=
    advance_cases hst
  · exact fun u hu => h u (List.mem_cons_of_mem _ hu)
  · exact fun u hu => h u (List.mem_cons_of_mem _ hu)
  · have hs : Q s := h (.enter s) List.mem_cons_self
    intro u hu
    obtain hu | hu := List.mem_append.mp hu
    · obtain ⟨x, hx, rfl⟩ := List.mem_map.mp hu
      exact hQ s hs x hx
    · obtain rfl | hu := List.mem_cons.mp hu
      · exact hs
      · exact h u (List.mem_cons_of_mem _ hu)

/-- A turn remembers nothing, or what it computes for the part that it leaves, which was not
known before. -/
theorem memo_advance {st st' : State ρ} (h : advance w wanted st = some st') :
    st'.memo = st.memo ∨ ∃ s rest, st.pending = .leave s :: rest ∧
      st.memo.contains s = false ∧ st'.memo = st.memo.insert s (compute w wanted st.memo s) := by
  obtain ⟨v, rest, -, -, rfl⟩ | ⟨s, rest, hpending, hnew, rfl⟩ | ⟨s, rest, -, -, rfl⟩ :=
    advance_cases h
  · exact .inl rfl
  · exact .inr ⟨s, rest, hpending, hnew, rfl⟩
  · exact .inl rfl

/-! ### The memory -/

/-- What is remembered of a part is found for each that counts as the same. -/
theorem Memo.lookup_insert (m : Memo ρ) (s t : Subtree ρ) (ds : Option (Derivatives ρ)) :
    (m.insert s ds).lookup t = if s.same t then ds else m.lookup t := by
  rw [Memo.lookup, find?_insert]
  split <;> rfl

/-- The parts that count as the same as one that is remembered are known with it. -/
theorem Memo.contains_insert_eq (m : Memo ρ) (s t : Subtree ρ) (ds : Option (Derivatives ρ)) :
    (m.insert s ds).contains t = (s.same t || m.contains t) := by
  rw [Memo.contains, find?_insert]
  split <;> simp_all [Memo.contains]

/-- What is known of a part is, up to constants that count as one, what the recursion
gives for its tree. -/
def Memo.Sound (w : Vocabulary ρ) (wanted : List Variable) (m : Memo ρ) : Prop :=
  ∀ s ds, m.find? s = some ds → Option.Rel Derivatives.Alike (s.tree.derivatives w wanted) ds

/-- Nothing false is remembered at first. -/
theorem Memo.sound_empty : (Memo.empty : Memo ρ).Sound w wanted := by
  intro s ds h
  simp [Memo.find?, Memo.bucket, Memo.empty] at h

/-- What is remembered of a part is alike to what the recursion finds. -/
theorem Memo.Sound.lookup {m : Memo ρ} (hm : m.Sound w wanted) {s : Subtree ρ}
    (hs : m.contains s = true) :
    Option.Rel Derivatives.Alike (s.tree.derivatives w wanted) (m.lookup s) := by
  obtain ⟨ds, hds⟩ := Option.isSome_iff_exists.mp hs
  rw [Memo.lookup, hds]
  exact hm s ds hds

/-- Remembering of a part what it has keeps the memory sound, for all parts that count as
the same. -/
theorem Memo.Sound.insert (hstable : Stable w wanted) {m : Memo ρ} (hm : m.Sound w wanted)
    {s : Subtree ρ} {ds : Option (Derivatives ρ)}
    (hds : Option.Rel Derivatives.Alike (s.tree.derivatives w wanted) ds) :
    (m.insert s ds).Sound w wanted := by
  intro t es h
  rw [Memo.find?_insert] at h
  split at h
  · rename_i hsame
    obtain rfl := Option.some.inj h
    have halike : Alike t.tree s.tree :=
      (Expr.same_iff_alike.mp (Bool.and_eq_true_iff.mp hsame).2).symm
    exact rel_trans (derivatives_alike hstable halike) hds
  · exact hm t es h

/-- What is known stays known, and what is remembered is known. -/
theorem Memo.contains_insert {m : Memo ρ} {s t : Subtree ρ} {ds : Option (Derivatives ρ)}
    (h : m.contains t = true ∨ t = s) : (m.insert s ds).contains t = true := by
  rw [contains, find?_insert]
  split
  · rfl
  · rename_i hsame
    obtain h | rfl := h
    · exact h
    · exact absurd t.same_self hsame

/-- With the operands known, a part is differentiated as in the recursion. -/
theorem compute_alike (hstable : Stable w wanted) {m : Memo ρ} (hm : m.Sound w wanted)
    {s : Subtree ρ} (hs : s.Faithful) (hknown : ∀ x ∈ operands s, m.contains x = true) :
    Option.Rel Derivatives.Alike (s.tree.derivatives w wanted) (compute w wanted m s) := by
  rw [Expr.derivatives_eq, ← map_tree_operands hs, List.mapM_map, compute]
  refine rel_bind (rel_mapM (List.forall₂_same.mpr fun x hx => hm.lookup (hknown x hx)))
    fun ds es hds hrel => hstable (.refl _) hrel ?_
  rw [← List.mapM_map, map_tree_operands hs] at hds
  exact constantsFlat_derivatives hds

/-! ### The invariant -/

/-- Each part that is left on the way has its operands known by then: already, or through
a visit before it. -/
def Prepared : (Subtree ρ → Prop) → List (Visit ρ) → Prop
  | _, [] => True
  | known, v :: rest =>
    (∀ s, v = .leave s → ∀ x ∈ operands s, known x) ∧ Prepared (fun x => known x ∨ x = v.part) rest

omit [Scalar ρ] in
/-- Knowing more leaves the visits prepared. -/
theorem Prepared.mono {known known' : Subtree ρ → Prop} (hknown : ∀ x, known x → known' x)
    {pending : List (Visit ρ)} (h : Prepared known pending) : Prepared known' pending := by
  induction pending generalizing known known' with
  | nil => trivial
  | cons v rest ih =>
    exact ⟨fun s hs x hx => hknown x (h.1 s hs x hx), ih (fun x => Or.imp_left (hknown x)) h.2⟩

omit [Scalar ρ] in
/-- Visits to some parts make them known for what follows. -/
theorem Prepared.enters {known : Subtree ρ → Prop} {ss : List (Subtree ρ)} {rest : List (Visit ρ)}
    (h : Prepared (fun x => known x ∨ x ∈ ss) rest) :
    Prepared known (ss.map .enter ++ rest) := by
  induction ss generalizing known with
  | nil => exact h.mono fun x hx => hx.resolve_right List.not_mem_nil
  | cons s ss ih =>
    refine ⟨nofun, ih (h.mono fun x hx => ?_)⟩
    rw [List.mem_cons, ← or_assoc] at hx
    exact hx

/-- What holds of the visits to come in each state that the walk comes to from the part
`root`. -/
structure Orderly (root : Subtree ρ) (st : State ρ) : Prop where
  /-- The parts on the stack have the parts below that they should have. -/
  faithful : ∀ v ∈ st.pending, v.part.Faithful
  /-- No part is left before its operands are known. -/
  prepared : Prepared (fun x => st.memo.contains x = true) st.pending
  /-- The part that is asked for is known or will be visited. -/
  awaited : st.memo.contains root = true ∨ ∃ v ∈ st.pending, v.part = root

/-- The walk starts in order. -/
theorem orderly_start {root : Subtree ρ} (hroot : root.Faithful) :
    Orderly root ⟨[.enter root], .empty⟩ where
  faithful := List.forall_mem_singleton.mpr hroot
  prepared := ⟨nofun, trivial⟩
  awaited := .inr ⟨.enter root, List.mem_singleton_self _, rfl⟩

/-- A turn of the walk keeps its visits in order, whatever the rules of functions. -/
theorem Orderly.advance {root : Subtree ρ} {st st' : State ρ} (h : Orderly root st)
    (hst : advance w wanted st = some st') : Orderly root st' := by
  have hfaithful : ∀ v ∈ st'.pending, v.part.Faithful :=
    forall_pending_advance (fun _ hs _ hx => faithful_of_mem_operands hs hx) h.faithful hst
  obtain ⟨pending, memo⟩ := st
  obtain ⟨-, hprepared, hawaited⟩ := h
  obtain ⟨v, rest, rfl, hknown, rfl⟩ | ⟨s, rest, rfl, -, rfl⟩ | ⟨s, rest, rfl, -, rfl⟩ :=
    advance_cases hst
  · refine ⟨hfaithful, hprepared.2.mono ?_, ?_⟩
    · -- the part that is no longer awaited is known already
      rintro x (hx | rfl)
      · exact hx
      · exact hknown
    · obtain hroot | ⟨u, hu, rfl⟩ := hawaited
      · exact .inl hroot
      · obtain rfl | hu := List.mem_cons.mp hu
        · exact .inl hknown
        · exact .inr ⟨u, hu, rfl⟩
  · refine ⟨hfaithful, hprepared.2.mono fun x hx => Memo.contains_insert hx, ?_⟩
    obtain hroot | ⟨u, hu, rfl⟩ := hawaited
    · exact .inl (Memo.contains_insert (.inl hroot))
    · obtain rfl | hu := List.mem_cons.mp hu
      · exact .inl (Memo.contains_insert (.inr rfl))
      · exact .inr ⟨u, hu, rfl⟩
  · refine ⟨hfaithful, .enters ⟨?_, hprepared.2.mono ?_⟩, ?_⟩
    · -- the part is left after its operands, which stand above it
      rintro t ⟨⟩ x hx
      exact .inr hx
    · intro x hx
      exact hx.imp_left .inl
    · refine hawaited.imp_right ?_
      rintro ⟨u, hu, rfl⟩
      obtain rfl | hu := List.mem_cons.mp hu
      · exact ⟨.leave s, List.mem_append_right _ List.mem_cons_self, rfl⟩
      · exact ⟨u, List.mem_append_right _ (List.mem_cons_of_mem _ hu), rfl⟩

/-- A run keeps the order. -/
theorem Orderly.runs {root : Subtree ρ} {st st' : State ρ} (h : Orderly root st)
    (hruns : Runs w wanted st st') : Orderly root st' := by
  induction hruns with
  | refl => exact h
  | tail _ hlast ih => exact ih.advance hlast

/-- At its end the walk knows the part that it was asked for. -/
theorem contains_walk {root : Subtree ρ} (hroot : root.Faithful) :
    (walk w wanted [.enter root] .empty).contains root = true := by
  refine ((orderly_start hroot).runs (runs_walk [.enter root] .empty)).awaited.resolve_right ?_
  rintro ⟨v, hv, -⟩
  cases hv

/-- What holds in each state that the walk comes to from the part `root`. -/
structure Consistent (w : Vocabulary ρ) (wanted : List Variable) (root : Subtree ρ)
    (st : State ρ) : Prop where
  /-- The parts on the stack have the parts below that they should have. -/
  faithful : ∀ v ∈ st.pending, v.part.Faithful
  /-- No part is left before its operands are known. -/
  prepared : Prepared (fun x => st.memo.contains x = true) st.pending
  /-- What is known is right. -/
  sound : st.memo.Sound w wanted
  /-- The part that is asked for is known or will be visited. -/
  awaited : st.memo.contains root = true ∨ ∃ v ∈ st.pending, v.part = root

/-- The walk starts consistent. -/
theorem consistent_start {root : Subtree ρ} (hroot : root.Faithful) :
    Consistent w wanted root ⟨[.enter root], .empty⟩ :=
  have h := orderly_start hroot
  ⟨h.faithful, h.prepared, Memo.sound_empty, h.awaited⟩

/-- **A turn of the walk keeps the invariant.** -/
theorem Consistent.advance (hstable : Stable w wanted) {root : Subtree ρ} {st st' : State ρ}
    (h : Consistent w wanted root st) (hst : advance w wanted st = some st') :
    Consistent w wanted root st' := by
  have hsound : st'.memo.Sound w wanted := by
    obtain hmemo | ⟨s, rest, hpending, -, hmemo⟩ := memo_advance hst
    · rw [hmemo]
      exact h.sound
    · have hmem : Visit.leave s ∈ st.pending := hpending ▸ List.mem_cons_self
      have hknown : ∀ x ∈ operands s, st.memo.contains x = true :=
        (hpending ▸ h.prepared).1 s rfl
      rw [hmemo]
      exact h.sound.insert hstable (compute_alike hstable h.sound (h.faithful _ hmem) hknown)
  have horderly : Orderly root st' :=
    Orderly.advance ⟨h.faithful, h.prepared, h.awaited⟩ hst
  exact ⟨horderly.faithful, horderly.prepared, hsound, horderly.awaited⟩

/-- **A run of the walk keeps the invariant.** -/
theorem Consistent.runs (hstable : Stable w wanted) {root : Subtree ρ} {st st' : State ρ}
    (h : Consistent w wanted root st) (hruns : Runs w wanted st st') :
    Consistent w wanted root st' := by
  induction hruns with
  | refl => exact h
  | tail _ hlast ih => exact ih.advance hstable hlast

/-- Whenever a part is left, its operands are known. -/
theorem operands_known (hstable : Stable w wanted) {root s : Subtree ρ} (hroot : root.Faithful)
    {rest : List (Visit ρ)} {m : Memo ρ}
    (hruns : Runs w wanted ⟨[.enter root], .empty⟩ ⟨.leave s :: rest, m⟩) :
    ∀ x ∈ operands s, m.contains x = true :=
  ((consistent_start hroot).runs hstable hruns).prepared.1 s rfl

/-- **The walk gives what the recursion gives,** whatever the hashes. -/
theorem ofSubtree_alike (hstable : Stable w wanted) {root : Subtree ρ} (hroot : root.Faithful) :
    Option.Rel Derivatives.Alike (root.tree.derivatives w wanted) (ofSubtree w wanted root) := by
  have hend := (consistent_start hroot).runs hstable (runs_walk [.enter root] .empty)
  exact hend.sound.lookup (contains_walk hroot)

end Derivative

namespace Expr

variable [Scalar ρ]

/-- The walk starts from the tree with its hashes. -/
theorem deriveWith_eq_ofSubtree (mix : Hasher ρ) (w : Vocabulary ρ) (wanted : List Variable)
    (e : Expr ρ) : e.deriveWith mix w wanted = Derivative.ofSubtree w wanted (e.hashed mix) := by
  rw [deriveWith, subtree?_eq, Option.bind_some]

/-- Trees with the same operands and the same rule have the same derivatives. -/
theorem derivatives_eq_of_step {w : Vocabulary ρ} {wanted : List Variable} {e e' : Expr ρ}
    (hoperands : e.operands = e'.operands)
    (hstep : ∀ ds : List (Derivatives ρ), ds.length = e.operands.length →
      Derivative.step w wanted e ds = Derivative.step w wanted e' ds) :
    e.derivatives w wanted = e'.derivatives w wanted := by
  rw [derivatives_eq, derivatives_eq, ← hoperands]
  cases hds : e.operands.mapM (derivatives w wanted) with
  | none => rfl
  | some ds => exact hstep ds (Derivative.mapM_eq_some_iff.mp hds).length_eq.symm

/-- Under rules that do not tell apart what counts as the same, the walk gives what the
recursion gives. -/
theorem derivatives_alike_derive [Scalar.RespectsKeys ρ] {w : Vocabulary ρ} (hw : w.RespectsKeys)
    (wanted : List Variable) (e : Expr ρ) :
    Option.Rel Derivatives.Alike (e.derivatives w wanted) (e.derive w wanted) := by
  have hstable : Derivative.Stable w wanted :=
    fun he hds hflat => Derivative.step_alike hw wanted he hds hflat
  have hwalk := Derivative.ofSubtree_alike hstable (e.faithful_hashed Label.mix)
  rwa [tree_hashed, ← deriveWith_eq_ofSubtree] at hwalk

/-- Trees with the same derivatives by the recursion have derivatives that are alike by the
walk. -/
theorem derive_alike_of_derivatives_eq [Scalar.RespectsKeys ρ] {w : Vocabulary ρ}
    (hw : w.RespectsKeys) {wanted : List Variable} {e e' : Expr ρ}
    (h : e.derivatives w wanted = e'.derivatives w wanted) :
    Option.Rel Derivatives.Alike (e.derive w wanted) (e'.derive w wanted) := by
  have he' := derivatives_alike_derive hw wanted e'
  rw [← h] at he'
  exact Derivative.rel_trans (Derivative.rel_symm (derivatives_alike_derive hw wanted e)) he'

/-- Where constants count as one only if they are equal, the walk gives exactly what the
recursion gives. -/
theorem deriveWith_eq (hscalar : ∀ a b : ρ, Scalar.same a b = true → a = b) (mix : Hasher ρ)
    (w : Vocabulary ρ) (wanted : List Variable) (e : Expr ρ) :
    e.deriveWith mix w wanted = e.derivatives w wanted := by
  have hexpr {x y : Expr ρ} (h : Alike x y) : x = y := eq_of_same hscalar (same_iff_alike.mpr h)
  have hmaps {ds es : Derivatives ρ} (h : ds.Alike es) : ds = es := by
    obtain ⟨entries, _⟩ := ds
    obtain ⟨entries', _⟩ := es
    have heq : List.Forall₂ (· = ·) entries entries' :=
      List.Forall₂.imp (fun _ _ hde => Prod.ext hde.1 (hexpr hde.2)) h
    rw [List.forall₂_eq_eq_eq] at heq
    subst heq
    rfl
  have hstable : Derivative.Stable w wanted := by
    intro e e' ds es he hds _
    obtain rfl := hexpr he
    have heq : List.Forall₂ (· = ·) ds es := List.Forall₂.imp (fun _ _ h => hmaps h) hds
    rw [List.forall₂_eq_eq_eq] at heq
    subst heq
    cases Derivative.step w wanted e ds with
    | none => exact .none
    | some m => exact .some (.refl m)
  have hwalk := Derivative.ofSubtree_alike hstable (e.faithful_hashed mix)
  rw [tree_hashed] at hwalk
  rw [deriveWith_eq_ofSubtree]
  generalize e.derivatives w wanted = ds, Derivative.ofSubtree w wanted _ = es at hwalk ⊢
  cases hwalk with
  | none => rfl
  | some h => rw [hmaps h]

end Expr
end CircuitExpr
