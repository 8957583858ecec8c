/-
# The walk over the parts of a tree, turn by turn

The walk keeps a stack of visits to come, a stack of parts that are done and a list of all
parts so far (`Traversal`).  Entering a part puts visits of its parts before the visit that
leaves it; leaving it takes their hashes off the stack of parts that are done.  What keeps
this right is an invariant of the states (`Traversal.Consistent`):

* the visits to come find on the stack of parts that are done what they take off, the parts
  of each part from left to right, and leave the whole tree there alone;
* the parts listed so far and those that the visits to come will list are together the
  parts of the tree in postorder.

Each turn leaves one turn less to come (`turnsLeft_advance`), and until the end there is a next
one, so the walk of a tree takes twice as many turns as it has parts (`exists_run`).

A part gets the hash of its tree, wherever it occurs (`subtrees?_eq_map`).  As a hash is
computed from labels, and labels have the keys of numbers instead of the numbers, trees that
count as the same have the same hash, and comparing hashes before trees changes nothing.
-/

import Mathlib
import CircuitExpr.Proofs.Differentiability
import CircuitExpr.Proofs.SignedZeros

namespace CircuitExpr

namespace Expr

variable {ρ : Type}

/-! ### The parts of a tree -/

mutual

/-- The parts of a tree, from left to right and each after its own parts, the tree last. -/
def postorder : Expr ρ → List (Expr ρ)
  | .constant c => [.constant c]
  | .var v => [.var v]
  | .unary op x => postorder x ++ [.unary op x]
  | .binary op x y => postorder x ++ postorder y ++ [.binary op x y]
  | .call name args => postorderAll args ++ [.call name args]
  | .conditional c t f => postorder c ++ postorder t ++ postorder f ++ [.conditional c t f]

/-- The parts of some trees, one tree after the other. -/
def postorderAll : List (Expr ρ) → List (Expr ρ)
  | [] => []
  | x :: xs => postorder x ++ postorderAll xs

end

/-- The nodes of some trees come one tree after the other. -/
theorem postorderAll_eq_flatMap (es : List (Expr ρ)) : postorderAll es = es.flatMap postorder := by
  induction es with
  | nil => rfl
  | cons e es ih => rw [postorderAll, ih, List.flatMap_cons]

/-- A tree comes after the parts of its parts. -/
theorem postorder_eq (e : Expr ρ) : e.postorder = e.children.flatMap postorder ++ [e] := by
  cases e with
  | call name args => rw [postorder, postorderAll_eq_flatMap, children]
  | _ => simp [postorder, children]

example (a b c : Expr ρ) :
    (Expr.binary .add (.call "f" [a, b]) c).postorder =
      a.postorder ++ b.postorder ++ [.call "f" [a, b]] ++ c.postorder ++
        [.binary .add (.call "f" [a, b]) c] := by
  simp [postorder, postorderAll]

/-- The size of a list is the sum of the sizes. -/
theorem sizeList_eq_sum (es : List (Expr ρ)) : sizeList es = (es.map size).sum := by
  induction es with
  | nil => rfl
  | cons e es ih => rw [sizeList, ih, List.map_cons, List.sum_cons]

/-- There are as many parts as the size says. -/
theorem length_postorder (e : Expr ρ) : e.postorder.length = e.size := by
  induction e using childrenInduction with
  | step e ih =>
    have hlengths : e.children.map (List.length ∘ postorder) = e.children.map size :=
      List.map_congr_left ih
    rw [postorder_eq, List.length_append, List.length_singleton, List.length_flatMap, size_eq,
      sizeList_eq_sum, Nat.add_comm]
    exact congrArg (1 + List.sum ·) hlengths

/-- The parts of a part are parts of the tree. -/
theorem children_subset_postorder {e x : Expr ρ} (hx : x ∈ e.postorder) :
    x.children ⊆ e.postorder := by
  induction e using childrenInduction with
  | step e ih =>
    rw [postorder_eq] at hx ⊢
    obtain hx | hx := List.mem_append.mp hx
    · obtain ⟨c, hc, hx⟩ := List.mem_flatMap.mp hx
      intro y hy
      exact List.mem_append_left _ (List.mem_flatMap.mpr ⟨c, hc, ih c hc hx hy⟩)
    · obtain rfl := List.mem_singleton.mp hx
      intro y hy
      have hlast : y ∈ y.postorder := postorder_eq y ▸ List.mem_append_right _ List.mem_cons_self
      exact List.mem_append_left _ (List.mem_flatMap.mpr ⟨y, hy, hlast⟩)

variable [Scalar ρ]

/-- The hashed parts of a hashed tree are its parts, each hashed as a tree. -/
theorem postorder_hashed (mix : Hasher ρ) (e : Expr ρ) :
    (hashed mix e).postorder = e.postorder.map (hashed mix) := by
  induction e using childrenInduction with
  | step e ih =>
    rw [Subtree.postorder_eq, postorder_eq, parts_hashed, List.map_append, List.map_flatMap,
      List.flatMap_map, List.flatMap_congr ih, List.map_singleton]

/-- **The walk lists the parts of a tree in postorder,** each with the hash of its tree. -/
theorem subtrees?_eq_map (mix : Hasher ρ) (e : Expr ρ) :
    subtrees? mix e = some (e.postorder.map (hashed mix)) := by
  rw [subtrees?_eq, postorder_hashed]

/-- The hash of a tree comes from its label and the hashes of its parts. -/
theorem hash_hashed (mix : Hasher ρ) (e : Expr ρ) :
    (hashed mix e).hash = mix e.label (e.children.map fun x => (hashed mix x).hash) := by
  rw [hashed_eq, Subtree.build, Subtree.hash, List.map_map]
  rfl

/-- Trees with the same label and parts that are alike are alike. -/
theorem alike_of_label {x y : Expr ρ} (hlabel : x.label = y.label)
    (hchildren : List.Forall₂ Alike x.children y.children) : Alike x y := by
  cases x with
  | constant a =>
    cases y with
    | constant b =>
      injection hlabel with hkey
      exact .constant (Scalar.same_iff.mpr hkey)
    | _ => cases hlabel
  | var v =>
    cases y with
    | var w =>
      cases hlabel
      exact .var
    | _ => cases hlabel
  | unary op x =>
    cases y with
    | unary =>
      cases hlabel
      obtain _ | ⟨hx, -⟩ := hchildren
      exact .unary hx
    | _ => cases hlabel
  | binary op x x' =>
    cases y with
    | binary =>
      cases hlabel
      obtain _ | ⟨hx, _ | ⟨hx', -⟩⟩ := hchildren
      exact .binary hx hx'
    | _ => cases hlabel
  | call name args =>
    cases y with
    | call =>
      cases hlabel
      exact .call hchildren
    | _ => cases hlabel
  | conditional c t f =>
    cases y with
    | conditional =>
      obtain _ | ⟨hc, _ | ⟨ht, _ | ⟨hf, -⟩⟩⟩ := hchildren
      exact .conditional hc ht hf
    | _ => cases hlabel

/-- **Trees count as the same if they do so at the root and in all parts.** -/
theorem same_iff_root {x y : Expr ρ} :
    same x y = true ↔ x.label = y.label ∧
      List.Forall₂ (fun a b => same a b = true) x.children y.children := by
  simp only [same_iff_alike]
  exact ⟨fun h => ⟨label_alike h, children_alike h⟩, fun h => alike_of_label h.1 h.2⟩

/-- Counting as the same is an equivalence of trees. -/
theorem same_equivalence : Equivalence fun x y : Expr ρ => same x y = true where
  refl := same_self
  symm h := same_iff_alike.mpr (same_iff_alike.mp h).symm
  trans h h' := same_iff_alike.mpr ((same_iff_alike.mp h).trans (same_iff_alike.mp h'))

end Expr

/-- Counting as the same is an equivalence of parts, whatever their hashes. -/
theorem Subtree.same_equivalence {ρ : Type} [Scalar ρ] :
    Equivalence fun s t : Subtree ρ => s.same t = true where
  refl := same_self
  symm h := by
    obtain ⟨hhash, htree⟩ := same_iff.mp h
    exact same_iff.mpr ⟨hhash.symm, Expr.same_equivalence.symm htree⟩
  trans h h' := by
    obtain ⟨hhash, htree⟩ := same_iff.mp h
    obtain ⟨hhash', htree'⟩ := same_iff.mp h'
    exact same_iff.mpr ⟨hhash.trans hhash', Expr.same_equivalence.trans htree htree'⟩

/-! ### States -/

/-- Where the walk over the parts of a tree stands. -/
structure Traversal (ρ : Type) where
  /-- The visits to come, the next one first. -/
  pending : List (Expr.Visit ρ)
  /-- The parts that are done and wait for the part above them, the last one first. -/
  done : List (Subtree ρ)
  /-- All parts that are done, the last one first. -/
  listed : List (Subtree ρ)

namespace Traversal

open CircuitExpr.Expr (Visit hashed popParts popParts_append parts_hashed hashed_eq walk subtrees?)

variable {ρ : Type}

/-- The walk before its first turn. -/
def start (e : Expr ρ) : Traversal ρ := ⟨[.enter e], [], []⟩

/-- How many turns there are to come. -/
def turnsLeft (t : Traversal ρ) : Nat := Visit.weightList t.pending

/-- A traversal takes two turns for each node. -/
theorem turnsLeft_start (e : Expr ρ) : (start e).turnsLeft = 2 * e.size := rfl

/-- No turn is left when nothing is pending. -/
theorem turnsLeft_eq_zero_iff {t : Traversal ρ} : t.turnsLeft = 0 ↔ t.pending = [] := by
  obtain ⟨pending, done, listed⟩ := t
  cases pending with
  | nil => exact ⟨fun _ => rfl, fun _ => rfl⟩
  | cons visit rest =>
    refine ⟨fun h => ?_, nofun⟩
    have hvisit : 0 < visit.weight := by
      cases visit with
      | enter e => exact Nat.mul_pos Nat.two_pos e.size_pos
      | leave e => exact Nat.one_pos
    rw [turnsLeft, Visit.weightList] at h
    omega

variable [Scalar ρ] {mix : Hasher ρ}

/-- The next turn.  There is none when all is visited, and none if fewer parts are done than
the part to leave has. -/
def advance (mix : Hasher ρ) (t : Traversal ρ) : Option (Traversal ρ) :=
  match t.pending with
  | [] => none
  | .enter e :: rest => some ⟨e.children.map .enter ++ .leave e :: rest, t.done, t.listed⟩
  | .leave e :: rest =>
    (popParts e.children.length t.done).map fun (parts, below) =>
      ⟨rest, .build mix e parts :: below, .build mix e parts :: t.listed⟩

/-- The walk after some turns, if there are as many. -/
def run (mix : Hasher ρ) (t : Traversal ρ) : Nat → Option (Traversal ρ)
  | 0 => some t
  | k + 1 => (run mix t k).bind (advance mix)

/-- What the walk ends with from here. -/
def outcome (mix : Hasher ρ) (t : Traversal ρ) : Option (List (Subtree ρ)) :=
  walk mix t.pending t.done t.listed

/-- A turn enters a part, or leaves one whose parts it finds done. -/
theorem advance_cases {t t' : Traversal ρ} (h : t.advance mix = some t') :
    (∃ e rest, t.pending = .enter e :: rest ∧
      t' = ⟨e.children.map .enter ++ .leave e :: rest, t.done, t.listed⟩) ∨
    ∃ e rest parts below, t.pending = .leave e :: rest ∧
      popParts e.children.length t.done = some (parts, below) ∧
      t' = ⟨rest, .build mix e parts :: below, .build mix e parts :: t.listed⟩ := by
  obtain ⟨pending, done, listed⟩ := t
  cases pending with
  | nil => cases h
  | cons visit rest =>
    cases visit with
    | enter e => exact .inl ⟨e, rest, rfl, (Option.some.inj h).symm⟩
    | leave e =>
      obtain ⟨⟨parts, below⟩, hpop, rfl⟩ := Option.map_eq_some_iff.mp h
      exact .inr ⟨e, rest, parts, below, rfl, hpop, rfl⟩

/-- Each turn leaves one turn less. -/
theorem turnsLeft_advance {t t' : Traversal ρ} (h : t.advance mix = some t') :
    t.turnsLeft = t'.turnsLeft + 1 := by
  obtain ⟨pending, done, listed⟩ := t
  obtain ⟨e, rest, rfl, rfl⟩ | ⟨e, rest, parts, below, rfl, -, rfl⟩ := advance_cases h
  · have hsize := e.size_eq
    simp only [turnsLeft, Visit.weightList_enter, Visit.weightList, Visit.weight]
    omega
  · simp only [turnsLeft, Visit.weightList, Visit.weight]
    omega

/-- A turn does not change what the walk ends with. -/
theorem outcome_advance {t t' : Traversal ρ} (h : t.advance mix = some t') :
    t.outcome mix = t'.outcome mix := by
  obtain ⟨pending, done, listed⟩ := t
  obtain ⟨e, rest, rfl, rfl⟩ | ⟨e, rest, parts, below, rfl, hpop, rfl⟩ := advance_cases h
  · rw [outcome, walk]
    rfl
  · rw [outcome, walk]
    simp only at hpop
    rw [hpop]
    rfl

/-! ### The invariant -/

/-- Each part that is left on the way has its parts by then on top of those that are done,
the last one first, and in the end `final` is done. -/
def Leads (mix : Hasher ρ) (final : List (Subtree ρ)) :
    List (Visit ρ) → List (Subtree ρ) → Prop
  | [], done => done = final
  | .enter e :: rest, done => Leads mix final rest (hashed mix e :: done)
  | .leave e :: rest, done => ∃ below, done = (e.children.map (hashed mix)).reverse ++ below ∧
      Leads mix final rest (hashed mix e :: below)

/-- Entering some trees leads on with all of them done, the last one on top. -/
theorem leads_enters {final : List (Subtree ρ)} (es : List (Expr ρ)) (rest : List (Visit ρ))
    (done : List (Subtree ρ)) :
    Leads mix final (es.map .enter ++ rest) done ↔
      Leads mix final rest ((es.map (hashed mix)).reverse ++ done) := by
  induction es generalizing done with
  | nil => rfl
  | cons e es ih =>
    rw [List.map_cons, List.cons_append, Leads, ih, List.map_cons, List.reverse_cons,
      List.append_assoc, List.singleton_append]

/-- The parts that a visit will list, together with those that it puts before itself. -/
def toList (mix : Hasher ρ) : Visit ρ → List (Subtree ρ)
  | .enter e => (hashed mix e).postorder
  | .leave e => [hashed mix e]

/-- What holds in each state that the walk comes to from the tree `e`. -/
structure Consistent (mix : Hasher ρ) (e : Expr ρ) (t : Traversal ρ) : Prop where
  /-- The visits to come find the parts that they need, and leave the tree. -/
  leads : Leads mix [hashed mix e] t.pending t.done
  /-- The parts so far and those to come are the parts of the tree in postorder. -/
  listed : t.listed.reverse ++ t.pending.flatMap (toList mix) = (hashed mix e).postorder

/-- The invariant holds at the start. -/
theorem consistent_start (mix : Hasher ρ) (e : Expr ρ) : (start e).Consistent mix e :=
  ⟨rfl, List.flatMap_singleton _ _⟩

/-- The part that is left finds its parts on top of those that are done. -/
theorem Consistent.popParts_eq {e x : Expr ρ} {t : Traversal ρ} (h : t.Consistent mix e)
    {rest : List (Visit ρ)} (hpending : t.pending = .leave x :: rest) :
    ∃ below, popParts x.children.length t.done = some (x.children.map (hashed mix), below) ∧
      Leads mix [hashed mix e] rest (hashed mix x :: below) := by
  have hleads := h.leads
  rw [hpending, Leads] at hleads
  obtain ⟨below, hdone, hrest⟩ := hleads
  have hpop := popParts_append (x.children.map (hashed mix)) below
  rw [List.length_map] at hpop
  exact ⟨below, hdone ▸ hpop, hrest⟩

/-- **A turn keeps the invariant.** -/
theorem Consistent.advance {e : Expr ρ} {t t' : Traversal ρ} (h : t.Consistent mix e)
    (ht : t.advance mix = some t') : t'.Consistent mix e := by
  obtain ⟨pending, done, listed⟩ := t
  obtain ⟨x, rest, rfl, rfl⟩ | ⟨x, rest, parts, below, rfl, hpop, rfl⟩ := advance_cases ht
  · -- the parts of `x` will lie on what is done now when `x` is left
    refine ⟨(leads_enters _ _ _).mpr ⟨done, rfl, h.leads⟩, ?_⟩
    have hroot : (hashed mix x).postorder =
        (x.children.map .enter).flatMap (toList mix) ++ [hashed mix x] := by
      rw [Subtree.postorder_eq, parts_hashed, List.flatMap_map, List.flatMap_map]
      rfl
    rw [← h.listed, List.flatMap_append, List.flatMap_cons, List.flatMap_cons, toList, toList,
      hroot, List.append_assoc]
  · -- what is taken off is what the invariant says, so `x` is hashed as a tree
    obtain ⟨below', hpop', hrest⟩ := h.popParts_eq rfl
    obtain ⟨rfl, rfl⟩ := Prod.mk.inj (Option.some.inj (hpop.symm.trans hpop'))
    rw [← hashed_eq]
    refine ⟨hrest, ?_⟩
    rw [← h.listed, List.reverse_cons, List.append_assoc]
    rfl

/-- **A walk that has not come to its end can go on.** -/
theorem Consistent.exists_advance {e : Expr ρ} {t : Traversal ρ} (h : t.Consistent mix e)
    (hpending : t.pending ≠ []) : ∃ t', t.advance mix = some t' := by
  obtain ⟨pending, done, listed⟩ := t
  cases pending with
  | nil => exact absurd rfl hpending
  | cons visit rest =>
    cases visit with
    | enter x => exact ⟨_, rfl⟩
    | leave x =>
      obtain ⟨below, hpop, -⟩ := h.popParts_eq rfl
      exact ⟨_, Option.map_eq_some_iff.mpr ⟨_, hpop, rfl⟩⟩

/-- **The walk takes twice as many turns as the tree has parts,** keeping the invariant and
what it ends with. -/
theorem exists_run (mix : Hasher ρ) (e : Expr ρ) {k : Nat} (hk : k ≤ 2 * e.size) :
    ∃ t, (start e).run mix k = some t ∧ t.Consistent mix e ∧
      t.outcome mix = subtrees? mix e ∧ t.turnsLeft + k = 2 * e.size := by
  induction k with
  | zero => exact ⟨start e, rfl, consistent_start mix e, rfl, turnsLeft_start e⟩
  | succ k ih =>
    obtain ⟨t, hrun, ht, houtcome, hleft⟩ := ih (Nat.le_of_succ_le hk)
    have hpending : t.pending ≠ [] := by
      rw [Ne, ← turnsLeft_eq_zero_iff]
      omega
    obtain ⟨t', ht'⟩ := ht.exists_advance hpending
    refine ⟨t', ?_, ht.advance ht', ?_, ?_⟩
    · rw [run, hrun, Option.bind_some, ht']
    · rw [← outcome_advance ht', houtcome]
    · rw [turnsLeft_advance ht'] at hleft
      omega

end Traversal

namespace Expr

/-- A listed part is a part of the tree, hashed. -/
theorem mem_subtrees_iff {ρ : Type} [Scalar ρ] {mix : Hasher ρ} {e : Expr ρ} {s : Subtree ρ} :
    s ∈ subtrees mix e ↔ ∃ x ∈ e.postorder, hashed mix x = s := by
  rw [subtrees, subtrees?_eq_map, Option.getD_some, List.mem_map]

/-- **The walk lists the parts of a tree in postorder, with sound keys,** for every tree and
every function in the place of the hasher.

It comes to its end after `2 * e.size` turns and not before; until then there is a next turn,
and a part that is left finds its hashed parts, from left to right, on the stack of those
that are done.  The list has one entry for each part, those of a part before it and from left
to right, the tree last; the hash of an entry is computed from its label and the hashes of
its own parts, which are listed too.

Listed parts that count as the same have the same hash, in one tree as in two.  So comparing
hashes before trees changes nothing, even where different trees have the same hash.  Counting
as the same is an equivalence of trees and of parts.  It is up to constants that are both
zeros or both undefined. -/
theorem subtrees_in_postorder (mix : Hasher Double) (e : Expr Double) :
    (∀ k ≤ 2 * e.size, ∃ t, (Traversal.start e).run mix k = some t ∧
      t.outcome mix = subtrees? mix e ∧
      (∃ coming, t.listed.reverse ++ coming = e.postorder.map (hashed mix)) ∧
      (∀ x rest, t.pending = .leave x :: rest → ∃ below,
        popParts x.children.length t.done = some (x.children.map (hashed mix), below)) ∧
      (t.pending = [] ↔ k = 2 * e.size)) ∧
    (subtrees? mix e = some (e.postorder.map (hashed mix)) ∧ e.postorder.length = e.size ∧
      e.postorder = e.children.flatMap postorder ++ [e]) ∧
    (∀ x : Expr Double, subtree? mix x = some (hashed mix x) ∧ (hashed mix x).tree = x ∧
      (hashed mix x).hash = mix x.label (x.children.map fun c => (hashed mix c).hash)) ∧
    (∀ x ∈ e.postorder, x.children ⊆ e.postorder) ∧
    (∀ e' : Expr Double, ∀ s ∈ subtrees mix e, ∀ s' ∈ subtrees mix e',
      (same s.tree s'.tree = true → s.hash = s'.hash) ∧ s.same s' = same s.tree s'.tree) ∧
    (Equivalence fun x y : Expr Double => same x y = true) ∧
    (Equivalence fun s s' : Subtree Double => s.same s' = true) ∧
    (∀ x y : Expr Double, same x y = true ↔ x.label = y.label ∧
      List.Forall₂ (fun c d => same c d = true) x.children y.children) ∧
    ∀ a b : Double, same (.constant a) (.constant b) = true ↔
      a = b ∨ (Scalar.eq a 0 = true ∧ Scalar.eq b 0 = true) ∨
        (Scalar.isNaN a = true ∧ Scalar.isNaN b = true) := by
  refine ⟨fun k hk => ?_, ⟨subtrees?_eq_map mix e, length_postorder e, postorder_eq e⟩,
    fun x => ⟨subtree?_eq mix x, tree_hashed mix x, hash_hashed mix x⟩,
    fun x hx => children_subset_postorder hx, fun e' s hs s' hs' => ?_, same_equivalence,
    Subtree.same_equivalence, fun x y => same_iff_root, fun a b => Double.same_iff_eq⟩
  · obtain ⟨t, hrun, ht, houtcome, hleft⟩ := Traversal.exists_run mix e hk
    refine ⟨t, hrun, houtcome, ⟨_, ht.listed.trans (postorder_hashed mix e)⟩, ?_, ?_⟩
    · intro x rest hpending
      obtain ⟨below, hpop, -⟩ := ht.popParts_eq hpending
      exact ⟨below, hpop⟩
    · rw [← Traversal.turnsLeft_eq_zero_iff]
      omega
  · obtain ⟨x, -, rfl⟩ := mem_subtrees_iff.mp hs
    obtain ⟨y, -, rfl⟩ := mem_subtrees_iff.mp hs'
    rw [tree_hashed, tree_hashed]
    refine ⟨fun h => hash_alike mix (same_iff_alike.mp h), ?_⟩
    rw [Bool.eq_iff_iff, same_hashed_iff, same_iff_alike]

end Expr
end CircuitExpr
