/-
# What the walk over the parts of a tree finds

`Expr.subtree?` hashes the parts of a tree in one walk with two stacks.  `hashed` is the
recursion that the walk replaces: a tree is hashed from the hashes of its parts.  The
walk visits a part, and what it leaves on the stack of parts that are done is the part
hashed (`walk_enter`), so it never runs short and ends with the whole tree.  What it lists
is the part in postorder, so the variables are listed as the leaves stand from left to
right (`occurrences_eq_leaves`).
-/

import Mathlib
import CircuitExpr.Expr.Variables
import CircuitExpr.Proofs.Interpreter

namespace CircuitExpr

namespace Subtree

variable {ρ : Type}

mutual

/-- The parts below, from left to right and each after its own parts, and then the part. -/
def postorder : Subtree ρ → List (Subtree ρ)
  | .mk t h ps => postorderAll ps ++ [.mk t h ps]

/-- Some parts, each after its own parts. -/
def postorderAll : List (Subtree ρ) → List (Subtree ρ)
  | [] => []
  | s :: ss => postorder s ++ postorderAll ss

end

/-- The parts of some subtrees come one subtree after the other. -/
theorem postorderAll_eq_flatMap (ss : List (Subtree ρ)) :
    postorderAll ss = ss.flatMap postorder := by
  induction ss with
  | nil => rfl
  | cons s ss ih => rw [postorderAll, ih, List.flatMap_cons]

/-- A subtree comes after its parts. -/
theorem postorder_eq (s : Subtree ρ) : s.postorder = s.parts.flatMap postorder ++ [s] := by
  cases s
  rw [postorder, postorderAll_eq_flatMap, parts]

end Subtree

namespace Expr

variable {ρ : Type}

/-- A property of all trees, shown from the parts of each to the whole, whatever stands
at the root. -/
@[elab_as_elim]
theorem childrenInduction {motive : Expr ρ → Prop}
    (step : ∀ e : Expr ρ, (∀ x ∈ e.children, motive x) → motive e) (e : Expr ρ) : motive e := by
  induction e using Expr.induction with
  | constant c => exact step _ nofun
  | var v => exact step _ nofun
  | unary op x ih => exact step _ (List.forall_mem_singleton.mpr ih)
  | binary op x y ihx ihy => exact step _ (by simpa [children] using ⟨ihx, ihy⟩)
  | call name args ih => exact step _ ih
  | conditional c t f ihc iht ihf => exact step _ (by simpa [children] using ⟨ihc, iht, ihf⟩)

variable [Scalar ρ]

mutual

/-- The tree with its hash and those of its parts. -/
def hashed (mix : Hasher ρ) : Expr ρ → Subtree ρ
  | .constant c => .build mix (.constant c) []
  | .var v => .build mix (.var v) []
  | .unary op x => .build mix (.unary op x) [hashed mix x]
  | .binary op x y => .build mix (.binary op x y) [hashed mix x, hashed mix y]
  | .call name args => .build mix (.call name args) (hashedAll mix args)
  | .conditional c t f =>
    .build mix (.conditional c t f) [hashed mix c, hashed mix t, hashed mix f]

/-- Some trees with their hashes. -/
def hashedAll (mix : Hasher ρ) : List (Expr ρ) → List (Subtree ρ)
  | [] => []
  | x :: xs => hashed mix x :: hashedAll mix xs

end

/-- Trees are hashed one by one. -/
theorem hashedAll_eq_map (mix : Hasher ρ) (es : List (Expr ρ)) :
    hashedAll mix es = es.map (hashed mix) := by
  induction es with
  | nil => rfl
  | cons e es ih => rw [hashedAll, ih, List.map_cons]

/-- A tree is hashed from its hashed children. -/
theorem hashed_eq (mix : Hasher ρ) (e : Expr ρ) :
    hashed mix e = .build mix e (e.children.map (hashed mix)) := by
  cases e with
  | call name args => rw [hashed, hashedAll_eq_map, children]
  | _ => rfl

/-- Hashing keeps the tree. -/
@[simp]
theorem tree_hashed (mix : Hasher ρ) (e : Expr ρ) : (hashed mix e).tree = e := by
  rw [hashed_eq]
  rfl

/-- The parts of a hashed tree are its hashed children. -/
@[simp]
theorem parts_hashed (mix : Hasher ρ) (e : Expr ρ) :
    (hashed mix e).parts = e.children.map (hashed mix) := by
  rw [hashed_eq]
  rfl

/-! ### The walk -/

omit [Scalar ρ] in
/-- The parts on top of the stack are taken off in their order. -/
theorem popParts_append (parts below : List (Subtree ρ)) :
    popParts parts.length (parts.reverse ++ below) = some (parts, below) := by
  have hlength : parts.length = parts.reverse.length := List.length_reverse.symm
  rw [popParts, if_pos (by simp), hlength, List.take_left, List.drop_left, List.reverse_reverse]

/-- Visiting a part leaves it hashed on the stack of parts that are done, and lists it in
postorder. -/
def WalksTo (mix : Hasher ρ) (e : Expr ρ) : Prop :=
  ∀ rest done listed, walk mix (.enter e :: rest) done listed =
    walk mix rest (hashed mix e :: done) ((hashed mix e).postorder.reverse ++ listed)

/-- Visiting some parts leaves them hashed, the last one on top. -/
theorem walk_enters {mix : Hasher ρ} {es : List (Expr ρ)} (hes : ∀ e ∈ es, WalksTo mix e)
    (rest : List (Visit ρ)) (done listed : List (Subtree ρ)) :
    walk mix (es.map .enter ++ rest) done listed =
      walk mix rest ((es.map (hashed mix)).reverse ++ done)
        (((es.map (hashed mix)).flatMap Subtree.postorder).reverse ++ listed) := by
  induction es generalizing done listed with
  | nil => rfl
  | cons e es ih =>
    rw [List.map_cons, List.cons_append, hes e List.mem_cons_self,
      ih fun x hx => hes x (List.mem_cons_of_mem _ hx)]
    simp

/-- **Visiting a part hashes and lists it.** -/
theorem walk_enter (mix : Hasher ρ) (e : Expr ρ) : WalksTo mix e := by
  induction e using childrenInduction with
  | step e ih =>
    intro rest done listed
    have hpop := popParts_append (e.children.map (hashed mix)) done
    rw [List.length_map] at hpop
    have hpostorder : (hashed mix e).postorder.reverse ++ listed =
        hashed mix e ::
          (((e.children.map (hashed mix)).flatMap Subtree.postorder).reverse ++ listed) := by
      rw [Subtree.postorder_eq, parts_hashed]
      simp
    rw [walk, walk_enters ih, walk, hpop, hpostorder]
    simp only [← hashed_eq]

/-- **The walk lists the parts in postorder.** -/
theorem subtrees?_eq (mix : Hasher ρ) (e : Expr ρ) :
    subtrees? mix e = some (hashed mix e).postorder := by
  rw [subtrees?, walk_enter, walk, List.append_nil, List.reverse_reverse]

/-- **The walk ends with the tree hashed.** -/
theorem subtree?_eq (mix : Hasher ρ) (e : Expr ρ) : subtree? mix e = some (hashed mix e) := by
  rw [subtree?, subtrees?_eq, Option.bind_some, Subtree.postorder_eq, List.getLast?_concat]

/-! ### The variables of a tree -/

omit [Scalar ρ] in
/-- The leaves of a tree are those of its children, or the tree itself. -/
theorem leaves_eq (e : Expr ρ) : e.leaves = e.children.flatMap leaves ++ e.asVariable?.toList := by
  have hall (es : List (Expr ρ)) : leavesAll es = es.flatMap leaves := by
    induction es with
    | nil => rfl
    | cons e es ih => rw [leavesAll, ih, List.flatMap_cons]
  cases e with
  | call name args => simp [leaves, children, hall, asVariable?]
  | _ => simp [leaves, children, asVariable?]

/-- **The variables are listed as the leaves stand from left to right.** -/
theorem occurrences_eq_leaves (e : Expr ρ) : e.occurrences = e.leaves := by
  rw [occurrences, subtrees, subtrees?_eq, Option.getD_some]
  induction e using childrenInduction with
  | step e ih =>
    have hroot : [hashed Label.mix e].filterMap (fun s => s.tree.asVariable?) =
        e.asVariable?.toList := by
      rw [List.filterMap_cons, tree_hashed]
      cases e.asVariable? <;> rfl
    rw [Subtree.postorder_eq, parts_hashed, List.filterMap_append, List.filterMap_flatMap,
      List.flatMap_map, List.flatMap_congr ih, leaves_eq, hroot]

/-! ### Comparing trees -/

/-- A list is the same as itself if its trees are. -/
theorem sameList_self {es : List (Expr ρ)} (h : ∀ e ∈ es, same e e = true) :
    sameList es es = true := by
  induction es with
  | nil => rfl
  | cons e es ih =>
    rw [sameList, h e List.mem_cons_self, ih fun x hx => h x (List.mem_cons_of_mem _ hx)]
    rfl

/-- A tree is the same as itself. -/
theorem same_self (e : Expr ρ) : same e e = true := by
  induction e using Expr.induction with
  | constant c => exact Scalar.same_iff.mpr rfl
  | var v => simp [same]
  | unary op x ih => simp [same, ih]
  | binary op x y ihx ihy => simp [same, ihx, ihy]
  | call name args ih => simp [same, sameList_self ih]
  | conditional c t f ihc iht ihf => simp [same, ihc, iht, ihf]

/-- Lists that count as the same are equal if their trees are. -/
theorem eq_of_sameList {es : List (Expr ρ)} (h : ∀ e ∈ es, ∀ x, same e x = true → e = x)
    {xs : List (Expr ρ)} (hxs : sameList es xs = true) : es = xs := by
  induction es generalizing xs with
  | nil =>
    cases xs with
    | nil => rfl
    | cons x xs => cases hxs
  | cons e es ih =>
    cases xs with
    | nil => cases hxs
    | cons x xs =>
      rw [sameList, Bool.and_eq_true] at hxs
      rw [h e List.mem_cons_self x hxs.1,
        ih (fun y hy => h y (List.mem_cons_of_mem _ hy)) hxs.2]

/-- Where constants count as one only if they are equal, trees are the same only if
they are equal. -/
theorem eq_of_same (hscalar : ∀ a b : ρ, Scalar.same a b = true → a = b) {e x : Expr ρ}
    (h : same e x = true) : e = x := by
  induction e using Expr.induction generalizing x with
  | constant c =>
    cases x <;> simp only [same, Bool.false_eq_true] at h
    rw [hscalar _ _ h]
  | var v =>
    cases x <;> simp only [same, Bool.false_eq_true, decide_eq_true_eq] at h
    rw [h]
  | unary op e ih =>
    cases x <;> simp only [same, Bool.false_eq_true, Bool.and_eq_true, decide_eq_true_eq] at h
    rw [h.1, ih h.2]
  | binary op e f ihe ihf =>
    cases x <;> simp only [same, Bool.false_eq_true, Bool.and_eq_true, decide_eq_true_eq] at h
    rw [h.1.1, ihe h.1.2, ihf h.2]
  | call name args ih =>
    cases x <;> simp only [same, Bool.false_eq_true, Bool.and_eq_true, decide_eq_true_eq] at h
    rw [h.1, eq_of_sameList (fun e he x hx => ih e he hx) h.2]
  | conditional c t f ihc iht ihf =>
    cases x <;> simp only [same, Bool.false_eq_true, Bool.and_eq_true] at h
    rw [ihc h.1.1, iht h.1.2, ihf h.2]

end Expr

/-- A hashed part is the same as itself. -/
theorem Subtree.same_self {ρ : Type} [Scalar ρ] (s : Subtree ρ) : s.same s = true := by
  simp [same, Expr.same_self]

end CircuitExpr
