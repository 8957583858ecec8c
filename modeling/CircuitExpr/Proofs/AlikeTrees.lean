/-
# Trees that count as the same

`Expr.same` compares constants by their keys, so a tree with a negative zero is the same
as one with a zero, and all undefined results are one.  `Expr.Alike` is this relation as
a rule for each kind of tree; it is an equivalence.  Trees are alike if they match up to
constants that count as one (`alike_iff_matches`), and operators that fold keep them alike
if arithmetic does not tell such constants apart.  This is asked of the numbers:
`Scalar.RespectsKeys`.

A choice folds where its branches count as the same.  Of two choices with branches that are
alike both do, or none does.
-/

import Mathlib
import CircuitExpr.Proofs.MatchedTrees

namespace CircuitExpr

/-! ### Lists across from each other -/

/-- An element of the first list stands across from one of the second. -/
theorem exists_right_of_mem {β γ : Type} {R : β → γ → Prop} {xs : List β} {ys : List γ}
    (h : List.Forall₂ R xs ys) {x : β} (hx : x ∈ xs) : ∃ y ∈ ys, R x y := by
  induction h with
  | nil => cases hx
  | @cons z y xs ys hzy _ ih =>
    obtain rfl | hx := List.mem_cons.mp hx
    · exact ⟨y, List.mem_cons_self, hzy⟩
    · obtain ⟨y', hy', hx⟩ := ih hx
      exact ⟨y', List.mem_cons_of_mem y hy', hx⟩

/-- An element of the second list stands across from one of the first. -/
theorem exists_left_of_mem {β γ : Type} {R : β → γ → Prop} {xs : List β} {ys : List γ}
    (h : List.Forall₂ R xs ys) {y : γ} (hy : y ∈ ys) : ∃ x ∈ xs, R x y :=
  exists_right_of_mem (List.Forall₂.flip (R := flip R) h) hy

/-- Lists whose elements agree under two functions agree under mapping these. -/
theorem map_eq_map_of_forall₂ {β γ δ : Type} {f : β → δ} {g : γ → δ} {xs : List β} {ys : List γ}
    (h : List.Forall₂ (fun x y => f x = g y) xs ys) : xs.map f = ys.map g := by
  rwa [← List.forall₂_eq_eq_eq, List.forall₂_map_left_iff, List.forall₂_map_right_iff]

/-! ### Numbers that count as one -/

namespace Scalar

variable {ρ : Type} [Scalar ρ]

/-- Every number is the same as itself. -/
theorem same_refl (a : ρ) : same a a = true := same_iff.mpr rfl

/-- Numbers are the same in either direction. -/
theorem same_symm {a b : ρ} (h : same a b = true) : same b a = true :=
  same_iff.mpr (same_iff.mp h).symm

/-- Numbers that are the same as a third one are the same. -/
theorem same_trans {a b c : ρ} (h : same a b = true) (h' : same b c = true) : same a c = true :=
  same_iff.mpr ((same_iff.mp h).trans (same_iff.mp h'))

/-- Arithmetic does not tell apart numbers that count as one. -/
class RespectsKeys (ρ : Type) [Scalar ρ] : Prop where
  /-- Numeric equality. -/
  eq {a a' b b' : ρ} : same a a' = true → same b b' = true → Scalar.eq a b = Scalar.eq a' b'
  /-- The number with the other sign. -/
  neg {a a' : ρ} : same a a' = true → same (-a) (-a') = true
  /-- The sum. -/
  add {a a' b b' : ρ} : same a a' = true → same b b' = true → same (a + b) (a' + b') = true
  /-- The difference. -/
  sub {a a' b b' : ρ} : same a a' = true → same b b' = true → same (a - b) (a' - b') = true
  /-- The product. -/
  mul {a a' b b' : ρ} : same a a' = true → same b b' = true → same (a * b) (a' * b') = true
  /-- The quotient, unless it is one by zero. -/
  div {a a' b b' : ρ} : Scalar.eq b 0 = false → same a a' = true → same b b' = true →
    same (a / b) (a' / b') = true
  /-- The power, unless it is one of zero. -/
  pow {a a' b b' : ρ} : Scalar.eq a 0 = false → same a a' = true → same b b' = true →
    same (pow a b) (pow a' b') = true
  /-- A zero stays one with the other sign. -/
  neg_zero {a : ρ} : Scalar.eq a 0 = true → Scalar.eq (-a) 0 = true
  /-- The integer that a number is. -/
  toInt? {a a' : ρ} : same a a' = true → Scalar.toInt? a = Scalar.toInt? a'

/-- Arithmetic does not tell apart numbers that count as one. -/
theorem RespectsKeys.compatible [RespectsKeys ρ] :
    Compatible fun a b : ρ => same a b = true where
  refl := same_refl
  eq := RespectsKeys.eq
  neg := RespectsKeys.neg
  add := RespectsKeys.add
  sub := RespectsKeys.sub
  mul := RespectsKeys.mul
  div := RespectsKeys.div
  pow := RespectsKeys.pow
  neg_zero := RespectsKeys.neg_zero
  toInt? := RespectsKeys.toInt?

end Scalar

namespace Expr

variable {ρ : Type} [Scalar ρ]

/-! ### The relation -/

/-- Two trees differ at most in constants that count as one. -/
inductive Alike : Expr ρ → Expr ρ → Prop
  /-- Numbers that count as one. -/
  | constant {a b : ρ} : Scalar.same a b = true → Alike (.constant a) (.constant b)
  /-- A variable. -/
  | var {v : Variable} : Alike (.var v) (.var v)
  /-- An operator before operands that are alike. -/
  | unary {op : UnaryOp} {x y : Expr ρ} : Alike x y → Alike (.unary op x) (.unary op y)
  /-- An operator between operands that are alike. -/
  | binary {op : BinaryOp} {x x' y y' : Expr ρ} : Alike x y → Alike x' y' →
    Alike (.binary op x x') (.binary op y y')
  /-- A function of arguments that are alike. -/
  | call {name : String} {xs ys : List (Expr ρ)} : List.Forall₂ Alike xs ys →
    Alike (.call name xs) (.call name ys)
  /-- A choice between branches that are alike, on conditions that are. -/
  | conditional {c d t u f g : Expr ρ} : Alike c d → Alike t u → Alike f g →
    Alike (.conditional c t f) (.conditional d u g)

/-- Lists count as the same if they are alike element by element. -/
theorem sameList_iff {xs : List (Expr ρ)} (hxs : ∀ x ∈ xs, ∀ y, same x y = true ↔ Alike x y)
    {ys : List (Expr ρ)} : sameList xs ys = true ↔ List.Forall₂ Alike xs ys := by
  induction xs generalizing ys with
  | nil => cases ys <;> simp [sameList]
  | cons x xs ih =>
    cases ys with
    | nil => simp [sameList]
    | cons y ys =>
      rw [sameList, Bool.and_eq_true, List.forall₂_cons, hxs x List.mem_cons_self,
        ih fun x hx => hxs x (List.mem_cons_of_mem _ hx)]

/-- **Trees are the same exactly if they are alike.** -/
theorem same_iff_alike {x y : Expr ρ} : same x y = true ↔ Alike x y := by
  induction x using Expr.induction generalizing y with
  | constant a =>
    constructor
    · intro h
      cases y <;> simp only [same, Bool.false_eq_true] at h
      exact .constant h
    · rintro ⟨h⟩
      exact h
  | var v =>
    constructor
    · intro h
      cases y <;> simp only [same, Bool.false_eq_true, decide_eq_true_eq] at h
      exact h ▸ .var
    · rintro ⟨⟩
      exact decide_eq_true rfl
  | unary op x ih =>
    constructor
    · intro h
      cases y <;> simp only [same, Bool.false_eq_true, Bool.and_eq_true, decide_eq_true_eq] at h
      exact h.1 ▸ .unary (ih.mp h.2)
    · rintro ⟨⟩
      rename_i h
      simp [same, ih.mpr h]
  | binary op x x' ihx ihx' =>
    constructor
    · intro h
      cases y <;> simp only [same, Bool.false_eq_true, Bool.and_eq_true, decide_eq_true_eq] at h
      exact h.1.1 ▸ .binary (ihx.mp h.1.2) (ihx'.mp h.2)
    · rintro ⟨⟩
      rename_i h h'
      simp [same, ihx.mpr h, ihx'.mpr h']
  | call name xs ih =>
    have hlist {ys : List (Expr ρ)} : sameList xs ys = true ↔ List.Forall₂ Alike xs ys :=
      sameList_iff fun x hx y => ih x hx
    constructor
    · intro h
      cases y <;> simp only [same, Bool.false_eq_true, Bool.and_eq_true, decide_eq_true_eq] at h
      exact h.1 ▸ .call (hlist.mp h.2)
    · rintro ⟨⟩
      rename_i h
      simp [same, hlist.mpr h]
  | conditional c t f ihc iht ihf =>
    constructor
    · intro h
      cases y <;> simp only [same, Bool.false_eq_true, Bool.and_eq_true] at h
      exact .conditional (ihc.mp h.1.1) (iht.mp h.1.2) (ihf.mp h.2)
    · rintro ⟨⟩
      rename_i hc ht hf
      simp [same, ihc.mpr hc, iht.mpr ht, ihf.mpr hf]

/-- Trees are alike if they match up to constants that count as one. -/
theorem alike_iff_matches {x y : Expr ρ} :
    Alike x y ↔ Matches (fun a b => Scalar.same a b = true) (· = ·) x y := by
  constructor
  · intro h
    induction x using Expr.induction generalizing y with
    | constant a =>
      obtain ⟨h⟩ := h
      exact .constant h
    | var v =>
      obtain ⟨⟩ := h
      exact .var
    | unary op x ih =>
      obtain ⟨⟩ := h
      exact .unary (ih ‹_›)
    | binary op x x' ihx ihx' =>
      obtain ⟨⟩ := h
      exact .binary (ihx ‹_›) (ihx' ‹_›)
    | call name xs ih =>
      obtain ⟨⟩ := h
      exact .call rfl (forall₂_imp_of_mem (fun x hx y => ih x hx) ‹_›)
    | conditional c t f ihc iht ihf =>
      obtain ⟨⟩ := h
      exact .conditional (ihc ‹_›) (iht ‹_›) (ihf ‹_›)
  · intro h
    induction x using Expr.induction generalizing y with
    | constant a =>
      obtain ⟨h⟩ := h
      exact .constant h
    | var v =>
      obtain ⟨⟩ := h
      exact .var
    | unary op x ih =>
      obtain ⟨⟩ := h
      exact .unary (ih ‹_›)
    | binary op x x' ihx ihx' =>
      obtain ⟨⟩ := h
      exact .binary (ihx ‹_›) (ihx' ‹_›)
    | call name xs ih =>
      obtain _ | _ | _ | _ | ⟨rfl, h⟩ := h
      exact .call (forall₂_imp_of_mem (fun x hx y => ih x hx) h)
    | conditional c t f ihc iht ihf =>
      obtain ⟨⟩ := h
      exact .conditional (ihc ‹_›) (iht ‹_›) (ihf ‹_›)

/-- A relation that goes on for the elements of a list goes on for lists. -/
theorem forall₂_trans {α : Type} {r : α → α → Prop} {l₁ l₂ l₃ : List α}
    (hr : ∀ a ∈ l₁, ∀ {b c}, r a b → r b c → r a c) (h : List.Forall₂ r l₁ l₂)
    (h' : List.Forall₂ r l₂ l₃) : List.Forall₂ r l₁ l₃ := by
  induction h generalizing l₃ with
  | nil => exact h'
  | cons hab _ ih =>
    cases h' with
    | cons hbc h' =>
      exact .cons (hr _ List.mem_cons_self hab hbc)
        (ih (fun a ha => hr a (List.mem_cons_of_mem _ ha)) h')

namespace Alike

variable {x x' y y' z : Expr ρ}

/-- Every tree is alike to itself. -/
theorem refl (x : Expr ρ) : Alike x x := same_iff_alike.mp (same_self x)

/-- Trees are alike in either direction. -/
theorem symm (h : Alike x y) : Alike y x :=
  alike_iff_matches.mpr ((alike_iff_matches.mp h).symm Scalar.same_symm Eq.symm)

/-- Trees that are alike to a third one are alike. -/
theorem trans (h : Alike x y) (h' : Alike y z) : Alike x z := by
  induction x using Expr.induction generalizing y z with
  | constant a =>
    obtain ⟨h⟩ := h
    obtain ⟨h'⟩ := h'
    exact .constant (Scalar.same_trans h h')
  | var v =>
    obtain ⟨⟩ := h
    exact h'
  | unary op x ih =>
    obtain ⟨⟩ := h
    obtain ⟨⟩ := h'
    exact .unary (ih ‹_› ‹_›)
  | binary op x x' ihx ihx' =>
    obtain ⟨⟩ := h
    obtain ⟨⟩ := h'
    exact .binary (ihx ‹_› ‹_›) (ihx' ‹_› ‹_›)
  | call name xs ih =>
    obtain ⟨⟩ := h
    obtain ⟨⟩ := h'
    exact .call (forall₂_trans ih ‹_› ‹_›)
  | conditional c t f ihc iht ihf =>
    obtain ⟨⟩ := h
    obtain ⟨⟩ := h'
    exact .conditional (ihc ‹_› ‹_›) (iht ‹_› ‹_›) (ihf ‹_› ‹_›)

/-- Of two trees that are alike, both are constants or none is. -/
theorem asConstant?_eq_none (h : Alike x y) : x.asConstant? = none ↔ y.asConstant? = none :=
  (alike_iff_matches.mp h).asConstant?_eq_none

/-- A choice between branches that are alike is alike, if the conditions are. -/
theorem select {c d : Expr ρ} [Scalar.RespectsKeys ρ] (hc : Alike c d) (h : Alike x y)
    (h' : Alike x' y') : Alike (Expr.select c x x') (Expr.select d y y') := by
  have hsame : same x x' = same y y' := by
    rw [Bool.eq_iff_iff, same_iff_alike, same_iff_alike]
    exact ⟨fun hxx => h.symm.trans (hxx.trans h'), fun hyy => h.trans (hyy.trans h'.symm)⟩
  refine related_ite hsame h ?_
  obtain ⟨a, b, hca, hdb, hab⟩ | ⟨hc', hd'⟩ := (alike_iff_matches.mp hc).asConstant?_cases
  · rw [hca, hdb]
    exact related_ite (congrArg not (Scalar.RespectsKeys.compatible.eq_right hab 0)) h h'
  · rw [hc', hd']
    exact .conditional hc h h'

end Alike
end Expr
end CircuitExpr
