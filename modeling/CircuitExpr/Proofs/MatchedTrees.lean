/-
# Trees of the same shape

Two trees match if they have the same shape and differ at most in their constants and in
the names of the functions that they call, where what stands across from one another is
related.  Which constants and which names are related is left open: constants that count
as one under equal names are one choice, equal constants under names in another case are
another.

An operator that folds looks at constants and computes with them, and at nothing else.  So
it keeps trees matched as long as arithmetic keeps constants related
(`Scalar.Compatible`).  Two results show the sign of a zero all the same, a quotient by
zero and a power of zero.  The first is never folded; the second is left out of
`Matches.pow`.
-/

import Mathlib
import CircuitExpr.Expr.Fold
import CircuitExpr.Proofs.DerivativeRecursion

namespace CircuitExpr

variable {ρ : Type} [Scalar ρ]

/-- Arithmetic does not tell apart numbers that are related. -/
structure Scalar.Compatible (C : ρ → ρ → Prop) : Prop where
  /-- Every number is related to itself. -/
  refl (a : ρ) : C a a
  /-- Numeric equality. -/
  eq {a a' b b' : ρ} : C a a' → C b b' → Scalar.eq a b = Scalar.eq a' b'
  /-- The number with the other sign. -/
  neg {a a' : ρ} : C a a' → C (-a) (-a')
  /-- The sum. -/
  add {a a' b b' : ρ} : C a a' → C b b' → C (a + b) (a' + b')
  /-- The difference. -/
  sub {a a' b b' : ρ} : C a a' → C b b' → C (a - b) (a' - b')
  /-- The product. -/
  mul {a a' b b' : ρ} : C a a' → C b b' → C (a * b) (a' * b')
  /-- The quotient, unless it is one by zero. -/
  div {a a' b b' : ρ} : Scalar.eq b 0 = false → C a a' → C b b' → C (a / b) (a' / b')
  /-- The power, unless it is one of zero. -/
  pow {a a' b b' : ρ} : Scalar.eq a 0 = false → C a a' → C b b' →
    C (Scalar.pow a b) (Scalar.pow a' b')
  /-- A zero stays one with the other sign. -/
  neg_zero {a : ρ} : Scalar.eq a 0 = true → Scalar.eq (-a) 0 = true
  /-- The integer that a number is. -/
  toInt? {a a' : ρ} : C a a' → Scalar.toInt? a = Scalar.toInt? a'

/-- What a related number is compared with does not matter. -/
theorem Scalar.Compatible.eq_right {C : ρ → ρ → Prop} (hC : Compatible C) {a b : ρ} (h : C a b)
    (c : ρ) : Scalar.eq a c = Scalar.eq b c :=
  hC.eq h (hC.refl c)

/-- Numbers are related to themselves only. -/
theorem Scalar.compatible_eq
    (hzero : ∀ a : ρ, Scalar.eq a 0 = true → Scalar.eq (-a) 0 = true) :
    Compatible (ρ := ρ) (· = ·) where
  refl _ := rfl
  eq ha hb := by rw [ha, hb]
  neg ha := by rw [ha]
  add ha hb := by rw [ha, hb]
  sub ha hb := by rw [ha, hb]
  mul ha hb := by rw [ha, hb]
  div _ ha hb := by rw [ha, hb]
  pow _ ha hb := by rw [ha, hb]
  neg_zero := hzero _
  toInt? ha := by rw [ha]

namespace Expr

/-- A relation may be replaced on the elements of the first list. -/
theorem forall₂_imp_of_mem {α β : Type} {r q : α → β → Prop} {l : List α} {l' : List β}
    (h : ∀ a ∈ l, ∀ b, r a b → q a b) (hl : List.Forall₂ r l l') : List.Forall₂ q l l' := by
  induction hl with
  | nil => exact .nil
  | cons hab _ ih =>
    exact .cons (h _ List.mem_cons_self _ hab) (ih fun x hx => h x (List.mem_cons_of_mem _ hx))

omit [Scalar ρ] in
/-- Two results on a test that turns out the same. -/
theorem related_ite {R : Expr ρ → Expr ρ → Prop} {x x' y y' : Expr ρ} {b b' : Bool}
    (hb : b = b') (h : R x y) (h' : R x' y') :
    R (if b then x else x') (if b' then y else y') := by
  subst hb
  split
  · exact h
  · exact h'

/-- What is no constant does not count as zero. -/
theorem isZero_of_asConstant? {x : Expr ρ} (h : x.asConstant? = none) : x.isZero = false := by
  rw [isZero, h, Option.any_none]

/-- The trees differ at most in constants that `C` relates and in names that `N` does. -/
inductive Matches (C : ρ → ρ → Prop) (N : String → String → Prop) : Expr ρ → Expr ρ → Prop
  /-- Related numbers. -/
  | constant {a b : ρ} : C a b → Matches C N (.constant a) (.constant b)
  /-- A variable. -/
  | var {v : Variable} : Matches C N (.var v) (.var v)
  /-- An operator before operands that match. -/
  | unary {op : UnaryOp} {x y : Expr ρ} : Matches C N x y →
    Matches C N (.unary op x) (.unary op y)
  /-- An operator between operands that match. -/
  | binary {op : BinaryOp} {x x' y y' : Expr ρ} : Matches C N x y → Matches C N x' y' →
    Matches C N (.binary op x x') (.binary op y y')
  /-- Functions with related names, of arguments that match. -/
  | call {name name' : String} {xs ys : List (Expr ρ)} : N name name' →
    List.Forall₂ (Matches C N) xs ys → Matches C N (.call name xs) (.call name' ys)
  /-- A choice between branches that match, on conditions that do. -/
  | conditional {c d t u f g : Expr ρ} : Matches C N c d → Matches C N t u → Matches C N f g →
    Matches C N (.conditional c t f) (.conditional d u g)

namespace Matches

variable {C : ρ → ρ → Prop} {N : String → String → Prop} {x x' y y' : Expr ρ}

omit [Scalar ρ] in
/-- Of two trees that match, both are constants or none is. -/
theorem asConstant?_cases (h : Matches C N x y) :
    (∃ a b, x.asConstant? = some a ∧ y.asConstant? = some b ∧ C a b) ∨
      (x.asConstant? = none ∧ y.asConstant? = none) := by
  cases h with
  | constant h => exact .inl ⟨_, _, rfl, rfl, h⟩
  | _ => exact .inr ⟨rfl, rfl⟩

omit [Scalar ρ] in
/-- Of two trees that match, both are constants or none is. -/
theorem asConstant?_eq_none (h : Matches C N x y) :
    x.asConstant? = none ↔ y.asConstant? = none := by
  obtain ⟨a, b, hx, hy, -⟩ | ⟨hx, hy⟩ := h.asConstant?_cases
  · rw [hx, hy]
    exact iff_of_false (Option.some_ne_none a) (Option.some_ne_none b)
  · exact iff_of_true hx hy

omit [Scalar ρ] in
/-- What trees that match are differentiated through matches. -/
theorem operands (h : Matches C N x y) : List.Forall₂ (Matches C N) x.operands y.operands := by
  cases h with
  | constant _ => exact .nil
  | var => exact .nil
  | @unary op x y hxy => cases op with
    | not => exact .nil
    | _ => exact .cons hxy .nil
  | binary hx hy =>
    rw [Expr.operands, Expr.operands]
    split
    · exact .nil
    · exact .cons hx (.cons hy .nil)
  | call _ hxs => exact hxs
  | conditional _ ht hf => exact .cons ht (.cons hf .nil)

omit [Scalar ρ] in
/-- Every tree matches itself if numbers and names do. -/
theorem refl (hC : ∀ a, C a a) (hN : ∀ name, N name name) (x : Expr ρ) : Matches C N x x := by
  induction x using Expr.induction with
  | constant c => exact .constant (hC c)
  | var v => exact .var
  | unary op x ih => exact .unary ih
  | binary op x y ihx ihy => exact .binary ihx ihy
  | call name xs ih => exact .call (hN name) (List.forall₂_same.mpr ih)
  | conditional c t f ihc iht ihf => exact .conditional ihc iht ihf

omit [Scalar ρ] in
/-- Matching goes both ways if it does for numbers and names. -/
theorem symm (hC : ∀ {a b}, C a b → C b a) (hN : ∀ {name name'}, N name name' → N name' name)
    (h : Matches C N x y) : Matches C N y x := by
  induction x using Expr.induction generalizing y with
  | constant a =>
    obtain ⟨h⟩ := h
    exact .constant (hC h)
  | var v =>
    obtain ⟨⟩ := h
    exact .var
  | unary op x ih =>
    obtain ⟨⟩ := h
    exact .unary (ih ‹_›)
  | binary op x x' ihx ihx' =>
    obtain ⟨⟩ := h
    exact .binary (ihx ‹_›) (ihx' ‹_›)
  | call name xs ih =>
    obtain ⟨⟩ := h
    rename_i hname hxs
    exact .call (hN hname) (List.Forall₂.flip (forall₂_imp_of_mem (fun x hx y => ih x hx) hxs))
  | conditional c t f ihc iht ihf =>
    obtain ⟨⟩ := h
    exact .conditional (ihc ‹_›) (iht ‹_›) (ihf ‹_›)

/-! ### Operators that fold -/

/-- Of two trees that match, both count as zero or none does. -/
theorem isZero (hC : Scalar.Compatible C) (h : Matches C N x y) : x.isZero = y.isZero := by
  unfold Expr.isZero
  obtain ⟨a, b, hx, hy, hab⟩ | ⟨hx, hy⟩ := h.asConstant?_cases
  · rw [hx, hy]
    exact hC.eq_right hab 0
  · rw [hx, hy]

/-- Changing the sign keeps trees matched. -/
theorem neg (hC : Scalar.Compatible C) (h : Matches C N x y) : Matches C N (-x) (-y) := by
  change Matches C N (Expr.neg x) (Expr.neg y)
  cases h with
  | constant h => exact .constant (hC.neg h)
  | @unary op x y h =>
    cases op with
    | minus => exact h
    | _ => exact .unary (.unary h)
  | var => exact .unary .var
  | binary h h' => exact .unary (.binary h h')
  | call hname h => exact .unary (.call hname h)
  | conditional hc ht hf => exact .unary (.conditional hc ht hf)

/-- Sums keep trees matched. -/
theorem add (hC : Scalar.Compatible C) (h : Matches C N x y) (h' : Matches C N x' y') :
    Matches C N (x + x') (y + y') := by
  change Matches C N (Expr.add x x') (Expr.add y y')
  unfold Expr.add
  obtain ⟨a, b, hx, hy, hab⟩ | ⟨hx, hy⟩ := h.asConstant?_cases <;>
    obtain ⟨a', b', hx', hy', hab'⟩ | ⟨hx', hy'⟩ := h'.asConstant?_cases <;>
    simp only [hx, hy, hx', hy']
  · exact .constant (hC.add hab hab')
  · exact related_ite (hC.eq_right hab 0) h' (.binary h h')
  · exact related_ite (hC.eq_right hab' 0) h (.binary h h')
  · exact .binary h h'

/-- Differences keep trees matched. -/
theorem sub (hC : Scalar.Compatible C) (h : Matches C N x y) (h' : Matches C N x' y') :
    Matches C N (x - x') (y - y') := by
  change Matches C N (Expr.sub x x') (Expr.sub y y')
  unfold Expr.sub
  obtain ⟨a, b, hx, hy, hab⟩ | ⟨hx, hy⟩ := h.asConstant?_cases <;>
    obtain ⟨a', b', hx', hy', hab'⟩ | ⟨hx', hy'⟩ := h'.asConstant?_cases <;>
    simp only [hx, hy, hx', hy']
  · exact .constant (hC.sub hab hab')
  · exact related_ite (hC.eq_right hab 0) (h'.neg hC) (.binary h h')
  · exact related_ite (hC.eq_right hab' 0) h (.binary h h')
  · exact .binary h h'

/-- Folding a product with a constant keeps trees matched. -/
theorem scale (hC : Scalar.Compatible C) {a b : ρ} (hab : C a b) (h : Matches C N x y)
    (h' : Matches C N x' y') : Matches C N (Expr.scale a x x') (Expr.scale b y y') :=
  related_ite (hC.eq_right hab 0) (.constant (hC.refl 0)) <|
    related_ite (hC.eq_right hab 1) h <|
    related_ite (hC.eq_right hab (-1)) (h.neg hC) h'

/-- Products keep trees matched. -/
theorem mul (hC : Scalar.Compatible C) (h : Matches C N x y) (h' : Matches C N x' y') :
    Matches C N (x * x') (y * y') := by
  change Matches C N (Expr.mul x x') (Expr.mul y y')
  unfold Expr.mul
  obtain ⟨a, b, hx, hy, hab⟩ | ⟨hx, hy⟩ := h.asConstant?_cases <;>
    obtain ⟨a', b', hx', hy', hab'⟩ | ⟨hx', hy'⟩ := h'.asConstant?_cases <;>
    simp only [hx, hy, hx', hy']
  · exact .constant (hC.mul hab hab')
  · exact .scale hC hab h' (.binary h h')
  · exact .scale hC hab' h (.binary h h')
  · exact .binary h h'

/-- A quotient of constants folds only if the divisor is not zero. -/
theorem div (hC : Scalar.Compatible C) (h : Matches C N x y) (h' : Matches C N x' y') :
    Matches C N (x / x') (y / y') := by
  change Matches C N (Expr.div x x') (Expr.div y y')
  unfold Expr.div
  obtain ⟨a, b, hx, hy, hab⟩ | ⟨hx, hy⟩ := h.asConstant?_cases <;>
    obtain ⟨a', b', hx', hy', hab'⟩ | ⟨hx', hy'⟩ := h'.asConstant?_cases <;>
    simp only [hx, hy, hx', hy']
  · have hzero := hC.eq_right hab' 0
    cases hdivisor : Scalar.eq a' 0 with
    | true =>
      simp only [Scalar.ne, ← hzero, hdivisor, Bool.not_true, Bool.false_eq_true, if_false]
      exact related_ite (hC.eq_right hab 0) (.constant (hC.refl 0)) (.binary h h')
    | false =>
      simp only [Scalar.ne, ← hzero, hdivisor, Bool.not_false, if_true]
      exact .constant (hC.div hdivisor hab hab')
  · exact related_ite (hC.eq_right hab 0) (.constant (hC.refl 0)) (.binary h h')
  · exact related_ite (hC.eq_right hab' 1) h (.binary h h')
  · exact .binary h h'

/-- Powers match, a power of zero only if nothing of it folds. -/
theorem pow (hC : Scalar.Compatible C) (h : Matches C N x y) (h' : Matches C N x' y')
    (hx : x.isZero = false ∨ x'.asConstant? = none) : Matches C N (x.pow x') (y.pow y') := by
  unfold Expr.pow
  obtain ⟨a', b', hx', hy', hab'⟩ | ⟨hx', hy'⟩ := h'.asConstant?_cases
  · simp only [hx', hy']
    refine related_ite (hC.eq_right hab' 1) h <|
      related_ite (hC.eq_right hab' 0) (.constant (hC.refl 1)) ?_
    obtain ⟨a, b, hxa, hyb, hab⟩ | ⟨hx, hy⟩ := h.asConstant?_cases
    · have hnonzero : Scalar.eq a 0 = false := by simpa [Expr.isZero, hxa, hx'] using hx
      simp only [hxa, hyb]
      exact .constant (hC.pow hnonzero hab hab')
    · simp only [hx, hy]
      exact .binary h h'
  · simp only [hx', hy']
    exact .binary h h'

end Matches
end Expr
end CircuitExpr
