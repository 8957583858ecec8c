/-
# What trees fold to

The operators that fold put one tree in the place of another by a few laws of arithmetic
(`Expr.Law`): what they make of two trees comes from the tree of the notation by such laws,
one after the other (`Expr.Folds`).  That is so for any numbers.

A law brings in no variable and nothing that cannot be built.  Where numbers are exact it
keeps values, with real values and with complex ones (`Law.yields`), since there the laws of
arithmetic hold of the values (`Backend.Lawful`).  So whatever the tree of the notation
gives, the folded tree gives.  The converse is not quite true: a factor zero and a choice
between equal branches put away a tree that need not have a value itself, because it calls a
function that misses an argument.
-/

import Mathlib
import CircuitExpr.Proofs.NamesInAnyCase
import CircuitExpr.Proofs.RealEmbedding

namespace CircuitExpr
namespace Expr

/-! ### The laws -/

section Laws

variable {ρ : Type} [Scalar ρ]

/-- A tree and what may be put in its place. -/
inductive Law : Expr ρ → Expr ρ → Prop
  /-- A constant with the other sign. -/
  | neg (a : ρ) : Law (.unary .minus (.constant a)) (.constant (-a))
  /-- Two changes of sign. -/
  | neg_neg (x : Expr ρ) : Law (.unary .minus (.unary .minus x)) x
  /-- The sum of two constants. -/
  | add (a b : ρ) : Law (.binary .add (.constant a) (.constant b)) (.constant (a + b))
  /-- Zero and a tree. -/
  | zero_add {a : ρ} (x : Expr ρ) : Scalar.eq a 0 = true → Law (.binary .add (.constant a) x) x
  /-- A tree and zero. -/
  | add_zero {a : ρ} (x : Expr ρ) : Scalar.eq a 0 = true → Law (.binary .add x (.constant a)) x
  /-- The difference of two constants. -/
  | sub (a b : ρ) : Law (.binary .sub (.constant a) (.constant b)) (.constant (a - b))
  /-- A tree less zero. -/
  | sub_zero {a : ρ} (x : Expr ρ) : Scalar.eq a 0 = true → Law (.binary .sub x (.constant a)) x
  /-- Zero less a tree. -/
  | zero_sub {a : ρ} (x : Expr ρ) : Scalar.eq a 0 = true →
    Law (.binary .sub (.constant a) x) (.unary .minus x)
  /-- The product of two constants. -/
  | mul (a b : ρ) : Law (.binary .mul (.constant a) (.constant b)) (.constant (a * b))
  /-- Zero times a tree. -/
  | zero_mul {a : ρ} (x : Expr ρ) : Scalar.eq a 0 = true → Law (.binary .mul (.constant a) x) zero
  /-- A tree times zero. -/
  | mul_zero {a : ρ} (x : Expr ρ) : Scalar.eq a 0 = true → Law (.binary .mul x (.constant a)) zero
  /-- Once a tree. -/
  | one_mul {a : ρ} (x : Expr ρ) : Scalar.eq a 1 = true → Law (.binary .mul (.constant a) x) x
  /-- A tree times one. -/
  | mul_one {a : ρ} (x : Expr ρ) : Scalar.eq a 1 = true → Law (.binary .mul x (.constant a)) x
  /-- A tree with the factor `-1` before it. -/
  | neg_one_mul {a : ρ} (x : Expr ρ) : Scalar.eq a (-1) = true →
    Law (.binary .mul (.constant a) x) (.unary .minus x)
  /-- A tree with the factor `-1` after it. -/
  | mul_neg_one {a : ρ} (x : Expr ρ) : Scalar.eq a (-1) = true →
    Law (.binary .mul x (.constant a)) (.unary .minus x)
  /-- A choice between branches that count as the same. -/
  | branches (c : Expr ρ) {x y : Expr ρ} : same x y = true → Law (.conditional c x y) x
  /-- A choice on a constant. -/
  | decided (a : ρ) (x y : Expr ρ) :
    Law (.conditional (.constant a) x y) (if Scalar.ne a 0 then x else y)

/-- By some laws, one after the other, the second tree comes from the first. -/
def Folds : Expr ρ → Expr ρ → Prop := Relation.ReflTransGen Law

/-- The folded change of sign comes by the laws. -/
theorem neg_folds (x : Expr ρ) : Folds (.unary .minus x) (-x) := by
  change Folds _ (Expr.neg x)
  unfold Expr.neg
  split
  · exact .single (.neg _)
  · exact .single (.neg_neg _)
  · exact .refl

/-- The folded sum comes by the laws. -/
theorem add_folds (x y : Expr ρ) : Folds (.binary .add x y) (x + y) := by
  change Folds _ (Expr.add x y)
  unfold Expr.add
  split
  · rename_i a b hx hy
    rw [asConstant?_eq_some.mp hx, asConstant?_eq_some.mp hy]
    exact .single (.add a b)
  · rename_i a hx _
    split
    · rename_i h0
      rw [asConstant?_eq_some.mp hx]
      exact .single (.zero_add y h0)
    · exact .refl
  · rename_i b _ hy
    split
    · rename_i h0
      rw [asConstant?_eq_some.mp hy]
      exact .single (.add_zero x h0)
    · exact .refl
  · exact .refl

/-- The folded difference comes by the laws. -/
theorem sub_folds (x y : Expr ρ) : Folds (.binary .sub x y) (x - y) := by
  change Folds _ (Expr.sub x y)
  unfold Expr.sub
  split
  · rename_i a b hx hy
    rw [asConstant?_eq_some.mp hx, asConstant?_eq_some.mp hy]
    exact .single (.sub a b)
  · rename_i b _ hy
    split
    · rename_i h0
      rw [asConstant?_eq_some.mp hy]
      exact .single (.sub_zero x h0)
    · exact .refl
  · rename_i a hx _
    split
    · rename_i h0
      rw [asConstant?_eq_some.mp hx]
      exact .head (.zero_sub y h0) (neg_folds y)
    · exact .refl
  · exact .refl

/-- A product with a constant folds by the laws for that constant. -/
theorem scale_folds {a : ρ} {x whole : Expr ρ} (hzero : Scalar.eq a 0 = true → Law whole zero)
    (hone : Scalar.eq a 1 = true → Law whole x)
    (hneg : Scalar.eq a (-1) = true → Law whole (.unary .minus x)) :
    Folds whole (scale a x whole) := by
  unfold scale
  split_ifs with h0 h1 h2
  · exact .single (hzero h0)
  · exact .single (hone h1)
  · exact .head (hneg h2) (neg_folds x)
  · exact .refl

/-- The folded product comes by the laws. -/
theorem mul_folds (x y : Expr ρ) : Folds (.binary .mul x y) (x * y) := by
  change Folds _ (Expr.mul x y)
  unfold Expr.mul
  split
  · rename_i a b hx hy
    rw [asConstant?_eq_some.mp hx, asConstant?_eq_some.mp hy]
    exact .single (.mul a b)
  · rename_i a hx _
    obtain rfl := asConstant?_eq_some.mp hx
    exact scale_folds (.zero_mul y) (.one_mul y) (.neg_one_mul y)
  · rename_i b _ hy
    obtain rfl := asConstant?_eq_some.mp hy
    exact scale_folds (.mul_zero x) (.mul_one x) (.mul_neg_one x)
  · exact .refl

/-- The folded choice comes by the laws. -/
theorem select_folds (c x y : Expr ρ) : Folds (.conditional c x y) (select c x y) := by
  unfold select
  split
  · rename_i hsame
    exact .single (.branches c hsame)
  split
  · rename_i a hc
    rw [asConstant?_eq_some.mp hc]
    exact .single (.decided a x y)
  · exact .refl

end Laws

/-! ### What the laws keep -/

section Kept

variable {ρ α S : Type} [Scalar ρ] {s : Setting ρ S α} {source? : Variable → Option S}
  {x y : Expr ρ}

/-- A law brings in no variable. -/
theorem Law.leaves_subset (h : Law x y) : y.leaves ⊆ x.leaves := by
  cases h with
  | decided a x y => split <;> simp [leaves]
  | _ => simp [leaves, zero]

/-- What comes by the laws has no more variables. -/
theorem Folds.leaves_subset (h : Folds x y) : y.leaves ⊆ x.leaves := by
  induction h with
  | refl => exact List.Subset.refl _
  | tail _ hlaw ih => exact List.Subset.trans hlaw.leaves_subset ih

/-- **What is folded has only variables that were there.** -/
theorem Folds.vars_subset (h : Folds x y) : y.vars ⊆ x.vars :=
  fun _ hv => mem_vars.mpr (h.leaves_subset (mem_vars.mp hv))

/-- What a law puts in the place of a tree can be built with it. -/
theorem Law.buildable (h : Law x y) (hx : Buildable s source? x) : Buildable s source? y := by
  cases h with
  | neg | add | sub | mul | zero_mul | mul_zero => exact buildable_constant _
  | neg_neg => exact buildable_unary.mp (buildable_unary.mp hx)
  | zero_add | one_mul => exact (buildable_binary.mp hx).2
  | add_zero | sub_zero | mul_one => exact (buildable_binary.mp hx).1
  | zero_sub | neg_one_mul => exact buildable_unary.mpr (buildable_binary.mp hx).2
  | mul_neg_one => exact buildable_unary.mpr (buildable_binary.mp hx).1
  | branches => exact (buildable_conditional.mp hx).2.1
  | decided =>
    split
    · exact (buildable_conditional.mp hx).2.1
    · exact (buildable_conditional.mp hx).2.2

/-- **What is folded can be built with the tree of the notation.** -/
theorem Folds.buildable (h : Folds x y) (hx : Buildable s source? x) : Buildable s source? y := by
  induction h with
  | refl => exact hx
  | tail _ hlaw ih => exact hlaw.buildable ih

end Kept

end Expr

/-! ### Exact arithmetic -/

/-- The laws of arithmetic that folding goes by hold of the values. -/
structure Backend.Lawful {ρ S α : Type} [Scalar ρ] (b : Backend ρ S α) : Prop where
  /-- The sum of constants is a constant. -/
  ofReal_add (x y : ρ) : b.ofReal (x + y) = b.add (b.ofReal x) (b.ofReal y)
  /-- The difference of constants is a constant. -/
  ofReal_sub (x y : ρ) : b.ofReal (x - y) = b.sub (b.ofReal x) (b.ofReal y)
  /-- The product of constants is a constant. -/
  ofReal_mul (x y : ρ) : b.ofReal (x * y) = b.mul (b.ofReal x) (b.ofReal y)
  /-- A constant with the other sign is a constant. -/
  ofReal_neg (x : ρ) : b.ofReal (-x) = b.neg (b.ofReal x)
  /-- Two changes of sign are none. -/
  neg_neg (a : α) : b.neg (b.neg a) = a
  /-- Zero adds nothing from the left. -/
  zero_add (a : α) : b.add (b.ofReal 0) a = a
  /-- Zero adds nothing from the right. -/
  add_zero (a : α) : b.add a (b.ofReal 0) = a
  /-- Zero takes nothing away. -/
  sub_zero (a : α) : b.sub a (b.ofReal 0) = a
  /-- Taking away from zero changes the sign. -/
  zero_sub (a : α) : b.sub (b.ofReal 0) a = b.neg a
  /-- Products commute with constants. -/
  mul_comm (c : ρ) (a : α) : b.mul a (b.ofReal c) = b.mul (b.ofReal c) a
  /-- Zero absorbs. -/
  zero_mul (a : α) : b.mul (b.ofReal 0) a = b.ofReal 0
  /-- One is neutral. -/
  one_mul (a : α) : b.mul (b.ofReal 1) a = a
  /-- The factor `-1` changes the sign. -/
  neg_one_mul (a : α) : b.mul (b.ofReal (-1)) a = b.neg a

section Exact

variable {K α S σ : Type} [Field K] [LinearOrder K] [FloorRing K] [AnalyticFunctions K]

/-- A real factor multiplies both parts. -/
theorem Complex.ofReal_mul_eq (c : K) (z : Complex K) :
    Complex.ofReal c * z = ⟨c * z.re, c * z.im⟩ := by
  change (⟨c * z.re - 0 * z.im, c * z.im + 0 * z.re⟩ : Complex K) = _
  rw [zero_mul, zero_mul, sub_zero, add_zero]

/-- A real factor may stand on either side. -/
theorem Complex.mul_ofReal_eq (z : Complex K) (c : K) :
    z * Complex.ofReal c = Complex.ofReal c * z := by
  rw [ofReal_mul_eq]
  change (⟨z.re * c - z.im * 0, z.re * 0 + z.im * c⟩ : Complex K) = _
  rw [mul_zero, mul_zero, sub_zero, zero_add, mul_comm, mul_comm z.im]

/-- Real numbers go by the laws. -/
theorem Backend.lawful_real (fudge : K) : (Backend.real fudge : Backend K S K).Lawful where
  ofReal_add _ _ := rfl
  ofReal_sub _ _ := rfl
  ofReal_mul _ _ := rfl
  ofReal_neg _ := rfl
  neg_neg := neg_neg
  zero_add := zero_add
  add_zero := add_zero
  sub_zero := sub_zero
  zero_sub := zero_sub
  mul_comm c a := mul_comm a c
  zero_mul := zero_mul
  one_mul := one_mul
  neg_one_mul := neg_one_mul

/-- Complex numbers go by the laws. -/
theorem Backend.lawful_complex (fudge : K) (laplace : Option S) :
    (Backend.complex fudge laplace).Lawful where
  ofReal_add := Complex.ofReal_add
  ofReal_sub := Complex.ofReal_sub
  ofReal_mul := Complex.ofReal_mul
  ofReal_neg := Complex.ofReal_neg
  neg_neg z := congrArg₂ Complex.mk (neg_neg z.re) (neg_neg z.im)
  zero_add z := congrArg₂ Complex.mk (zero_add z.re) (zero_add z.im)
  add_zero z := congrArg₂ Complex.mk (add_zero z.re) (add_zero z.im)
  sub_zero z := congrArg₂ Complex.mk (sub_zero z.re) (sub_zero z.im)
  zero_sub z := congrArg₂ Complex.mk (zero_sub z.re) (zero_sub z.im)
  mul_comm c z := Complex.mul_ofReal_eq z c
  zero_mul z := (Complex.ofReal_mul_eq 0 z).trans
    (congrArg₂ Complex.mk (zero_mul z.re) (zero_mul z.im))
  one_mul z := (Complex.ofReal_mul_eq 1 z).trans
    (congrArg₂ Complex.mk (one_mul z.re) (one_mul z.im))
  neg_one_mul z := (Complex.ofReal_mul_eq (-1) z).trans
    (congrArg₂ Complex.mk (neg_one_mul z.re) (neg_one_mul z.im))

/-- **The laws hold with either backend.** -/
theorem Backend.RealOrComplex.lawful {b : Backend K S α} (hb : b.RealOrComplex) : b.Lawful := by
  cases hb with
  | real fudge => exact lawful_real fudge
  | complex fudge laplace => exact lawful_complex fudge laplace

namespace Expr

section Operands

variable {ρ : Type} [Scalar ρ] {s : Setting ρ S α} {p : Point S α} {x y : Expr ρ} {r : α}

/-- A sum that has a value is the sum of two values. -/
theorem Yields.of_add (h : Yields s p (.binary .add x y) r) :
    ∃ a b, Yields s p x a ∧ Yields s p y b ∧ s.backend.add a b = r :=
  h.of_binary (by decide) (by decide) (by decide)

/-- A difference that has one is a difference. -/
theorem Yields.of_sub (h : Yields s p (.binary .sub x y) r) :
    ∃ a b, Yields s p x a ∧ Yields s p y b ∧ s.backend.sub a b = r :=
  h.of_binary (by decide) (by decide) (by decide)

/-- A product that has one is a product. -/
theorem Yields.of_mul (h : Yields s p (.binary .mul x y) r) :
    ∃ a b, Yields s p x a ∧ Yields s p y b ∧ s.backend.mul a b = r :=
  h.of_binary (by decide) (by decide) (by decide)

/-- A product with a constant after the tree is one with the constant before it. -/
theorem Yields.constant_mul (hs : s.backend.Lawful) {c : ρ}
    (h : Yields s p (.binary .mul x (.constant c)) r) :
    Yields s p (.binary .mul (.constant c) x) r := by
  obtain ⟨a, k, ha, hk, rfl⟩ := h.of_mul
  obtain rfl := hk.unique (.ofReal c)
  rw [hs.mul_comm]
  exact (Yields.ofReal c).combine .mul (by decide) (by decide) (by decide) ha

end Operands

variable {s : Setting K S α} {p : Point S α} {x y : Expr K} {r : α}

/-- The value of a product with a constant, folded for that constant. -/
theorem Yields.scaled (hs : s.backend.Lawful) {c : K}
    (h : Yields s p (.binary .mul (.constant c) x) r) :
    (c = 0 → Yields s p zero r) ∧ (c = 1 → Yields s p x r) ∧
      (c = -1 → Yields s p (.unary .minus x) r) := by
  obtain ⟨k, a, hk, ha, rfl⟩ := h.of_mul
  obtain rfl := hk.unique (.ofReal c)
  refine ⟨?_, ?_, ?_⟩
  · rintro rfl
    rw [hs.zero_mul]
    exact .ofReal 0
  · rintro rfl
    rwa [hs.one_mul]
  · rintro rfl
    rw [hs.neg_one_mul]
    exact ha.unary .minus

/-- **A law keeps values** where numbers are exact. -/
theorem Law.yields (hs : s.backend.Lawful)
    (htrue : ∀ c, s.backend.isTrue (s.backend.ofReal c) = Scalar.ne c 0) (h : Law x y)
    (hx : Yields s p x r) : Yields s p y r := by
  cases h with
  | neg c =>
    obtain ⟨a, ha, rfl⟩ := hx.of_minus
    obtain rfl := ha.unique (.ofReal c)
    rw [← hs.ofReal_neg]
    exact .ofReal _
  | neg_neg =>
    obtain ⟨a, ha, rfl⟩ := hx.of_minus
    obtain ⟨a', ha', rfl⟩ := ha.of_minus
    rwa [hs.neg_neg]
  | add c d =>
    obtain ⟨a, a', ha, ha', rfl⟩ := hx.of_add
    obtain rfl := ha.unique (.ofReal c)
    obtain rfl := ha'.unique (.ofReal d)
    rw [← hs.ofReal_add]
    exact .ofReal _
  | zero_add _ hzero =>
    obtain ⟨a, a', ha, ha', rfl⟩ := hx.of_add
    obtain rfl := Scalar.eq_iff.mp hzero
    obtain rfl := ha.unique (.ofReal 0)
    rwa [hs.zero_add]
  | add_zero _ hzero =>
    obtain ⟨a, a', ha, ha', rfl⟩ := hx.of_add
    obtain rfl := Scalar.eq_iff.mp hzero
    obtain rfl := ha'.unique (.ofReal 0)
    rwa [hs.add_zero]
  | sub c d =>
    obtain ⟨a, a', ha, ha', rfl⟩ := hx.of_sub
    obtain rfl := ha.unique (.ofReal c)
    obtain rfl := ha'.unique (.ofReal d)
    rw [← hs.ofReal_sub]
    exact .ofReal _
  | sub_zero _ hzero =>
    obtain ⟨a, a', ha, ha', rfl⟩ := hx.of_sub
    obtain rfl := Scalar.eq_iff.mp hzero
    obtain rfl := ha'.unique (.ofReal 0)
    rwa [hs.sub_zero]
  | zero_sub _ hzero =>
    obtain ⟨a, a', ha, ha', rfl⟩ := hx.of_sub
    obtain rfl := Scalar.eq_iff.mp hzero
    obtain rfl := ha.unique (.ofReal 0)
    rw [hs.zero_sub]
    exact ha'.unary .minus
  | mul c d =>
    obtain ⟨a, a', ha, ha', rfl⟩ := hx.of_mul
    obtain rfl := ha.unique (.ofReal c)
    obtain rfl := ha'.unique (.ofReal d)
    rw [← hs.ofReal_mul]
    exact .ofReal _
  | zero_mul _ hzero => exact (hx.scaled hs).1 (Scalar.eq_iff.mp hzero)
  | mul_zero _ hzero => exact ((hx.constant_mul hs).scaled hs).1 (Scalar.eq_iff.mp hzero)
  | one_mul _ hone => exact (hx.scaled hs).2.1 (Scalar.eq_iff.mp hone)
  | mul_one _ hone => exact ((hx.constant_mul hs).scaled hs).2.1 (Scalar.eq_iff.mp hone)
  | neg_one_mul _ hneg => exact (hx.scaled hs).2.2 (Scalar.eq_iff.mp hneg)
  | mul_neg_one _ hneg => exact ((hx.constant_mul hs).scaled hs).2.2 (Scalar.eq_iff.mp hneg)
  | branches c hsame =>
    -- exact numbers that count as one are equal, and so are trees
    obtain rfl := eq_of_same (fun _ _ => Scalar.eq_of_same) hsame
    obtain ⟨a, -, hr⟩ := hx.of_conditional
    rwa [ite_self] at hr
  | decided c =>
    obtain ⟨a, ha, hr⟩ := hx.of_conditional
    obtain rfl := ha.unique (.ofReal c)
    rwa [htrue] at hr

/-- **What is folded has the value of the tree of the notation.** -/
theorem Folds.yields (hs : s.backend.Lawful)
    (htrue : ∀ c, s.backend.isTrue (s.backend.ofReal c) = Scalar.ne c 0) (h : Folds x y)
    (hx : Yields s p x r) : Yields s p y r := by
  induction h with
  | refl => exact hx
  | tail _ hlaw ih => exact hlaw.yields hs htrue ih

end Expr

/-! ### Trees that stand for others -/

open CircuitExpr.Evaluator (build ServesCalls)
open CircuitExpr.Expr (Computes Folds)

/-- With the setting and the host, the folded tree can stand in the place of the other. -/
structure StandsFor (s : Setting K S α) (host : Resolver σ S) (folded raw : Expr K) : Prop where
  /-- Both can be built. -/
  builds (state : σ) :
    (∃ e, (build s host raw state).1 = .ok e) ∧ ∃ e, (build s host folded state).1 = .ok e
  /-- Whatever the other computes, the folded tree computes. -/
  computes (state state' : σ) (memory : S → α) (r : α) :
    Computes s host state memory raw r → Computes s host state' memory folded r
  /-- Both compute a value, the same, unless a call misses an argument. -/
  value : ServesCalls s raw → ∀ memory : S → α, ∃ r, ∀ state : σ,
    Computes s host state memory raw r ∧ Computes s host state memory folded r
  /-- The folded tree has no other variables. -/
  vars : folded.vars ⊆ raw.vars

/-- A folded tree stands for the tree of the notation if this can be built. -/
theorem Expr.Folds.standsFor {w : Vocabulary K} {b : Backend K S α} (hb : b.RealOrComplex)
    {host : Resolver σ S} {source? : Variable → Option S} (hhost : host.Steady source?)
    {folded raw : Expr K} (h : Folds raw folded) (hraw : raw.Buildable ⟨w, b⟩ source?) :
    StandsFor ⟨w, b⟩ host folded raw := by
  have hs : b.MultipliesOut := hb.multipliesOut Scalar.eq_zero_self
  have hcomputes (state state' : σ) (memory : S → α) (r : α)
      (hr : Computes ⟨w, b⟩ host state memory raw r) :
      Computes ⟨w, b⟩ host state' memory folded r := by
    rw [computes_iff hs hhost] at hr ⊢
    exact h.yields hb.lawful hb.isTrue_ofReal hr
  refine ⟨fun state => ?_, hcomputes, fun hcalls memory => ?_, h.vars_subset⟩
  · rw [Evaluator.build_eq_translate hhost, Evaluator.build_eq_translate hhost]
    exact ⟨hraw, h.buildable hraw⟩
  · obtain ⟨e, he⟩ := hraw
    obtain ⟨r, hr⟩ :=
      Evaluator.exists_value?_of_served memory e (Evaluator.served_translate hcalls e he)
    have hcomputed (state : σ) : Computes ⟨w, b⟩ host state memory raw r :=
      ⟨e, (Evaluator.build_eq_translate hhost raw state).trans he, hr⟩
    exact ⟨r, fun state => ⟨hcomputed state, hcomputes state state memory r (hcomputed state)⟩⟩

/-- **Folding keeps meaning,** with exact numbers, either backend and any vocabulary.  Let `x`,
`y` and `c` be built with a host that always gives a variable the same source.  Then their
folded sum, difference and product, the folded change of sign and the folded choice stand for
the trees of the notation: both are built, whatever the sources hold they have the same
value, and the folded tree has no variable that the other does not have. -/
theorem folding_keeps_meaning {w : Vocabulary K} {b : Backend K S α} (hb : b.RealOrComplex)
    {host : Resolver σ S} {source? : Variable → Option S} (hhost : host.Steady source?)
    {state : σ} {x y c : Expr K} {ex ey ec : Evaluator K S α}
    (hx : (build ⟨w, b⟩ host x state).1 = .ok ex) (hy : (build ⟨w, b⟩ host y state).1 = .ok ey)
    (hc : (build ⟨w, b⟩ host c state).1 = .ok ec) :
    StandsFor ⟨w, b⟩ host (x + y) (.binary .add x y) ∧
      StandsFor ⟨w, b⟩ host (x - y) (.binary .sub x y) ∧
      StandsFor ⟨w, b⟩ host (x * y) (.binary .mul x y) ∧
      StandsFor ⟨w, b⟩ host (-x) (.unary .minus x) ∧
      StandsFor ⟨w, b⟩ host (.select c x y) (.conditional c x y) := by
  rw [Evaluator.build_eq_translate hhost] at hx hy hc
  have hboth (op : BinaryOp) : (Expr.binary op x y).Buildable ⟨w, b⟩ source? :=
    Expr.buildable_binary.mpr ⟨⟨ex, hx⟩, ⟨ey, hy⟩⟩
  refine ⟨(Expr.add_folds x y).standsFor hb hhost (hboth .add),
    (Expr.sub_folds x y).standsFor hb hhost (hboth .sub),
    (Expr.mul_folds x y).standsFor hb hhost (hboth .mul),
    (Expr.neg_folds x).standsFor hb hhost (Expr.buildable_unary.mpr ⟨ex, hx⟩),
    (Expr.select_folds c x y).standsFor hb hhost ?_⟩
  exact Expr.buildable_conditional.mpr ⟨⟨ec, hc⟩, ⟨ex, hx⟩, ⟨ey, hy⟩⟩

end Exact

/-- With complex values and a source of the frequency, `a * -1` folds to `-a` and a choice on
zero to its second branch; whatever `a` is, the product and what it folds to have the same value. -/
theorem folding_keeps_signedVariable :
    let s : Setting ℝ Variable (Complex ℝ) := ⟨.builtin, .complex 0 (some (.named "s"))⟩
    let a : Expr ℝ := .var (.named "a")
    StandsFor s (.recording some) (-a) (.binary .mul a (.constant (-1))) ∧
      StandsFor s (.recording some) (.constant (-1))
        (.conditional (.constant 0) a (.constant (-1))) ∧
      ∀ memory : Variable → Complex ℝ, ∃ r, ∀ state : List Variable,
        Expr.Computes s (.recording some) state memory (.binary .mul a (.constant (-1))) r ∧
          Expr.Computes s (.recording some) state memory (-a) r := by
  intro s a
  have hb : (Backend.complex (0 : ℝ) (some (Variable.named "s"))).RealOrComplex :=
    .complex _ _
  have hhost := Resolver.steady_recording (S := Variable) some
  have ha : (Evaluator.build s (.recording some) a []).1 = .ok (.read (.named "a")) := rfl
  have hconstant (k : ℝ) : (Evaluator.build s (.recording some) (.constant k) []).1 =
      .ok (.value (Complex.ofReal k)) := rfl
  obtain ⟨-, -, hmul, -, hselect⟩ :=
    folding_keeps_meaning hb hhost ha (hconstant (-1)) (hconstant 0)
  have hproduct : a * .constant (-1) = -a := by
    have hzero : Scalar.eq (-1 : ℝ) 0 = false := decide_eq_false (by norm_num)
    have hone : Scalar.eq (-1 : ℝ) 1 = false := decide_eq_false (by norm_num)
    have hneg : Scalar.eq (-1 : ℝ) (-1) = true := Scalar.eq_iff.mpr rfl
    change Expr.mul a (.constant (-1)) = Expr.neg a
    simp [Expr.mul, Expr.asConstant?, Expr.scale, hzero, hone, hneg, a]
  have hchoice : Expr.select (.constant 0) a (.constant (-1)) = .constant (-1) := by
    have hzero : Scalar.eq (0 : ℝ) 0 = true := Scalar.eq_iff.mpr rfl
    simp [Expr.select, Expr.same, Expr.asConstant?, Scalar.ne, hzero, a]
  rw [hproduct] at hmul
  rw [hchoice] at hselect
  exact ⟨hmul, hselect, hmul.value (hb.servesCalls_builtin _)⟩

end CircuitExpr
