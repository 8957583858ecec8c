/-
# Values of folded trees

The operators that fold constants compute, at every point, what the operators of the
notation compute: whatever disappears in folding does not change the value.

`HasValue` is what is carried from tree to tree.  A derivative contains parts of branches
that are not reached at the point; of such a part only that it builds is known, so
`HasValue` says what its value is only where it is *reached*.  It is a
valuation, and so the operators that fold keep it.
-/

import Mathlib
import CircuitExpr.Proofs.ExactValues
import CircuitExpr.Proofs.SubtreeWalk
import CircuitExpr.Proofs.Valuations

namespace CircuitExpr
namespace Expr

variable {K S : Type} [Field K] [LinearOrder K] [FloorRing K] [AnalyticFunctions K]

/-- The tree builds; where it is reached, it is defined and has the value `a`. -/
structure HasValue (p : Point S K) (reached : Prop) (e : Expr K) (a : K) : Prop where
  /-- It builds, reached or not. -/
  builds : e.Builds p
  /-- Where it is reached, no divisor in it is zero. -/
  defined : reached → e.Defined p
  /-- Where it is reached, it has this value. -/
  value : reached → e.value? p = some a

variable {p : Point S K} {reached : Prop} {x y : Expr K} {a b : K}

namespace HasValue

/-- The value matters only where the tree is reached. -/
theorem congr (h : HasValue p reached x a) (hab : reached → a = b) : HasValue p reached x b :=
  ⟨h.builds, h.defined, fun hr => by rw [h.value hr, hab hr]⟩

/-- A value that is right where it is reached is right where less is. -/
theorem mono {reached' : Prop} (h : HasValue p reached x a) (hr : reached' → reached) :
    HasValue p reached' x a :=
  ⟨h.builds, h.defined ∘ hr, h.value ∘ hr⟩

/-! ### Operators of the notation -/

/-- A constant has its value. -/
theorem constant (c : K) : HasValue p reached (.constant c) c :=
  ⟨builds_constant c, fun _ => trivial, fun _ => rfl⟩

/-- The constant zero has the value zero. -/
theorem zero : HasValue p reached Expr.zero 0 := constant 0

/-- The constant one has the value one. -/
theorem one : HasValue p reached Expr.one 1 := constant 1

/-- A minus sign changes the sign of the value. -/
theorem minus (hx : HasValue p reached x a) : HasValue p reached (.unary .minus x) (-a) :=
  ⟨builds_unary.mpr hx.builds, hx.defined, fun hr => by rw [value?_minus, hx.value hr]; rfl⟩

/-- An operator that needs both operands combines their values. -/
theorem binary (op : BinaryOp) (hand : op ≠ .and) (hor : op ≠ .or) (hpow : op ≠ .pow)
    (hx : HasValue p reached x a) (hy : HasValue p reached y b)
    (hadmits : reached → Admits p op x y) :
    HasValue p reached (.binary op x y)
      (Evaluator.combine (.real 0 : Backend K S K) op a b) where
  builds := builds_binary.mpr ⟨hx.builds, hy.builds⟩
  defined hr := ⟨hx.defined hr, fun _ => hy.defined hr, hadmits hr⟩
  value hr := by
    rw [value?_binary hand hor hpow, hx.value hr, hy.value hr]
    rfl

/-- A sum has the sum of the values. -/
theorem plain_add (hx : HasValue p reached x a) (hy : HasValue p reached y b) :
    HasValue p reached (.binary .add x y) (a + b) :=
  binary .add (by decide) (by decide) (by decide) hx hy fun _ => trivial

/-- A difference has their difference. -/
theorem plain_sub (hx : HasValue p reached x a) (hy : HasValue p reached y b) :
    HasValue p reached (.binary .sub x y) (a - b) :=
  binary .sub (by decide) (by decide) (by decide) hx hy fun _ => trivial

/-- A product has their product. -/
theorem plain_mul (hx : HasValue p reached x a) (hy : HasValue p reached y b) :
    HasValue p reached (.binary .mul x y) (a * b) :=
  binary .mul (by decide) (by decide) (by decide) hx hy fun _ => trivial

/-- A value that is not zero is not the value zero. -/
theorem value_ne_zero (hy : HasValue p reached y b) (hb : reached → b ≠ 0) (hr : reached) :
    y.value? p ≠ some 0 := by
  rw [hy.value hr]
  exact fun h => hb hr (Option.some.inj h)

/-- A remainder has the remainder of the values, unless the divisor is zero. -/
theorem plain_mod (hx : HasValue p reached x a) (hy : HasValue p reached y b)
    (hb : reached → b ≠ 0) : HasValue p reached (.binary .mod x y) (a % b) :=
  binary .mod (by decide) (by decide) (by decide) hx hy (hy.value_ne_zero hb)

/-- A comparison is one where it holds and zero elsewhere. -/
theorem plain_lt (hx : HasValue p reached x a) (hy : HasValue p reached y b) :
    HasValue p reached (.binary .lt x y) (if a < b then 1 else 0) := by
  refine (binary .lt (by decide) (by decide) (by decide) hx hy fun _ => trivial).congr fun _ => ?_
  change (if Scalar.lt a b = true then (1 : K) else 0) = _
  simp only [Scalar.lt_iff]

/-- A comparison is one or zero. -/
theorem plain_gt (hx : HasValue p reached x a) (hy : HasValue p reached y b) :
    HasValue p reached (.binary .gt x y) (if b < a then 1 else 0) := by
  refine (binary .gt (by decide) (by decide) (by decide) hx hy fun _ => trivial).congr fun _ => ?_
  change (if Scalar.lt b a = true then (1 : K) else 0) = _
  simp only [Scalar.lt_iff]

/-- Of a choice only the branch that is selected is reached. -/
theorem conditional {c t f : Expr K} {r : K} (hc : HasValue p reached c r)
    (ht : HasValue p (reached ∧ r ≠ 0) t a) (hf : HasValue p (reached ∧ r = 0) f a) :
    HasValue p reached (.conditional c t f) a where
  builds := builds_conditional.mpr ⟨hc.builds, ht.builds, hf.builds⟩
  defined hr := by
    refine ⟨hc.defined hr, fun h => ht.defined ⟨hr, ?_⟩, fun h => hf.defined ⟨hr, ?_⟩⟩
    · rintro rfl
      exact h (hc.value hr)
    · exact Option.some.inj ((hc.value hr).symm.trans h)
  value hr := by
    rw [value?_conditional, hc.value hr, Option.bind_some]
    split
    · rename_i h
      exact hf.value ⟨hr, h⟩
    · rename_i h
      exact ht.value ⟨hr, h⟩

/-- What holds of each argument holds of all of them. -/
theorem all {args : List (Expr K)} {values : List K}
    (h : List.Forall₂ (HasValue p reached) args values) :
    (∀ x ∈ args, Builds p x) ∧
      (reached → (∀ x ∈ args, Defined p x) ∧ args.mapM (value? p) = some values) := by
  induction h with
  | nil => exact ⟨List.forall_mem_nil _, fun _ => ⟨List.forall_mem_nil _, rfl⟩⟩
  | cons hx _ ih =>
    refine ⟨List.forall_mem_cons.mpr ⟨hx.builds, ih.1⟩, fun hr => ?_⟩
    obtain ⟨hdefined, hvalues⟩ := ih.2 hr
    refine ⟨List.forall_mem_cons.mpr ⟨hx.defined hr, hdefined⟩, ?_⟩
    rw [List.mapM_cons, hx.value hr, hvalues]
    rfl

/-- A call of a built-in function. -/
theorem call {f : NamedFunction K} (hmem : f ∈ Vocabulary.builtinFunctions)
    {g : Implementation K K} (hg : f.real = some g) {name : String}
    (hname : f.name = Text.lowercase name) {args : List (Expr K)} {values : List K}
    (harity : f.arity = args.length) (hargs : List.Forall₂ (HasValue p reached) args values)
    {r : K} (hr : g 0 values = some r) : HasValue p reached (.call name args) r where
  builds := builds_call.mpr ⟨⟨f, hmem, hname, harity, Option.isSome_of_eq_some hg⟩, (all hargs).1⟩
  defined h := definedAll_iff.mpr ((all hargs).2 h).1
  value h := by
    have hfind := Vocabulary.builtin_functionOf?_eq_some.mpr ⟨hmem, hname, harity⟩
    rw [value?_call hfind hg, ((all hargs).2 h).2, Option.bind_some, hr]

/-- A call of a built-in function under its own name. -/
theorem call_self {f : NamedFunction K} (hmem : f ∈ Vocabulary.builtinFunctions)
    {g : Implementation K K} (hg : f.real = some g) {args : List (Expr K)} {values : List K}
    (harity : f.arity = args.length) (hargs : List.Forall₂ (HasValue p reached) args values)
    {r : K} (hr : g 0 values = some r) : HasValue p reached (.call f.name args) r :=
  call hmem hg (Vocabulary.lowercase_name hmem).symm harity hargs hr

section Ordered

variable [IsStrictOrderedRing K]

/-- A quotient has the quotient of the values, unless the divisor is zero. -/
theorem plain_div (hx : HasValue p reached x a) (hy : HasValue p reached y b)
    (hb : reached → b ≠ 0) : HasValue p reached (.binary .div x y) (a / b) := by
  have h := binary .div (by decide) (by decide) (by decide) hx hy (hy.value_ne_zero hb)
  refine h.congr fun _ => ?_
  change a / guardReal 0 b = a / b
  rw [guardReal_zero]

/-- A power with a whole exponent has the power of the value, unless the base is zero and the
exponent negative. -/
theorem plain_pow (hx : HasValue p reached x a) {n : ℤ} (hn : n.natAbs ≤ 2147483647)
    (ha : reached → n < 0 → a ≠ 0) :
    HasValue p reached (.binary .pow x (.constant (n : K))) (a ^ n) where
  builds := builds_binary.mpr ⟨hx.builds, builds_constant _⟩
  defined hr := by
    refine ⟨hx.defined hr, fun _ => trivial, fun b hb hneg => ?_⟩
    obtain rfl : (n : K) = b := Option.some.inj hb
    exact hx.value_ne_zero (fun hr => ha hr (Int.cast_lt_zero.mp hneg)) hr
  value hr := value?_pow (hx.value hr) hn

end Ordered

/-! ### Operators that fold -/

/-- A constant has its own value. -/
theorem eq_of_asConstant? (hx : HasValue p reached x a) {c : K} (h : x.asConstant? = some c)
    (hr : reached) : a = c := by
  rw [asConstant?_eq_some.mp h] at hx
  exact Option.some.inj ((hx.value hr).symm.trans (value?_constant c))

/-- **What has a value keeps it in folding.** -/
theorem valuation : Valuation (HasValue p reached) where
  constant := constant
  unique h φ _ hx := hx.congr fun hr => by rw [h.eq_of_asConstant? rfl hr]
  minus := minus
  operand hx := by
    refine ⟨builds_unary.mp hx.builds, hx.defined, fun hr => ?_⟩
    have hvalue := hx.value hr
    rw [value?_minus, Option.map_eq_some_iff] at hvalue
    obtain ⟨b, hb, rfl⟩ := hvalue
    rw [hb, neg_neg]
  plain_add := plain_add
  plain_sub := plain_sub
  plain_mul := plain_mul

/-- The folded change of sign changes the sign. -/
theorem neg (hx : HasValue p reached x a) : HasValue p reached (-x) (-a) := valuation.neg hx

/-- The folded product has the product of the values. -/
theorem mul (hx : HasValue p reached x a) (hy : HasValue p reached y b) :
    HasValue p reached (x * y) (a * b) :=
  valuation.mul hx hy

/-- A product with the constant zero folds to zero. -/
theorem constant_zero_mul (x : Expr K) : .constant (0 : K) * x = Expr.zero := by
  change Expr.mul (.constant 0) x = _
  have hzero : (Expr.constant (0 : K)).asConstant? = some 0 := rfl
  unfold Expr.mul
  cases h : x.asConstant? with
  | none =>
    simp only [hzero]
    exact if_pos (Scalar.eq_iff.mpr rfl)
  | some b =>
    simp only [hzero]
    rw [zero_mul, Expr.zero]

/-- A choice has the value of the branch that the condition selects. -/
theorem select {c t f : Expr K} {r : K} (hc : HasValue p reached c r)
    (ht : HasValue p (reached ∧ r ≠ 0) t a) (hf : HasValue p (reached ∧ r = 0) f a) :
    HasValue p reached (Expr.select c t f) a := by
  unfold Expr.select
  split
  · rename_i hsame
    obtain rfl : t = f := eq_of_same (fun _ _ => Scalar.eq_of_same) hsame
    by_cases h0 : r = 0
    · exact hf.mono fun hr => ⟨hr, h0⟩
    · exact ht.mono fun hr => ⟨hr, h0⟩
  split
  · rename_i d hd
    have hrd : reached → r = d := hc.eq_of_asConstant? hd
    split
    · rename_i h0
      exact ht.mono fun hr => ⟨hr, hrd hr ▸ Scalar.ne_iff.mp h0⟩
    · rename_i h0
      exact hf.mono fun hr => ⟨hr, hrd hr ▸ not_not.mp (mt Scalar.ne_iff.mpr h0)⟩
  · exact hc.conditional ht hf

/-- A choice on a comparison, both branches reached. -/
theorem select_ite {c t f : Expr K} {P : Prop} [Decidable P]
    (hc : HasValue p reached c (if P then 1 else 0)) (ht : HasValue p reached t a)
    (hf : HasValue p reached f b) :
    HasValue p reached (Expr.select c t f) (if P then a else b) := by
  by_cases h : P
  · rw [if_pos h] at hc ⊢
    exact hc.select (ht.mono fun hr => hr.1)
      ((hf.mono fun hr => hr.1).congr fun hr => absurd hr.2 one_ne_zero)
  · rw [if_neg h] at hc ⊢
    exact hc.select ((ht.mono fun hr => hr.1).congr fun hr => absurd rfl hr.2)
      (hf.mono fun hr => hr.1)

section OrderedFolding

variable [IsStrictOrderedRing K]

/-- The folded quotient has their quotient, unless the divisor is zero. -/
theorem div (hx : HasValue p reached x a) (hy : HasValue p reached y b)
    (hb : reached → b ≠ 0) : HasValue p reached (x / y) (a / b) :=
  valuation.div hx hy (hx.plain_div hy hb)

/-- A power of a tree that is no constant. -/
theorem pow (hx : HasValue p reached x a) (hconstant : x.asConstant? = none) {n : ℤ}
    (hn : n.natAbs ≤ 2147483647) (ha : reached → n < 0 → a ≠ 0) :
    HasValue p reached (x.pow (.constant (n : K))) (a ^ n) := by
  have hexponent : (Expr.constant (n : K)).asConstant? = some (n : K) := rfl
  unfold Expr.pow
  simp only [hexponent, hconstant]
  split_ifs with h1 h0
  · have hn1 : n = 1 := Int.cast_eq_one.mp (Scalar.eq_iff.mp h1)
    exact hx.congr fun _ => by rw [hn1, zpow_one]
  · have hn0 : n = 0 := Int.cast_eq_zero.mp (Scalar.eq_iff.mp h0)
    exact one.congr fun _ => by rw [hn0, zpow_zero]
  · exact hx.plain_pow hn ha

end OrderedFolding

end HasValue
end Expr
end CircuitExpr
