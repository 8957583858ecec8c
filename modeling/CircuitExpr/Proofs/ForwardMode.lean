/-
# The derivative is the slope

For trees of arithmetic, choices and functions that have pieces, the derivative that
`Expr.derive` builds evaluates, wherever the tree is defined, to the slope of the tree
evaluated on dual numbers: no term is lost, no sign wrong, and nothing in the derivative
is divided by zero where nothing in the tree is.

The proof follows the tree.  `Agrees` relates a tree, its derivatives and its dual number
at a point; each operator takes trees that agree to a tree that agrees.
-/

import Mathlib
import CircuitExpr.Proofs.DerivativeMaps
import CircuitExpr.Proofs.WalkStates
import CircuitExpr.Proofs.DualNumbers
import CircuitExpr.Proofs.SteadyHosts

namespace CircuitExpr

open TrivSqZeroExt
open scoped DualNumber
open CircuitExpr.Expr (HasValue Builds Defined)
open Derivatives (HasSlope)

variable {K S : Type} [Field K] [LinearOrder K] [FloorRing K] [AnalyticFunctions K]

/-- The functions that have pieces, with the number of their arguments. -/
def Vocabulary.pieces : List (String × Nat) :=
  [("abs", 1), ("sgn", 1), ("floor", 1), ("ceil", 1), ("round", 1), ("trunc", 1), ("min", 2),
    ("max", 2), ("limit", 3)]

/-- Trees of arithmetic, integer powers, choices and functions that have pieces.  The
condition of a choice may be any tree. -/
inductive Expr.PiecewiseRational : Expr K → Prop
  /-- A number. -/
  | constant {c} : PiecewiseRational (.constant c)
  /-- A variable. -/
  | var {v} : PiecewiseRational (.var v)
  /-- A tree with a sign. -/
  | unary {op x} : op ≠ .not → PiecewiseRational x → PiecewiseRational (.unary op x)
  /-- A sum, difference, product, quotient or remainder. -/
  | binary {op x y} : op ∈ [BinaryOp.add, .sub, .mul, .div, .mod] → PiecewiseRational x →
    PiecewiseRational y → PiecewiseRational (.binary op x y)
  /-- A power with a constant integer exponent. -/
  | power {x} {n : ℤ} : n.natAbs ≤ 2147483646 → PiecewiseRational x →
    PiecewiseRational (.binary .pow x (.constant (n : K)))
  /-- A call of a function that has pieces. -/
  | call {name args} : (Text.lowercase name, args.length) ∈ Vocabulary.pieces →
    (∀ x ∈ args, PiecewiseRational x) → PiecewiseRational (.call name args)
  /-- A choice on any condition. -/
  | conditional {c t f} : PiecewiseRational t → PiecewiseRational f →
    PiecewiseRational (.conditional c t f)

/-- At a point, a tree evaluated on dual numbers is `d`, and where the tree is defined
its value is that of `d` and its derivative by `v` is worth the slope of `d`. -/
structure Expr.Agrees (p : Point S K) (v : Variable) (e : Expr K) (m : Derivatives K) (d : K[ε]) :
    Prop where
  /-- The tree on dual numbers. -/
  dual : e.dual? p v = some d
  /-- The value of the tree. -/
  value : HasValue p (e.Defined p) e d.fst
  /-- The value of the derivative. -/
  slope : HasSlope p (e.Defined p) m v d.snd

namespace Expr.Agrees

variable {p : Point S K} {v : Variable} {x y : Expr K} {mx my : Derivatives K} {dx dy : K[ε]}

/-! ### Leaves and signs -/

/-- A constant has slope zero. -/
theorem constant (c : K) : Agrees p v (.constant c) .empty (inl c) where
  dual := rfl
  value := HasValue.constant c
  slope := HasSlope.empty

/-- A variable has slope one by itself and zero by others. -/
theorem var {w : Variable} {wanted : List Variable} (hv : v ∈ wanted)
    (hw : Builds p (.var w)) :
    ∃ d, Agrees p v (.var w) (if w ∈ wanted then .single w Expr.one else .empty) d := by
  obtain ⟨a, ha⟩ := Expr.exists_value?_of_builds hw
  refine ⟨inl a + if w = v then ε else 0, ?_, ⟨hw, fun _ => trivial, fun _ => ?_⟩, ?_⟩
  · rw [dual?, ha]
    rfl
  · rw [ha]
    split <;> simp
  · by_cases hwv : w = v
    · rw [if_pos hwv, if_pos (hwv ▸ hv)]
      exact (HasSlope.single w).congr fun _ => by simp [hwv]
    · rw [if_neg hwv]
      split
      · exact (HasSlope.single w).congr fun _ => by simp [hwv]
      · exact HasSlope.empty.congr fun _ => by simp

/-- A plus sign changes nothing. -/
theorem plus (hx : Agrees p v x mx dx) : Agrees p v (.unary .plus x) mx dx where
  dual := by rw [dual?, hx.dual]
  value := ⟨Expr.builds_unary.mpr hx.value.builds, id, fun hr => by
    rw [value?_plus, hx.value.value hr]⟩
  slope := hx.slope

/-- A minus sign changes the sign of value and slope. -/
theorem minus (hx : Agrees p v x mx dx) :
    Agrees p v (.unary .minus x) (mx.map fun d => -d) (-dx) where
  dual := by
    rw [dual?, hx.dual]
    rfl
  value := by
    rw [fst_neg]
    exact hx.value.minus
  slope := by
    rw [snd_neg]
    exact hx.slope.map (fun d hd => hd.neg) fun _ => neg_zero

/-! ### Arithmetic -/

/-- An operator takes operands that agree to a tree that agrees, if it does so wherever
both operands are reached and their values are admitted. -/
theorem binary (op : BinaryOp) (hop : op ∈ [BinaryOp.add, .sub, .mul, .div, .mod])
    (hx : Agrees p v x mx dx) (hy : Agrees p v y my dy) {m : Derivatives K} {d : K[ε]}
    (hd : Dual.binary? op dx dy = some d)
    (h : ∀ reached : Prop, (reached → Admits p op x y) →
      HasValue p reached x dx.fst → HasSlope p reached mx v dx.snd →
      HasValue p reached y dy.fst → HasSlope p reached my v dy.snd →
      HasValue p reached (.binary op x y) d.fst ∧ HasSlope p reached m v d.snd) :
    Agrees p v (.binary op x y) m d := by
  have hsettles : ¬Settles p op x := by
    cases op <;> first | exact id | exact absurd hop (by decide)
  have hx' : Defined p (.binary op x y) → Defined p x := fun h => h.1
  have hy' : Defined p (.binary op x y) → Defined p y := fun h => h.2.1 hsettles
  obtain ⟨hvalue, hslope⟩ := h _ (fun h => h.2.2) (hx.value.mono hx') (hx.slope.mono hx')
    (hy.value.mono hy') (hy.slope.mono hy')
  refine ⟨?_, hvalue, hslope⟩
  rw [dual?, hx.dual, hy.dual]
  · exact hd
  · rintro rfl
    exact absurd hop (by decide)

/-- A sum has the sum of the slopes. -/
theorem add (hx : Agrees p v x mx dx) (hy : Agrees p v y my dy) :
    Agrees p v (.binary .add x y) (.sum [mx, my]) (dx + dy) := by
  refine binary .add (by decide) hx hy rfl fun reached _ hx hmx hy hmy => ⟨?_, ?_⟩
  · rw [fst_add]
    exact hx.plain_add hy
  · rw [snd_add]
    exact hmx.sum_two hmy

/-- A difference has their difference. -/
theorem sub (hx : Agrees p v x mx dx) (hy : Agrees p v y my dy) :
    Agrees p v (.binary .sub x y) (.sum [mx, my.map fun d => -d]) (dx - dy) := by
  refine binary .sub (by decide) hx hy rfl fun reached _ hx hmx hy hmy => ⟨?_, ?_⟩
  · rw [fst_sub]
    exact hx.plain_sub hy
  · rw [snd_sub, sub_eq_add_neg]
    exact hmx.sum_two (hmy.map (fun d hd => hd.neg) fun _ => neg_zero)

/-- A product has its slope by the product rule. -/
theorem mul (hx : Agrees p v x mx dx) (hy : Agrees p v y my dy) :
    Agrees p v (.binary .mul x y) (.sum [mx.map fun d => y * d, my.map fun d => x * d])
      (dx * dy) := by
  refine binary .mul (by decide) hx hy rfl fun reached _ hx hmx hy hmy => ⟨?_, ?_⟩
  · rw [fst_mul]
    exact hx.plain_mul hy
  · have hleft := hmx.map (fun d hd => hy.mul hd) fun _ => mul_zero dy.fst
    have hright := hmy.map (fun d hd => hx.mul hd) fun _ => mul_zero dx.fst
    exact (hleft.sum_two hright).congr fun _ => by
      simp only [snd_mul, smul_eq_mul, MulOpposite.smul_eq_mul_unop, MulOpposite.unop_op]
      ring

section Ordered

variable [IsStrictOrderedRing K]

/-- A quotient has its slope by the quotient rule. -/
theorem div (hx : Agrees p v x mx dx) (hy : Agrees p v y my dy) :
    Agrees p v (.binary .div x y)
      (.sum [mx.map fun d => d / y, my.map fun d => -(x * d / (y * y))]) (dx * dy⁻¹) := by
  refine binary .div (by decide) hx hy rfl fun reached hadmits hx hmx hy hmy => ?_
  have hne : reached → dy.fst ≠ 0 := fun hr h0 => hadmits hr (h0 ▸ hy.value hr)
  refine ⟨?_, ?_⟩
  · rw [fst_mul, fst_inv, ← div_eq_mul_inv]
    exact hx.plain_div hy hne
  · have hleft := hmx.map (φ := fun a => a / dy.fst) (fun d hd => hd.div hy hne)
      fun _ => zero_div dy.fst
    have hright := hmy.map (φ := fun a => -(dx.fst * a / (dy.fst * dy.fst)))
      (fun d hd => ((hx.mul hd).div (hy.mul hy) fun hr => mul_ne_zero (hne hr) (hne hr)).neg)
      fun _ => by simp
    exact (hleft.sum_two hright).congr fun hr => (Dual.snd_mul_inv dx dy (hne hr)).symm

/-- The quotient of a remainder, rounded toward zero. -/
theorem trunc_div {a b : K} {reached : Prop} (hx : HasValue p reached x a)
    (hy : HasValue p reached y b) (hb : reached → b ≠ 0) :
    HasValue p reached (.call "trunc" [x / y]) (Scalar.trunc (a / b)) :=
  HasValue.call_self (f := Vocabulary.piecewiseConstant "trunc" Scalar.trunc)
    (by simp [Vocabulary.builtinFunctions, Vocabulary.roundings]) rfl rfl
    (.cons (hx.div hy hb) .nil) rfl

/-- A remainder has its slope as if the truncated quotient were a constant. -/
theorem mod (hx : Agrees p v x mx dx) (hy : Agrees p v y my dy) :
    Agrees p v (.binary .mod x y)
      (.sum [mx, my.map fun d => -(.call "trunc" [x / y] * d)])
      (dx - inl (Scalar.trunc (dx.fst / dy.fst)) * dy) := by
  refine binary .mod (by decide) hx hy rfl fun reached hadmits hx hmx hy hmy => ?_
  have hne : reached → dy.fst ≠ 0 := fun hr h0 => hadmits hr (h0 ▸ hy.value hr)
  refine ⟨?_, ?_⟩
  · rw [fst_sub, fst_mul, fst_inl]
    exact hx.plain_mod hy hne
  · have hright := hmy.map (φ := fun a => -(Scalar.trunc (dx.fst / dy.fst) * a))
      (fun d hd => ((trunc_div hx hy hne).mul hd).neg) fun _ => by simp
    exact (hmx.sum_two hright).congr fun _ => by simp [sub_eq_add_neg]

/-! ### Powers -/

/-- The derivative of a power by its base, unless the base is constant. -/
theorem powerByBase {a : K} {reached : Prop} (hx : HasValue p reached x a)
    (hconstant : x.asConstant? = none) {n : ℤ} (hn : n.natAbs ≤ 2147483646)
    (ha : reached → n < 0 → a ≠ 0) :
    HasValue p reached (Vocabulary.powerByBase x (.constant (n : K))) (n * a ^ (n - 1)) := by
  have hexponent : (Expr.constant (n : K)).asConstant? = some (n : K) := rfl
  have hsome : (integerExponent? (n : K)).isSome = true := by
    rw [integerExponent?_intCast (by omega)]
    rfl
  have hpred : (n : K) - 1 = ((n - 1 : ℤ) : K) := by push_cast; rfl
  unfold Vocabulary.powerByBase
  simp only [hexponent, if_pos hsome, hpred]
  by_cases h0 : n = 0
  · rw [h0, Int.cast_zero, HasValue.constant_zero_mul]
    exact HasValue.zero.congr fun _ => (zero_mul _).symm
  · exact (HasValue.constant _).mul (hx.pow hconstant (by omega) fun hr hlt => ha hr (by omega))

/-- A power with a whole exponent has its slope by the power rule. -/
theorem power (hx : Agrees p v x mx dx) (hmx : x.asConstant?.isSome = true → mx = .empty) {n : ℤ}
    (hn : n.natAbs ≤ 2147483646) :
    Agrees p v (.binary .pow x (.constant (n : K)))
      (.chain ((Vocabulary.powerPartials x (.constant (n : K))).zip [mx, .empty]))
      (Dual.power dx n) := by
  have hx' : Defined p (.binary .pow x (.constant (n : K))) → Defined p x := fun h => h.1
  have hne : Defined p (.binary .pow x (.constant (n : K))) → n < 0 → dx.fst ≠ 0 := by
    intro h hneg h0
    exact h.2.2 n rfl (Int.cast_lt_zero.mpr hneg) (h0 ▸ hx.value.value h.1)
  have hslope := hx.slope.mono hx'
  refine ⟨?_, ?_, ?_⟩
  · have htoInt : (Expr.constant (n : K)).asConstant?.bind Scalar.toInt? = some n :=
      Exact.toInt?_eq_some.mpr rfl
    rw [dual?, hx.dual, htoInt]
    rfl
  · rw [Dual.fst_power]
    exact (hx.value.mono hx').plain_pow (by omega) hne
  · cases hconstant : x.asConstant? with
    | none =>
      have hpartial := powerByBase (hx.value.mono hx') hconstant hn hne
      have hchain := hslope.chain_one hpartial [(none, .empty)] (List.forall_mem_singleton.mpr rfl)
      exact hchain.congr fun hr => (Dual.snd_power dx (hne hr)).symm
    | some c =>
      obtain rfl := asConstant?_eq_some.mp hconstant
      obtain rfl : mx = .empty := hmx rfl
      obtain rfl : inl c = dx := Option.some.inj hx.dual
      have hchain : HasSlope p (Defined p (.binary .pow (.constant c) (.constant (n : K))))
          (.chain ((Vocabulary.powerPartials (.constant c) (.constant (n : K))).zip
            [.empty, .empty])) v [(0 : K)].sum :=
        Derivatives.Slope.sum HasValue.valuation (.cons HasSlope.empty .nil)
      exact hchain.congr fun hr => by rw [Dual.snd_power _ (hne hr)]; simp

end Ordered

/-! ### Choices -/

/-- A choice has the slope of the branch that its condition selects. -/
theorem conditional {c t f : Expr K} (hc : Builds p c) {mt mf : Derivatives K} {dt df : K[ε]}
    (ht : Agrees p v t mt dt) (hf : Agrees p v f mf df) :
    ∃ d, Agrees p v (.conditional c t f) (Derivative.ofConditional c mt mf) d := by
  obtain ⟨r, hr⟩ := Expr.exists_value?_of_builds hc
  have hcondition : HasValue p (Defined p (.conditional c t f)) c r :=
    ⟨hc, fun h => h.1, fun _ => hr⟩
  have ht' : Defined p (.conditional c t f) ∧ r ≠ 0 → Defined p t :=
    fun h => h.1.2.1 fun h0 => h.2 (Option.some.inj (hr.symm.trans h0))
  have hf' : Defined p (.conditional c t f) ∧ r = 0 → Defined p f :=
    fun h => h.1.2.2 (h.2 ▸ hr)
  refine ⟨if r = 0 then df else dt, ?_, ?_, ?_⟩
  · rw [dual?, hr, ht.dual, hf.dual]
    simp only [Option.bind_eq_bind, Option.bind_some]
    split <;> rfl
  · exact hcondition.conditional ((ht.value.mono ht').congr fun h => by rw [if_neg h.2])
      ((hf.value.mono hf').congr fun h => by rw [if_pos h.2])
  · exact HasSlope.select hcondition ((ht.slope.mono ht').congr fun h => by rw [if_neg h.2])
      ((hf.slope.mono hf').congr fun h => by rw [if_pos h.2])

/-! ### Functions that have pieces -/

/-- A call agrees if its function does on the values of the arguments. -/
theorem call {f : NamedFunction K} (hmem : f ∈ Vocabulary.builtinFunctions)
    {g : Implementation K K} (hg : f.real = some g) {name : String}
    (hname : f.name = Text.lowercase name) {args : List (Expr K)} (harity : f.arity = args.length)
    {values : List K} (hargs : List.Forall₂ (HasValue p (Defined p (.call name args))) args values)
    {ds : List K[ε]} (hds : dualAll? p v args = some ds) {d : K[ε]}
    (hd : Dual.call? f.name ds = some d) (hvalue : g 0 values = some d.fst) {m : Derivatives K}
    (hslope : HasSlope p (Defined p (.call name args)) m v d.snd) :
    Agrees p v (.call name args) m d where
  dual := by
    rw [dual?, hds, ← hname]
    exact hd
  value := HasValue.call hmem hg hname harity hargs hvalue
  slope := hslope

/-- One argument is evaluated on dual numbers as it is by itself. -/
theorem dualAll?_one (hx : Agrees p v x mx dx) : dualAll? p v [x] = some [dx] := by
  simp [dualAll?, hx.dual]

/-- Two arguments are evaluated on dual numbers as each is by itself. -/
theorem dualAll?_two (hx : Agrees p v x mx dx) (hy : Agrees p v y my dy) :
    dualAll? p v [x, y] = some [dx, dy] := by
  simp [dualAll?, hx.dual, hy.dual]

/-- Three arguments are evaluated on dual numbers as each is by itself. -/
theorem dualAll?_three {z : Expr K} {mz : Derivatives K} {dz : K[ε]} (hx : Agrees p v x mx dx)
    (hy : Agrees p v y my dy) (hz : Agrees p v z mz dz) :
    dualAll? p v [x, y, z] = some [dx, dy, dz] := by
  simp [dualAll?, hx.dual, hy.dual, hz.dual]

/-- A function that is constant in pieces has slope zero. -/
theorem rounding {fname : String} {g : K → K}
    (hmem : Vocabulary.piecewiseConstant fname g ∈ Vocabulary.builtinFunctions) {name : String}
    (hname : fname = Text.lowercase name)
    (hcall : ∀ d, Dual.call? fname [d] = some (inl (g d.fst)))
    (hx : Agrees p v x mx dx) : Agrees p v (.call name [x]) .empty (inl (g dx.fst)) :=
  call hmem rfl hname rfl (.cons (hx.value.mono fun h => h.1) .nil) hx.dualAll?_one (hcall dx) rfl
    HasSlope.empty

/-- The slope of an absolute value is that of its argument, with the sign of this. -/
theorem abs {name : String} (hname : "abs" = Text.lowercase name) (hx : Agrees p v x mx dx) :
    Agrees p v (.call name [x]) (.chain [(some (.call "sgn" [x]), mx)])
      (inl (Scalar.abs dx.fst) + inr (Scalar.sign dx.fst * dx.snd)) := by
  have hvalue : HasValue p (Defined p (.call name [x])) x dx.fst := hx.value.mono fun h => h.1
  have hslope : HasSlope p (Defined p (.call name [x])) mx v dx.snd :=
    hx.slope.mono fun h => h.1
  have hsgn := HasValue.call_self (f := Vocabulary.piecewiseConstant "sgn" Scalar.sign)
    (by simp [Vocabulary.builtinFunctions, Vocabulary.roundings]) rfl rfl (.cons hvalue .nil) rfl
  refine call (f := Vocabulary.abs) (by simp [Vocabulary.builtinFunctions]) rfl hname rfl
    (.cons hvalue .nil) hx.dualAll?_one rfl ?_ ?_
  · rw [fst_add, fst_inl, fst_inr, add_zero]
    rfl
  · exact (hslope.chain_one hsgn [] (List.forall_mem_nil _)).congr fun _ => by simp

/-- A function that selects one of two arguments by a comparison. -/
theorem selection {f : NamedFunction K} (hmem : f ∈ Vocabulary.builtinFunctions) {g : K → K → K}
    (hreal : f.real = some (.binary g)) (harity : f.arity = 2) {name : String}
    (hname : f.name = Text.lowercase name) (hx : Agrees p v x mx dx) (hy : Agrees p v y my dy)
    {op : BinaryOp} {P : Prop} [Decidable P]
    (hcompare : ∀ reached : Prop, HasValue p reached x dx.fst → HasValue p reached y dy.fst →
      HasValue p reached (.binary op x y) (if P then 1 else 0))
    (hcall : Dual.call? f.name [dx, dy] = some (if P then dx else dy))
    (hvalue : g dx.fst dy.fst = (if P then dx else dy).fst) :
    Agrees p v (.call name [x, y]) (Derivative.ofConditional (.binary op x y) mx my)
      (if P then dx else dy) := by
  have hx' : Defined p (.call name [x, y]) → Defined p x := fun h => h.1
  have hy' : Defined p (.call name [x, y]) → Defined p y := fun h => h.2.1
  have hvx := hx.value.mono hx'
  have hvy := hy.value.mono hy'
  refine call hmem hreal hname (by exact harity) (.cons hvx (.cons hvy .nil)) (hx.dualAll?_two hy)
    hcall ?_ ?_
  · rw [← hvalue]
    rfl
  · rw [apply_ite snd]
    exact HasSlope.select_ite (hcompare _ hvx hvy) (hx.slope.mono hx') (hy.slope.mono hy')

/-- The smaller of two arguments has its own slope. -/
theorem min {name : String} (hname : "min" = Text.lowercase name) (hx : Agrees p v x mx dx)
    (hy : Agrees p v y my dy) :
    Agrees p v (.call name [x, y]) (Derivative.ofConditional (.binary .lt x y) mx my)
      (Dual.min dx dy) :=
  selection (f := Vocabulary.min) (by simp [Vocabulary.builtinFunctions]) rfl rfl hname hx hy
    (fun _ hx hy => hx.plain_lt hy) rfl (Dual.fst_min dx dy).symm

/-- The larger of two arguments has its own slope. -/
theorem max {name : String} (hname : "max" = Text.lowercase name) (hx : Agrees p v x mx dx)
    (hy : Agrees p v y my dy) :
    Agrees p v (.call name [x, y]) (Derivative.ofConditional (.binary .gt x y) mx my)
      (Dual.max dx dy) :=
  selection (f := Vocabulary.max) (by simp [Vocabulary.builtinFunctions]) rfl rfl hname hx hy
    (fun _ hx hy => hx.plain_gt hy) rfl (Dual.fst_max dx dy).symm

/-- The first argument kept between the other two. -/
theorem limit {name : String} (hname : "limit" = Text.lowercase name) {z : Expr K}
    {mz : Derivatives K} {dz : K[ε]} (hx : Agrees p v x mx dx) (hy : Agrees p v y my dy)
    (hz : Agrees p v z mz dz) :
    Agrees p v (.call name [x, y, z])
      (Derivative.ofDirect Vocabulary.limitDerivative [x, y, z] [mx, my, mz])
      (Dual.min (Dual.max dx dy) dz) := by
  have hx' : Defined p (.call name [x, y, z]) → Defined p x := fun h => h.1
  have hy' : Defined p (.call name [x, y, z]) → Defined p y := fun h => h.2.1
  have hz' : Defined p (.call name [x, y, z]) → Defined p z := fun h => h.2.2.1
  have hvx := hx.value.mono hx'
  have hvy := hy.value.mono hy'
  have hvz := hz.value.mono hz'
  have hsx := hx.slope.mono hx'
  have hsy := hy.slope.mono hy'
  have hsz := hz.slope.mono hz'
  have hmax : HasValue p (Defined p (.call name [x, y, z])) (.call "max" [x, y])
      (Dual.max dx dy).fst :=
    HasValue.call_self (f := Vocabulary.max) (by simp [Vocabulary.builtinFunctions]) rfl rfl
      (.cons hvx (.cons hvy .nil)) (congrArg some (Dual.fst_max dx dy).symm)
  have hinner := (hvx.plain_gt hvy).select_ite hsx hsy
  have houter := (hmax.plain_lt hvz).select_ite hinner hsz
  refine call (f := Vocabulary.limit) (by simp [Vocabulary.builtinFunctions]) rfl hname rfl
    (.cons hvx (.cons hvy (.cons hvz .nil))) (hx.dualAll?_three hy hz) rfl ?_ ?_
  · rw [Dual.fst_min, Dual.fst_max]
    rfl
  · rw [Dual.min, apply_ite snd, Dual.max, apply_ite snd]
    refine HasSlope.ofKeys houter fun hnone hr => ?_
    rw [hsx.eq_zero (hnone mx (by simp)) hr, hsy.eq_zero (hnone my (by simp)) hr,
      hsz.eq_zero (hnone mz (by simp)) hr, ite_self, ite_self]

end Expr.Agrees

/-! ### The whole tree -/

namespace Expr

variable {wanted : List Variable} {v : Variable}

/-- The tree has derivatives, and wherever it builds it agrees with them on some dual
number. -/
def HasDerivatives (S : Type) (wanted : List Variable) (v : Variable) (e : Expr K) : Prop :=
  ∃ m, e.derivatives .builtin wanted = some m ∧
    ∀ p : Point S K, Builds p e → ∃ d, Agrees p v e m d

/-- The arithmetic of two trees with derivatives has derivatives. -/
theorem hasDerivatives_binary [IsStrictOrderedRing K] {op : BinaryOp} {x y : Expr K}
    (hop : op ∈ [BinaryOp.add, .sub, .mul, .div, .mod]) (hx : HasDerivatives S wanted v x)
    (hy : HasDerivatives S wanted v y) : HasDerivatives S wanted v (.binary op x y) := by
  obtain ⟨mx, hmx, hx⟩ := hx
  obtain ⟨my, hmy, hy⟩ := hy
  have hderivatives : (Expr.binary op x y).derivatives .builtin wanted =
      Derivative.ofBinary op x y mx my := by
    have hboolean : op.isBoolean = false := by
      cases op <;> first | rfl | exact absurd hop (by decide)
    rw [derivatives, hboolean, hmx, hmy]
    rfl
  have hagrees {p : Point S K} (h : Builds p (.binary op x y)) :
      (∃ d, Agrees p v x mx d) ∧ ∃ d, Agrees p v y my d :=
    ⟨hx p (builds_binary.mp h).1, hy p (builds_binary.mp h).2⟩
  simp only [List.mem_cons, List.not_mem_nil, or_false] at hop
  rcases hop with rfl | rfl | rfl | rfl | rfl
  · refine ⟨_, hderivatives, fun p h => ?_⟩
    obtain ⟨⟨dx, hdx⟩, dy, hdy⟩ := hagrees h
    exact ⟨_, hdx.add hdy⟩
  · refine ⟨_, hderivatives, fun p h => ?_⟩
    obtain ⟨⟨dx, hdx⟩, dy, hdy⟩ := hagrees h
    exact ⟨_, hdx.sub hdy⟩
  · refine ⟨_, hderivatives, fun p h => ?_⟩
    obtain ⟨⟨dx, hdx⟩, dy, hdy⟩ := hagrees h
    exact ⟨_, hdx.mul hdy⟩
  · refine ⟨_, hderivatives, fun p h => ?_⟩
    obtain ⟨⟨dx, hdx⟩, dy, hdy⟩ := hagrees h
    exact ⟨_, hdx.div hdy⟩
  · refine ⟨_, hderivatives, fun p h => ?_⟩
    obtain ⟨⟨dx, hdx⟩, dy, hdy⟩ := hagrees h
    exact ⟨_, hdx.mod hdy⟩

/-- A power with a whole exponent has derivatives if its base has. -/
theorem hasDerivatives_power [IsStrictOrderedRing K] {x : Expr K} {n : ℤ}
    (hn : n.natAbs ≤ 2147483646) (hx : HasDerivatives S wanted v x) :
    HasDerivatives S wanted v (.binary .pow x (.constant (n : K))) := by
  obtain ⟨mx, hmx, hx⟩ := hx
  have hconstant : x.asConstant?.isSome = true → mx = .empty := by
    intro h
    obtain ⟨c, hc⟩ := Option.isSome_iff_exists.mp h
    rw [asConstant?_eq_some.mp hc] at hmx
    exact (Option.some.inj hmx).symm
  refine ⟨.chain ((Vocabulary.powerPartials x (.constant (n : K))).zip [mx, .empty]), ?_,
    fun p h => ?_⟩
  · rw [derivatives, hmx]
    rfl
  · obtain ⟨dx, hdx⟩ := hx p (builds_binary.mp h).1
    exact ⟨_, hdx.power hconstant hn⟩

/-- A choice has derivatives if its branches have, whatever its condition. -/
theorem hasDerivatives_conditional {c t f : Expr K} (ht : HasDerivatives S wanted v t)
    (hf : HasDerivatives S wanted v f) : HasDerivatives S wanted v (.conditional c t f) := by
  obtain ⟨mt, hmt, ht⟩ := ht
  obtain ⟨mf, hmf, hf⟩ := hf
  refine ⟨Derivative.ofConditional c mt mf, ?_, fun p h => ?_⟩
  · rw [derivatives, hmt, hmf]
    rfl
  · obtain ⟨hc, ht', hf'⟩ := builds_conditional.mp h
    obtain ⟨dt, hdt⟩ := ht p ht'
    obtain ⟨df, hdf⟩ := hf p hf'
    exact Agrees.conditional hc hdt hdf

/-- A call of one argument has derivatives if its rule agrees with dual numbers. -/
theorem hasDerivatives_one {f : NamedFunction K} (hmem : f ∈ Vocabulary.builtinFunctions)
    (harity : f.arity = 1) {name : String} (hname : f.name = Text.lowercase name) {x : Expr K}
    {rule : Derivatives K → Derivatives K}
    (hrule : ∀ mx, Derivative.ofCall f.derivative [x] [mx] = some (rule mx))
    (hagrees : ∀ {p : Point S K} {mx : Derivatives K} {dx : K[ε]}, Agrees p v x mx dx →
      ∃ d, Agrees p v (.call name [x]) (rule mx) d)
    (hx : HasDerivatives S wanted v x) : HasDerivatives S wanted v (.call name [x]) := by
  obtain ⟨mx, hmx, hx⟩ := hx
  have hderivatives : (Expr.call name [x]).derivatives .builtin wanted =
      Derivative.ofCall f.derivative [x] [mx] :=
    derivatives_call hmem hname (by exact harity) [mx] (by simp [derivativesAll, hmx])
  refine ⟨rule mx, hderivatives.trans (hrule mx), fun p h => ?_⟩
  obtain ⟨dx, hdx⟩ := hx p ((builds_call.mp h).2 x List.mem_cons_self)
  exact hagrees hdx

/-- A call of two arguments has derivatives if its rule agrees with dual numbers. -/
theorem hasDerivatives_two {f : NamedFunction K} (hmem : f ∈ Vocabulary.builtinFunctions)
    (harity : f.arity = 2) {name : String} (hname : f.name = Text.lowercase name) {x y : Expr K}
    {rule : Derivatives K → Derivatives K → Derivatives K}
    (hrule : ∀ mx my, Derivative.ofCall f.derivative [x, y] [mx, my] = some (rule mx my))
    (hagrees : ∀ {p : Point S K} {mx my : Derivatives K} {dx dy : K[ε]}, Agrees p v x mx dx →
      Agrees p v y my dy → ∃ d, Agrees p v (.call name [x, y]) (rule mx my) d)
    (hx : HasDerivatives S wanted v x) (hy : HasDerivatives S wanted v y) :
    HasDerivatives S wanted v (.call name [x, y]) := by
  obtain ⟨mx, hmx, hx⟩ := hx
  obtain ⟨my, hmy, hy⟩ := hy
  have hderivatives : (Expr.call name [x, y]).derivatives .builtin wanted =
      Derivative.ofCall f.derivative [x, y] [mx, my] :=
    derivatives_call hmem hname (by exact harity) [mx, my] (by simp [derivativesAll, hmx, hmy])
  refine ⟨rule mx my, hderivatives.trans (hrule mx my), fun p h => ?_⟩
  obtain ⟨dx, hdx⟩ := hx p ((builds_call.mp h).2 x (by simp))
  obtain ⟨dy, hdy⟩ := hy p ((builds_call.mp h).2 y (by simp))
  exact hagrees hdx hdy

/-- A limited value has derivatives if its three arguments have. -/
theorem hasDerivatives_limit {name : String} (hname : "limit" = Text.lowercase name)
    {x y z : Expr K} (hx : HasDerivatives S wanted v x) (hy : HasDerivatives S wanted v y)
    (hz : HasDerivatives S wanted v z) : HasDerivatives S wanted v (.call name [x, y, z]) := by
  obtain ⟨mx, hmx, hx⟩ := hx
  obtain ⟨my, hmy, hy⟩ := hy
  obtain ⟨mz, hmz, hz⟩ := hz
  refine ⟨_, derivatives_call (f := Vocabulary.limit) (by simp [Vocabulary.builtinFunctions])
    hname rfl [mx, my, mz] (by simp [derivativesAll, hmx, hmy, hmz]), fun p h => ?_⟩
  obtain ⟨dx, hdx⟩ := hx p ((builds_call.mp h).2 x (by simp))
  obtain ⟨dy, hdy⟩ := hy p ((builds_call.mp h).2 y (by simp))
  obtain ⟨dz, hdz⟩ := hz p ((builds_call.mp h).2 z (by simp))
  exact ⟨_, Agrees.limit hname hdx hdy hdz⟩

/-- A call of a function that has pieces, with as many arguments as it takes. -/
theorem hasDerivatives_call {name : String} {args : List (Expr K)}
    (hpieces : (Text.lowercase name, args.length) ∈ Vocabulary.pieces)
    (hargs : ∀ x ∈ args, HasDerivatives S wanted v x) :
    HasDerivatives S wanted v (.call name args) := by
  have hrounding {fname : String} {g : K → K} {x : Expr K}
      (hmem : Vocabulary.piecewiseConstant fname g ∈ Vocabulary.builtinFunctions)
      (hname : fname = Text.lowercase name)
      (hcall : ∀ d, Dual.call? fname [d] = some (inl (g d.fst)))
      (hx : HasDerivatives S wanted v x) : HasDerivatives S wanted v (.call name [x]) :=
    hasDerivatives_one hmem rfl hname (fun _ => rfl)
      (fun h => ⟨_, h.rounding hmem hname hcall⟩) hx
  have habs {x : Expr K} (hname : "abs" = Text.lowercase name) (hx : HasDerivatives S wanted v x) :
      HasDerivatives S wanted v (.call name [x]) :=
    hasDerivatives_one (f := Vocabulary.abs) (by simp [Vocabulary.builtinFunctions]) rfl hname
      (fun _ => rfl) (fun h => ⟨_, h.abs hname⟩) hx
  obtain _ | ⟨x, _ | ⟨y, _ | ⟨z, _ | ⟨u, rest⟩⟩⟩⟩ := args
  · simp [Vocabulary.pieces] at hpieces
  · have hx := hargs x List.mem_cons_self
    have hname : Text.lowercase name = "abs" ∨ Text.lowercase name = "sgn" ∨
        Text.lowercase name = "floor" ∨ Text.lowercase name = "ceil" ∨
        Text.lowercase name = "round" ∨ Text.lowercase name = "trunc" := by
      simpa [Vocabulary.pieces] using hpieces
    rcases hname with h | h | h | h | h | h
    · exact habs h.symm hx
    all_goals
      exact hrounding (by simp [Vocabulary.builtinFunctions, Vocabulary.roundings]) h.symm
        (fun _ => rfl) hx
  · have hx := hargs x (by simp)
    have hy := hargs y (by simp)
    have hname : Text.lowercase name = "min" ∨ Text.lowercase name = "max" := by
      simpa [Vocabulary.pieces] using hpieces
    rcases hname with h | h
    · exact hasDerivatives_two (f := Vocabulary.min) (by simp [Vocabulary.builtinFunctions]) rfl
        h.symm (fun _ _ => rfl) (fun hx hy => ⟨_, hx.min h.symm hy⟩) hx hy
    · exact hasDerivatives_two (f := Vocabulary.max) (by simp [Vocabulary.builtinFunctions]) rfl
        h.symm (fun _ _ => rfl) (fun hx hy => ⟨_, hx.max h.symm hy⟩) hx hy
  · have hname : Text.lowercase name = "limit" := by simpa [Vocabulary.pieces] using hpieces
    exact hasDerivatives_limit hname.symm (hargs x (by simp)) (hargs y (by simp))
      (hargs z (by simp))
  · simp [Vocabulary.pieces] at hpieces

/-- **Every piecewise rational tree has derivatives that agree with it.** -/
theorem PiecewiseRational.hasDerivatives [IsStrictOrderedRing K] (hv : v ∈ wanted) {e : Expr K}
    (he : PiecewiseRational e) : HasDerivatives S wanted v e := by
  induction he with
  | constant => exact ⟨.empty, rfl, fun p _ => ⟨_, Agrees.constant _⟩⟩
  | var => exact ⟨_, rfl, fun p h => Agrees.var hv h⟩
  | @unary op x hop _ ih =>
    obtain ⟨mx, hmx, hx⟩ := ih
    cases op with
    | not => exact absurd rfl hop
    | plus =>
      refine ⟨mx, ?_, fun p h => ?_⟩
      · rw [derivatives, hmx]
        · rfl
        · exact hop
      · obtain ⟨dx, hdx⟩ := hx p (builds_unary.mp h)
        exact ⟨_, hdx.plus⟩
    | minus =>
      refine ⟨mx.map fun d => -d, ?_, fun p h => ?_⟩
      · rw [derivatives, hmx]
        · rfl
        · exact hop
      · obtain ⟨dx, hdx⟩ := hx p (builds_unary.mp h)
        exact ⟨_, hdx.minus⟩
  | binary hop _ _ ihx ihy => exact hasDerivatives_binary hop ihx ihy
  | power hn _ ih => exact hasDerivatives_power hn ih
  | call hpieces _ ih => exact hasDerivatives_call hpieces ih
  | conditional _ _ iht ihf => exact hasDerivatives_conditional iht ihf

/-- A tree that has a value builds with any steady host, and its evaluator yields the
value. -/
theorem HasValue.exists_build [IsStrictOrderedRing K] {p : Point S K} {e : Expr K} {a : K}
    (h : HasValue p True e a) {σ : Type} {host : Resolver σ S} (hhost : host.Steady p.source?)
    (state : σ) :
    ∃ x, (Evaluator.build exactSetting host e state).1 = .ok x ∧
      x.value? (.real 0) p.memory = some a := by
  obtain ⟨x, hx⟩ := h.builds
  refine ⟨x, (Evaluator.build_eq_translate hhost e state).trans hx, ?_⟩
  rw [Evaluator.value?, ← h.value trivial, value?]
  exact congrArg Evaluation.value?
    (Evaluator.translate_run (Backend.real_multipliesOut 0) _ e hx p.memory)

/-- **The derivative evaluates to the slope.**  Whatever the wanted variables, a piecewise
rational tree has derivatives.  At every point where the tree builds and is defined, its
value and the value of its derivative by a wanted variable, zero without an entry, are
the two parts of the tree evaluated on dual numbers; and the derivative is defined there
too. -/
theorem derive_eq_slope [IsStrictOrderedRing K] {wanted : List Variable} {v : Variable}
    (hv : v ∈ wanted) {e : Expr K} (he : PiecewiseRational e) {σ : Type} {host : Resolver σ S}
    {source? : Variable → Option S} (hhost : host.Steady source?) :
    ∃ m, e.derive .builtin wanted = some m ∧
      ∀ (memory : S → K) (state : σ) (x : Evaluator K S K),
        (Evaluator.build exactSetting host e state).1 = .ok x →
        e.Defined ⟨source?, memory⟩ →
        ∃ d y, e.dual? ⟨source?, memory⟩ v = some d ∧
          x.value? (.real 0) memory = some d.fst ∧
          (Evaluator.build exactSetting host (Vocabulary.orZero (m.get? v)) state).1 = .ok y ∧
          (Vocabulary.orZero (m.get? v)).Defined ⟨source?, memory⟩ ∧
          y.value? (.real 0) memory = some d.snd := by
  obtain ⟨m, hm, hagrees⟩ := he.hasDerivatives (S := S) hv
  refine ⟨m, (deriveWith_eq (fun _ _ => Scalar.eq_of_same) _ _ wanted e).trans hm, ?_⟩
  intro memory state x hx hdefined
  have hbuilds : Builds ⟨source?, memory⟩ e :=
    ⟨x, (Evaluator.build_eq_translate hhost e state).symm.trans hx⟩
  obtain ⟨d, hd⟩ := hagrees ⟨source?, memory⟩ hbuilds
  have hvalue := hd.value.mono fun _ : True => hdefined
  have hslope := hd.slope.mono fun _ : True => hdefined
  obtain ⟨x', hx', hxvalue⟩ := hvalue.exists_build hhost state
  obtain ⟨y, hy, hyvalue⟩ := HasValue.exists_build hslope hhost state
  obtain rfl : x' = x := Except.ok.inj (hx'.symm.trans hx)
  exact ⟨d, y, hd.dual, hxvalue, hy, HasValue.defined hslope trivial, hyvalue⟩

/-- The quotient `a ^ 3 / b` where `a` is positive, and the magnitude of `a` elsewhere. -/
noncomputable def cubicPiece : Expr ℝ :=
  .conditional (.binary .gt (.var (.named "a")) (.constant 0))
    (.binary .div (.binary .pow (.var (.named "a")) (.constant ((3 : ℤ) : ℝ)))
      (.var (.named "b")))
    (.call "abs" [.var (.named "a")])

/-- The values of `a` and of all other variables, every variable its own source. -/
def cubicPoint (a b : ℝ) : Point Variable ℝ :=
  ⟨some, fun v => if v = .named "a" then a else b⟩

/-- At `a = 2`, `b = 4` the derivative of `a ^ 3 / b` by `a` evaluates to `3`. -/
theorem derive_cubicPiece :
    ∃ m y, cubicPiece.derive .builtin [.named "a"] = some m ∧
      (Evaluator.build exactSetting (fun v n => (some v, n + 1)) (Vocabulary.orZero
        (m.get? (.named "a"))) (0 : Nat)).1 = .ok y ∧
      y.value? (.real 0) (cubicPoint 2 4).memory = some 3 := by
  have hpiecewise : PiecewiseRational cubicPiece :=
    .conditional (.binary (by decide) (.power (by decide) .var) .var)
      (.call (by decide +kernel) (List.forall_mem_singleton.mpr .var))
  have hhost : Resolver.Steady (fun v n => (some v, n + 1) : Resolver Nat Variable) some :=
    fun _ _ => rfl
  let p := cubicPoint 2 4
  have ha : HasValue p True (.var (.named "a")) 2 :=
    ⟨⟨_, rfl⟩, fun _ => trivial, fun _ => rfl⟩
  have hb : HasValue p True (.var (.named "b")) 4 :=
    ⟨⟨_, rfl⟩, fun _ => trivial, fun _ => rfl⟩
  have hcondition : HasValue p True
      (.binary .gt (.var (.named "a")) (.constant 0)) 1 :=
    (ha.plain_gt (HasValue.constant 0)).congr fun _ => by norm_num
  have hquotient := (ha.plain_pow (n := 3) (by decide) (by norm_num)).plain_div hb (by norm_num)
  have habs := HasValue.call_self (f := Vocabulary.abs) (by simp [Vocabulary.builtinFunctions])
    rfl rfl (.cons ha .nil) rfl
  have hvalue : HasValue p True cubicPiece (2 ^ (3 : ℤ) / 4) :=
    hcondition.conditional (hquotient.mono fun h => h.1)
      ((habs.mono fun h => h.1).congr fun h => absurd h.2 one_ne_zero)
  have hda : dual? p (.named "a") (.var (.named "a")) = some (inl 2 + ε) := by
    rw [dual?, ha.value trivial]
    rfl
  have hdb : dual? p (.named "a") (.var (.named "b")) = some (inl 4 + 0) := by
    rw [dual?, hb.value trivial]
    rfl
  have hcube : dual? p (.named "a")
      (.binary .pow (.var (.named "a")) (.constant ((3 : ℤ) : ℝ))) =
        some (Dual.power (inl 2 + ε) 3) := by
    have htoInt : (Expr.constant ((3 : ℤ) : ℝ)).asConstant?.bind Scalar.toInt? = some 3 :=
      Exact.toInt?_eq_some.mpr rfl
    rw [dual?, hda, htoInt]
    rfl
  have hdual : cubicPiece.dual? p (.named "a") =
      some (Dual.power (inl 2 + ε) 3 * (inl 4 + 0)⁻¹) := by
    rw [cubicPiece, dual?, hcondition.value trivial]
    simp only [Option.bind_eq_bind, Option.bind_some, if_neg (one_ne_zero' ℝ)]
    rw [dual?, hcube, hdb]
    · rfl
    · decide
  obtain ⟨x, hx⟩ := hvalue.builds
  obtain ⟨m, hm, hslope⟩ := derive_eq_slope (v := .named "a") List.mem_cons_self hpiecewise hhost
  obtain ⟨d, y, hd, -, hy, -, hyvalue⟩ := hslope p.memory 0 x
    ((Evaluator.build_eq_translate hhost cubicPiece 0).trans hx) (hvalue.defined trivial)
  refine ⟨m, y, hm, hy, hyvalue.trans ?_⟩
  obtain rfl := Option.some.inj (hd.symm.trans hdual)
  rw [Dual.snd_mul_inv _ _ (by norm_num)]
  rw [Dual.snd_power _ (by norm_num), Dual.fst_power]
  norm_num

end Expr

end CircuitExpr
