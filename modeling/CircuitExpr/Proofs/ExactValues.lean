/-
# The value of a tree at a point, exactly

Numbers are exact, the functions are the built-in ones, and the guard is zero.  In this
setting a tree has three things to be asked at a point, each answered by recursion:

* whether it *builds*: every variable and every function is found;
* what its *value* is, as the interpreter gives it;
* whether it is *defined*: no divisor that is reached is zero, and no base of a negative
  power.

A tree that builds always has a value (`exists_value?_of_builds`); where a divisor is zero
that value means nothing, which is why a tree also has to be defined.
-/

import Mathlib
import CircuitExpr.Proofs.ExactNumbers
import CircuitExpr.Proofs.TreeValues

namespace CircuitExpr

variable {K S : Type} [Field K] [LinearOrder K] [FloorRing K] [AnalyticFunctions K]

/-- The built-in functions on real values, no divisor moved. -/
def exactSetting : Setting K S K := ⟨.builtin, .real 0⟩

namespace Expr

/-- Every variable and every function of the tree is found. -/
def Builds (p : Point S K) (e : Expr K) : Prop :=
  ∃ x, Evaluator.translate exactSetting p.source? e = .ok x

/-- The value of the tree. -/
def value? (p : Point S K) (e : Expr K) : Option K :=
  (e.interpret exactSetting p.source? p.memory).value?

/-- Does the left operand decide, so that the right one is not reached? -/
def Settles (p : Point S K) (op : BinaryOp) (x : Expr K) : Prop :=
  match op with
  | .and => x.value? p = some 0
  | .or => x.value? p ≠ some 0
  | _ => False

/-- A divisor is not zero, nor is a base under a negative exponent. -/
def Admits (p : Point S K) (op : BinaryOp) (x y : Expr K) : Prop :=
  match op with
  | .div | .mod => y.value? p ≠ some 0
  | .pow => ∀ b, y.value? p = some b → b < 0 → x.value? p ≠ some 0
  | _ => True

mutual

/-- No divisor that is reached is zero, and no base of a negative power. -/
def Defined (p : Point S K) : Expr K → Prop
  | .constant _ => True
  | .var _ => True
  | .unary _ x => Defined p x
  | .binary op x y => Defined p x ∧ (¬Settles p op x → Defined p y) ∧ Admits p op x y
  | .call _ args => DefinedAll p args
  | .conditional c t f =>
    Defined p c ∧ (c.value? p ≠ some 0 → Defined p t) ∧ (c.value? p = some 0 → Defined p f)

/-- Some trees are all defined. -/
def DefinedAll (p : Point S K) : List (Expr K) → Prop
  | [] => True
  | x :: xs => Defined p x ∧ DefinedAll p xs

end

/-- Some trees are defined if each of them is. -/
theorem definedAll_iff {p : Point S K} {es : List (Expr K)} :
    DefinedAll p es ↔ ∀ e ∈ es, Defined p e := by
  induction es with
  | nil => simp [DefinedAll]
  | cons e es ih => rw [DefinedAll, ih, List.forall_mem_cons]

variable {p : Point S K}

/-! ### Building -/

/-- A constant builds. -/
theorem builds_constant (c : K) : Builds p (.constant c) := buildable_constant c

/-- An operator before an operand builds if the operand does. -/
theorem builds_unary {op : UnaryOp} {x : Expr K} : Builds p (.unary op x) ↔ Builds p x :=
  buildable_unary

/-- An operator between two operands builds if both do. -/
theorem builds_binary {op : BinaryOp} {x y : Expr K} :
    Builds p (.binary op x y) ↔ Builds p x ∧ Builds p y :=
  buildable_binary

/-- A choice builds if its three parts do. -/
theorem builds_conditional {c t f : Expr K} :
    Builds p (.conditional c t f) ↔ Builds p c ∧ Builds p t ∧ Builds p f :=
  buildable_conditional

/-- A call builds if its function is a built-in one with real values and its arguments
build. -/
theorem builds_call {name : String} {args : List (Expr K)} :
    Builds p (.call name args) ↔
      (∃ f ∈ (Vocabulary.builtinFunctions : List (NamedFunction K)),
        f.name = Text.lowercase name ∧ f.arity = args.length ∧ f.real.isSome = true) ∧
        ∀ x ∈ args, Builds p x :=
  buildable_builtin_call

/-! ### Values -/

/-- A constant has its value. -/
@[simp]
theorem value?_constant (c : K) : (Expr.constant c).value? p = some c := rfl

/-- A plus sign changes nothing. -/
@[simp]
theorem value?_plus (x : Expr K) : (Expr.unary .plus x).value? p = x.value? p :=
  valueIn?_plus x

/-- A minus sign changes the sign. -/
@[simp]
theorem value?_minus (x : Expr K) :
    (Expr.unary .minus x).value? p = (x.value? p).map fun a => -a :=
  valueIn?_minus x

/-- The value of an operator that always reaches both operands. -/
theorem value?_binary {op : BinaryOp} (hand : op ≠ .and) (hor : op ≠ .or) (hpow : op ≠ .pow)
    (x y : Expr K) :
    (Expr.binary op x y).value? p =
      (x.value? p).bind fun a => (y.value? p).map
        (Evaluator.combine (.real 0 : Backend K S K) op a) :=
  valueIn?_binary hand hor hpow x y

/-- A number counts as true if it is not zero. -/
theorem isTrue_exact {a : K} :
    (exactSetting : Setting K S K).backend.isTrue a = true ↔ a ≠ 0 :=
  Scalar.ne_iff

/-- A choice has the value of the branch that its condition selects. -/
@[simp]
theorem value?_conditional (c t f : Expr K) :
    (Expr.conditional c t f).value? p =
      (c.value? p).bind fun a => if a = 0 then f.value? p else t.value? p := by
  refine (valueIn?_conditional c t f).trans ?_
  congr 1
  funext a
  by_cases ha : a = 0
  · rw [if_neg fun h => isTrue_exact.mp h ha, if_pos ha]
    rfl
  · rw [if_pos (isTrue_exact.mpr ha), if_neg ha]
    rfl

/-- The value of a call comes from those of its arguments. -/
theorem value?_call {name : String} {args : List (Expr K)} {f : NamedFunction K}
    {g : Implementation K K}
    (hf : (Vocabulary.builtin : Vocabulary K).functionOf? name args.length = some f)
    (hg : f.real = some g) :
    (Expr.call name args).value? p = (args.mapM (value? p)).bind (g 0) := by
  have himplementation : (exactSetting : Setting K S K).backend.implementation f =
      some (.plain g) := Backend.real_implementation_eq_some.mpr ⟨g, hg, rfl⟩
  exact valueIn?_call (s := exactSetting) (p := p) hf himplementation

/-- The value of a power with a constant integer exponent. -/
theorem value?_pow [IsStrictOrderedRing K] {x : Expr K} {a : K} (hx : x.value? p = some a) {n : ℤ}
    (hn : n.natAbs ≤ 2147483647) :
    (Expr.binary .pow x (.constant (n : K))).value? p = some (a ^ n) := by
  have hexponent : (Expr.constant (n : K)).isZeroExponent = true ↔ n = 0 := by
    simp only [isZeroExponent, asConstant?, Option.bind_some, integerExponent?_intCast hn,
      beq_iff_eq, Option.some.injEq]
    rw [← Int32.toInt_inj, toInt_ofInt_of_natAbs_le hn, Int32.toInt_zero]
  refine (valueIn?_pow x _).trans ?_
  by_cases h0 : n = 0
  · rw [if_pos (hexponent.mpr h0), h0, zpow_zero]
    rfl
  · rw [if_neg (mt hexponent.mp h0), show x.valueIn? exactSetting p = some a from hx]
    exact congrArg some (realPow_intCast a hn)

/-- **What builds has a value.** -/
theorem exists_value?_of_builds {e : Expr K} (h : Builds p e) : ∃ a, e.value? p = some a :=
  exists_valueIn? (Setting.total_builtin 0) h

end Expr
end CircuitExpr
