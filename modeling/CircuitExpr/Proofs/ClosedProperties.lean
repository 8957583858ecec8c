/-
# Properties that derivatives inherit

A derivative is put together from parts of its tree, from constants, operators and choices,
and from calls of built-in functions that the rules of differentiation bring in: `log` for
a power, `trunc` for a remainder, `cos` for `sin`.  A property of trees that the operands
have with the whole, and that such combinations have with their parts, is *hereditary*, and
a tree with a hereditary property has derivatives with it, by every variable
(`Hereditary.derive`).

The conditions of choices are asked for separately.  The rules make choices on the
condition of a choice that was there and on comparisons of arguments, and a condition is
never differentiated, so nothing has to hold of it but that it may stand there (`Guards`).

Most hereditary properties are *closed*: they pass from all parts to the whole and back.
Two closed properties matter, that a tree can be built and that it has no variables but
given ones.

The walk gives a part the derivatives of another part that counts as the same.  So what is
kept along the walk is not about parts and their own derivatives: all parts on the stack
have the property, and all derivatives that are known.
-/

import Mathlib
import CircuitExpr.Proofs.DerivativeMaps
import CircuitExpr.Proofs.WalkStates

namespace CircuitExpr

open Vocabulary (orZero)

variable {ρ : Type}

/-! ### Closed properties -/

/-- The names of the built-in functions that have values of their own, and how many
arguments they take. -/
def Vocabulary.realSignatures : List (String × Nat) :=
  [("exp", 1), ("log", 1), ("ln", 1), ("log10", 1), ("sqrt", 1), ("hypot", 2), ("pow", 2),
    ("pwr", 2), ("sin", 1), ("cos", 1), ("tan", 1), ("asin", 1), ("acos", 1), ("atan", 1),
    ("sinh", 1), ("cosh", 1), ("tanh", 1), ("asinh", 1), ("acosh", 1), ("atanh", 1),
    ("atan2", 2), ("abs", 1), ("sgn", 1), ("floor", 1), ("ceil", 1), ("round", 1),
    ("trunc", 1), ("min", 2), ("max", 2), ("limit", 3)]

/-- The signatures are those of the built-in functions with values on real numbers. -/
theorem Vocabulary.realSignatures_eq [Scalar ρ] : realSignatures =
    ((builtinFunctions : List (NamedFunction ρ)).filter (·.real.isSome)).map
      fun f => (f.name, f.arity) :=
  rfl

/-- A built-in function with real values is found under its name. -/
theorem Vocabulary.functionOf?_of_mem_realSignatures [Scalar ρ] {name : String} {arity : Nat}
    (h : (name, arity) ∈ realSignatures) :
    ∃ f ∈ (builtinFunctions : List (NamedFunction ρ)),
      builtin.functionOf? name arity = some f ∧ f.real.isSome = true := by
  rw [realSignatures_eq (ρ := ρ)] at h
  obtain ⟨f, hf, hsignature⟩ := List.mem_map.mp h
  obtain ⟨hmem, hreal⟩ := List.mem_filter.mp hf
  obtain ⟨rfl, harity⟩ := Prod.mk.inj hsignature
  exact ⟨f, hmem, builtin_functionOf?_eq_some.mpr ⟨hmem, (lowercase_name hmem).symm, harity⟩, hreal⟩

namespace Expr

/-- A property of trees that passes from the parts to the whole and back, and to calls of
the functions that differentiation brings in. -/
structure Closed (P : Expr ρ → Prop) : Prop where
  /-- Constants have it. -/
  constant (c : ρ) : P (.constant c)
  /-- An operator has it with its operand. -/
  unary {op : UnaryOp} {x : Expr ρ} : P (.unary op x) ↔ P x
  /-- An operator has it with both operands. -/
  binary {op : BinaryOp} {x y : Expr ρ} : P (.binary op x y) ↔ P x ∧ P y
  /-- A choice has it with its condition and both branches. -/
  conditional {c t f : Expr ρ} : P (.conditional c t f) ↔ P c ∧ P t ∧ P f
  /-- The arguments of a call have it. -/
  argument {name : String} {args : List (Expr ρ)} : P (.call name args) → ∀ x ∈ args, P x
  /-- A function that was called may be called again, its name in any case. -/
  again {name name' : String} {args args' : List (Expr ρ)} : P (.call name args) →
    Text.lowercase name' = Text.lowercase name → args'.length = args.length →
      (∀ x ∈ args', P x) → P (.call name' args')
  /-- A built-in function with values may be called. -/
  builtin {name : String} {args : List (Expr ρ)} :
    (name, args.length) ∈ Vocabulary.realSignatures → (∀ x ∈ args, P x) → P (.call name args)

/-- The parts of a tree have a closed property with it. -/
theorem Closed.child {P : Expr ρ → Prop} {x : Expr ρ} (hP : Closed P) {e : Expr ρ} (he : P e)
    (hx : x ∈ e.children) : P x := by
  cases e with
  | constant c => cases hx
  | var v => cases hx
  | unary op y =>
    obtain rfl := List.mem_singleton.mp hx
    exact hP.unary.mp he
  | binary op y z =>
    obtain ⟨hy, hz⟩ := hP.binary.mp he
    simp only [children, List.mem_cons, List.not_mem_nil, or_false] at hx
    obtain rfl | rfl := hx
    · exact hy
    · exact hz
  | call name args => exact hP.argument he x hx
  | conditional c t f =>
    obtain ⟨hc, ht, hf⟩ := hP.conditional.mp he
    simp only [children, List.mem_cons, List.not_mem_nil, or_false] at hx
    obtain rfl | rfl | rfl := hx
    · exact hc
    · exact ht
    · exact hf

/-- A choice on this condition has the property with its branches. -/
def Guards (P : Expr ρ → Prop) (c : Expr ρ) : Prop :=
  ∀ t f : Expr ρ, P t → P f → P (.conditional c t f)

/-- A property that choices under a condition keep is kept when the choice is folded. -/
theorem Guards.select [Scalar ρ] {P : Expr ρ → Prop} {c x y : Expr ρ} (hc : Guards P c)
    (hx : P x) (hy : P y) : P (Expr.select c x y) := by
  unfold Expr.select
  split
  · exact hx
  split
  · split
    · exact hx
    · exact hy
  · exact hc x y hx hy

/-- A property of trees that operands have with the whole, and that whatever differentiation
puts together has with what it is put together from. -/
structure Hereditary [Scalar ρ] (P : Expr ρ → Prop) : Prop where
  /-- Constants have it. -/
  constant (c : ρ) : P (.constant c)
  /-- What a tree is differentiated through has it with the tree. -/
  operand {e x : Expr ρ} : P e → x ∈ e.operands → P x
  /-- A change of sign keeps it. -/
  minus {x : Expr ρ} : P x → P (.unary .minus x)
  /-- An operator that computes has it with both operands. -/
  arithmetic {op : BinaryOp} {x y : Expr ρ} :
    op.isBoolean = false → P x → P y → P (.binary op x y)
  /-- The condition of a choice may be that of another one. -/
  condition {c t f : Expr ρ} : P (.conditional c t f) → Guards P c
  /-- A comparison may be a condition. -/
  comparison {op : BinaryOp} {x y : Expr ρ} : P x → P y → Guards P (.binary op x y)
  /-- A built-in function that was called may be called again. -/
  again {f : NamedFunction ρ} {name : String} {args args' : List (Expr ρ)} :
    P (.call name args) → Vocabulary.builtin.functionOf? name args.length = some f →
      args'.length = args.length → (∀ x ∈ args', P x) → P (.call f.name args')
  /-- A built-in function with values may be called. -/
  builtin {name : String} {args : List (Expr ρ)} :
    (name, args.length) ∈ Vocabulary.realSignatures → (∀ x ∈ args, P x) → P (.call name args)

/-- A closed property is hereditary. -/
theorem Closed.hereditary [Scalar ρ] {P : Expr ρ → Prop} (hP : Closed P) : Hereditary P where
  constant := hP.constant
  operand he hx := hP.child he (mem_children_of_mem_operands hx)
  minus := hP.unary.mpr
  arithmetic _ hx hy := hP.binary.mpr ⟨hx, hy⟩
  condition h _ _ ht hf := hP.conditional.mpr ⟨(hP.conditional.mp h).1, ht, hf⟩
  comparison hx hy _ _ ht hf := hP.conditional.mpr ⟨hP.binary.mpr ⟨hx, hy⟩, ht, hf⟩
  again h hf hlength hargs := by
    obtain ⟨hmem, hname, -⟩ := Vocabulary.builtin_functionOf?_eq_some.mp hf
    exact hP.again h ((Vocabulary.lowercase_name hmem).trans hname) hlength hargs
  builtin := hP.builtin

namespace Hereditary

variable {P : Expr ρ → Prop} {x y : Expr ρ} [Scalar ρ]

/-- Calls of one argument keep the property. -/
theorem call_one (hP : Hereditary P) {name : String}
    (h : (name, 1) ∈ Vocabulary.realSignatures) (hx : P x) : P (.call name [x]) :=
  hP.builtin h (List.forall_mem_singleton.mpr hx)

/-- Calls of two arguments keep it. -/
theorem call_two (hP : Hereditary P) {name : String}
    (h : (name, 2) ∈ Vocabulary.realSignatures) (hx : P x) (hy : P y) : P (.call name [x, y]) :=
  hP.builtin h (List.forall_mem_cons.mpr ⟨hx, List.forall_mem_singleton.mpr hy⟩)

/-! ### Folding -/

/-- Zero has it. -/
theorem zero (hP : Hereditary P) : P Expr.zero := hP.constant 0

/-- One has it. -/
theorem one (hP : Hereditary P) : P Expr.one := hP.constant 1

/-- Changing the sign keeps it, folded or not. -/
theorem neg (hP : Hereditary P) (hx : P x) : P (-x) := by
  change P (Expr.neg x)
  unfold Expr.neg
  split
  · exact hP.constant _
  · exact hP.operand hx List.mem_cons_self
  · exact hP.minus hx

/-- A sum keeps it. -/
theorem add (hP : Hereditary P) (hx : P x) (hy : P y) : P (x + y) := by
  have hplain : P (.binary .add x y) := hP.arithmetic rfl hx hy
  change P (Expr.add x y)
  unfold Expr.add
  split
  · exact hP.constant _
  · split
    · exact hy
    · exact hplain
  · split
    · exact hx
    · exact hplain
  · exact hplain

/-- A difference keeps it. -/
theorem sub (hP : Hereditary P) (hx : P x) (hy : P y) : P (x - y) := by
  have hplain : P (.binary .sub x y) := hP.arithmetic rfl hx hy
  change P (Expr.sub x y)
  unfold Expr.sub
  split
  · exact hP.constant _
  · split
    · exact hx
    · exact hplain
  · split
    · exact hP.neg hy
    · exact hplain
  · exact hplain

/-- The product of a constant and a tree. -/
theorem scale (hP : Hereditary P) (hx : P x) {whole : Expr ρ} (hwhole : P whole) (c : ρ) :
    P (Expr.scale c x whole) := by
  unfold Expr.scale
  split_ifs
  · exact hP.zero
  · exact hx
  · exact hP.neg hx
  · exact hwhole

/-- A product keeps it. -/
theorem mul (hP : Hereditary P) (hx : P x) (hy : P y) : P (x * y) := by
  have hplain : P (.binary .mul x y) := hP.arithmetic rfl hx hy
  change P (Expr.mul x y)
  unfold Expr.mul
  split
  · exact hP.constant _
  · exact hP.scale hy hplain _
  · exact hP.scale hx hplain _
  · exact hplain

/-- A quotient keeps it. -/
theorem div (hP : Hereditary P) (hx : P x) (hy : P y) : P (x / y) := by
  have hplain : P (.binary .div x y) := hP.arithmetic rfl hx hy
  change P (Expr.div x y)
  unfold Expr.div
  split
  · split_ifs
    · exact hP.constant _
    · exact hP.zero
    · exact hplain
  · split
    · exact hP.zero
    · exact hplain
  · split
    · exact hx
    · exact hplain
  · exact hplain

/-- A power keeps it. -/
theorem pow (hP : Hereditary P) (hx : P x) (hy : P y) : P (x.pow y) := by
  have hplain : P (.binary .pow x y) := hP.arithmetic rfl hx hy
  unfold Expr.pow
  split
  · split_ifs
    · exact hx
    · exact hP.one
    · split
      · exact hP.constant _
      · exact hplain
  · exact hplain

end Hereditary
end Expr

/-! ### Maps -/

open CircuitExpr.Expr (Hereditary)

variable [Scalar ρ]

namespace Derivatives

/-- The derivatives by all variables have a property. -/
def Each (P : Expr ρ → Prop) (m : Derivatives ρ) : Prop := ∀ v, P (orZero (m.get? v))

namespace Each

variable {P : Expr ρ → Prop} {m n : Derivatives ρ}

/-- What is found in the map has the property. -/
theorem get? (hm : Each P m) {v : Variable} {d : Expr ρ} (hd : m.get? v = some d) : P d := by
  have h := hm v
  rwa [hd] at h

/-- Nothing is in the empty map. -/
theorem empty (hP : Hereditary P) : Each P .empty := fun _ => hP.zero

/-- The derivative of a variable by itself has it. -/
theorem single (hP : Hereditary P) (v : Variable) : Each P (.single v Expr.one) := by
  intro v'
  rw [OrderedMap.get?_single]
  split
  · exact hP.one
  · exact hP.zero

/-- A function that keeps the property may be applied to all derivatives. -/
theorem map (hP : Hereditary P) (hm : Each P m) {f : Expr ρ → Expr ρ} (hf : ∀ d, P d → P (f d)) :
    Each P (m.map f) := by
  intro v
  rw [OrderedMap.get?_map]
  cases h : m.get? v with
  | none => exact hP.zero
  | some d => exact hf d (hm.get? h)

/-- Derivatives may be added variable by variable. -/
theorem plus (hP : Hereditary P) (hm : Each P m) (hn : Each P n) : Each P (m.plus n) := by
  intro v
  rw [get?_plus]
  cases h : m.get? v with
  | none =>
    rw [Option.merge_none_left]
    exact hn v
  | some d =>
    cases h' : n.get? v with
    | none => exact hm.get? h
    | some d' => exact hP.add (hm.get? h) (hn.get? h')

/-- Any number of derivatives may be added. -/
theorem sum (hP : Hereditary P) {maps : List (Derivatives ρ)} (h : ∀ m ∈ maps, Each P m) :
    Each P (.sum maps) := by
  have hfoldl {acc : Derivatives ρ} (hacc : Each P acc) :
      Each P (maps.foldl Derivatives.plus acc) := by
    induction maps generalizing acc with
    | nil => exact hacc
    | cons m maps ih =>
      exact ih (fun n hn => h n (List.mem_cons_of_mem m hn))
        (hacc.plus hP (h m List.mem_cons_self))
  exact hfoldl (empty hP)

/-- Two derivatives may be added. -/
theorem sum_two (hP : Hereditary P) (hm : Each P m) (hn : Each P n) : Each P (.sum [m, n]) :=
  sum hP (List.forall_mem_cons.mpr ⟨hm, List.forall_mem_singleton.mpr hn⟩)

/-- The chain rule keeps the property if the partial derivatives have it. -/
theorem chain (hP : Hereditary P) {terms : List (Option (Expr ρ) × Derivatives ρ)}
    (h : ∀ t ∈ terms, (∀ d, t.1 = some d → P d) ∧ Each P t.2) : Each P (.chain terms) := by
  refine sum hP fun m hm => ?_
  obtain ⟨t, ht, hm⟩ := List.mem_filterMap.mp hm
  obtain ⟨partialBy, hpartial, rfl⟩ := Option.map_eq_some_iff.mp hm
  exact (h t ht).2.map hP fun d hd => hP.mul ((h t ht).1 partialBy hpartial) hd

/-- A map made variable by variable has it if all that is made has it. -/
theorem ofKeys (hP : Hereditary P) {f : Variable → Option (Expr ρ)} {vs : List Variable}
    (hf : ∀ v d, f v = some d → P d) : Each P (.ofKeys f vs) := by
  intro v
  rw [OrderedMap.get?_ofKeys]
  split
  · cases h : f v with
    | none => exact hP.zero
    | some d => exact hf v d h
  · exact hP.zero

end Each
end Derivatives

/-! ### Rules -/

namespace Rule

variable {P : Expr ρ → Prop}

omit [Scalar ρ] in
/-- The rule makes trees with a property of arguments and derivatives that have it. -/
def Keeps (P : Expr ρ → Prop) : Rule ρ → Prop
  | .constant => True
  | .partials f => ∀ args, (∀ x ∈ args, P x) → ∀ d, some d ∈ f args → P d
  | .direct f => ∀ args ds, (∀ x ∈ args, P x) → (∀ d, some d ∈ ds → P d) →
    ∀ d, f args ds = some d → P d

omit [Scalar ρ] in
/-- A chain rule with one factor keeps the property if the factor has it. -/
theorem keeps_chain {f : Expr ρ → Expr ρ} (hf : ∀ u, P u → P (f u)) : (Rule.chain f).Keeps P := by
  intro args hargs d hd
  match args with
  | [] => cases hd
  | u :: _ =>
    obtain rfl := Option.some.inj (List.mem_singleton.mp hd)
    exact hf u (hargs u List.mem_cons_self)

omit [Scalar ρ] in
/-- A rule of two partial derivatives keeps it if both have it. -/
theorem keeps_two {f : Expr ρ → Expr ρ → List (Option (Expr ρ))}
    (hf : ∀ x y, P x → P y → ∀ d, some d ∈ f x y → P d) :
    (Vocabulary.partialsOfTwo f).Keeps P := by
  intro args hargs d hd
  match args with
  | [] => cases hd
  | [_] => cases hd
  | x :: y :: _ => exact hf x y (hargs x (by simp)) (hargs y (by simp)) d hd

end Rule

/-- A call by a rule that keeps a property has derivatives with the property. -/
theorem Derivatives.Each.ofCall {P : Expr ρ → Prop} (hP : Hereditary P) {rule : Option (Rule ρ)}
    (hrule : ∀ r, rule = some r → r.Keeps P) {args : List (Expr ρ)} (hargs : ∀ x ∈ args, P x)
    {ds : List (Derivatives ρ)} (hds : ∀ d ∈ ds, Each P d) {m : Derivatives ρ}
    (h : Derivative.ofCall rule args ds = some m) : Each P m := by
  unfold Derivative.ofCall at h
  split at h
  · obtain rfl := Option.some.inj h
    exact empty hP
  · rename_i f
    obtain rfl := Option.some.inj h
    refine chain hP fun t ht => ⟨fun d hd => ?_, hds _ (List.of_mem_zip ht).2⟩
    exact hrule _ rfl args hargs d (hd ▸ (List.of_mem_zip ht).1)
  · rename_i f
    obtain rfl := Option.some.inj h
    refine ofKeys hP fun v d hd => hrule _ rfl args _ hargs (fun e he => ?_) d hd
    obtain ⟨n, hn, he⟩ := List.mem_map.mp he
    exact (hds n hn).get? he
  · split at h
    · obtain rfl := Option.some.inj h
      exact empty hP
    · cases h

/-! ### The built-in rules -/

namespace Expr.Hereditary

variable {P : Expr ρ → Prop}

/-- The partial derivatives of a power have the property of base and exponent. -/
theorem powerPartials (hP : Hereditary P) {f g : Expr ρ} (hf : P f) (hg : P g) (d : Expr ρ)
    (hd : some d ∈ Vocabulary.powerPartials f g) : P d := by
  obtain hd | hd := List.mem_cons.mp hd
  · obtain rfl := Option.some.inj hd
    unfold Vocabulary.powerByBase
    split
    · split
      · exact hP.mul (hP.constant _) (hP.pow hf (hP.constant _))
      · exact hP.mul (hP.constant _) (hP.div (hP.pow hf hg) hf)
    · exact hP.mul hg (hP.pow hf (hP.sub hg hP.one))
  · have hd := List.mem_singleton.mp hd
    unfold Vocabulary.powerByExponent at hd
    split at hd
    · cases hd
    · obtain rfl := Option.some.inj hd
      exact hP.mul (hP.call_one (by decide) hf) (hP.pow hf hg)

/-- The partial derivatives of a power of the absolute value have the property of base and
exponent. -/
theorem signedPowerPartials (hP : Hereditary P) {f g : Expr ρ} (hf : P f) (hg : P g) (d : Expr ρ)
    (hd : some d ∈ Vocabulary.signedPowerPartials f g) : P d := by
  have hmagnitude : P (.call "abs" [f]) := hP.call_one (by decide) hf
  obtain hd | hd := List.mem_cons.mp hd
  · obtain rfl := Option.some.inj hd
    exact hP.mul hg (hP.pow hmagnitude (hP.sub hg hP.one))
  · have hd := List.mem_singleton.mp hd
    split at hd
    · cases hd
    · obtain rfl := Option.some.inj hd
      exact hP.mul (hP.call_one (by decide) hmagnitude) (hP.call_two (by decide) hf hg)

/-- The partial derivatives of a distance keep the property. -/
theorem hypot (hP : Hereditary P) : (Rule.partials Vocabulary.hypotPartials).Keeps P := by
  intro args hargs d hd
  match args with
  | [] => cases hd
  | [_] => cases hd
  | x :: y :: _ =>
    have hx := hargs x (by simp)
    have hy := hargs y (by simp)
    have hlength : P (.call "hypot" [x, y]) := hP.call_two (by decide) hx hy
    simp only [Vocabulary.hypotPartials, List.mem_cons, Option.some.injEq, List.not_mem_nil,
      or_false] at hd
    obtain rfl | rfl := hd
    · exact hP.div hx hlength
    · exact hP.div hy hlength

/-- The partial derivatives of an angle keep the property. -/
theorem atan2 (hP : Hereditary P) : (Rule.partials Vocabulary.atan2Partials).Keeps P := by
  intro args hargs d hd
  match args with
  | [] => cases hd
  | [_] => cases hd
  | y :: x :: _ =>
    have hy := hargs y (by simp)
    have hx := hargs x (by simp)
    have htwo : P (.constant Scalar.two) := hP.constant _
    have hsquares := hP.add (hP.pow hx htwo) (hP.pow hy htwo)
    simp only [Vocabulary.atan2Partials, List.mem_cons, Option.some.injEq, List.not_mem_nil,
      or_false] at hd
    obtain rfl | rfl := hd
    · exact hP.div hx hsquares
    · exact hP.div (hP.neg hy) hsquares

/-- A derivative that may be missing has the property, if all that are there have it. -/
theorem orZero (hP : Hereditary P) {ds : List (Option (Expr ρ))} (hds : ∀ d, some d ∈ ds → P d)
    {d : Option (Expr ρ)} (hd : d ∈ ds) : P (Vocabulary.orZero d) := by
  cases d with
  | none => exact hP.zero
  | some d => exact hds d hd

/-- Choosing one of two derivatives by a comparison keeps the property. -/
theorem selectBy (hP : Hereditary P) (op : BinaryOp) :
    (Rule.direct (Vocabulary.selectBy op)).Keeps P := by
  intro args ds hargs hds d hd
  unfold Vocabulary.selectBy at hd
  split at hd
  · obtain rfl := Option.some.inj hd
    exact (hP.comparison (hargs _ (by simp)) (hargs _ (by simp))).select
      (hP.orZero hds (by simp)) (hP.orZero hds (by simp))
  · cases hd

/-- Choosing among the derivatives of a limited value keeps the property. -/
theorem limit (hP : Hereditary P) : (Rule.direct Vocabulary.limitDerivative).Keeps P := by
  intro args ds hargs hds d hd
  unfold Vocabulary.limitDerivative at hd
  split at hd
  · rename_i x lo hi _ dx dlo dhi _
    obtain rfl := Option.some.inj hd
    have hx := hargs x (by simp)
    have hlo := hargs lo (by simp)
    have hhi := hargs hi (by simp)
    have hmax : P (.call "max" [x, lo]) := hP.call_two (by decide) hx hlo
    have hlower : Guards P (.binary .gt x lo) := hP.comparison hx hlo
    have hinner := hlower.select (hP.orZero hds (d := dx) (by simp)) (hP.orZero hds (d := dlo) (by simp))
    exact (hP.comparison hmax hhi).select hinner (hP.orZero hds (by simp))
  · cases hd

omit [Scalar ρ] in
/-- The derivative of a linear operator in time is a call of the operator. -/
theorem linear {name : String} (hown : ∀ d, P d → P (.call name [d])) :
    (Rule.direct (Vocabulary.linearDerivative name)).Keeps P := by
  intro args ds hargs hds d hd
  unfold Vocabulary.linearDerivative at hd
  split at hd
  · rename_i d' _
    obtain rfl := Option.some.inj hd
    exact hown d' (hds d' (by simp))
  · cases hd

/-- **The rule of a built-in function that may be called keeps the property.** -/
theorem rule_keeps (hP : Hereditary P) {f : NamedFunction ρ} (hf : f ∈ Vocabulary.builtinFunctions)
    (hown : ∀ args, args.length = f.arity → (∀ x ∈ args, P x) → P (.call f.name args))
    {rule : Rule ρ} (hrule : f.derivative = some rule) : rule.Keeps P := by
  have hone : P (Expr.one : Expr ρ) := hP.one
  have hconstant (c : ρ) : P (.constant c) := hP.constant c
  have hsquare {u : Expr ρ} (hu : P u) : P (Vocabulary.square u) := hP.pow hu (hconstant _)
  have hroot {u : Expr ρ} (hu : P u) : P (Vocabulary.root u) := hP.call_one (by decide) hu
  revert rule f
  simp only [Vocabulary.builtinFunctions, Vocabulary.roundings, List.cons_append,
    List.nil_append, List.forall_mem_cons, List.not_mem_nil, IsEmpty.forall_iff, implies_true,
    and_true]
  and_intros
  all_goals rintro hown _ ⟨⟩
  · exact Rule.keeps_chain fun u hu => hP.call_one (by decide) hu
  · exact Rule.keeps_chain fun u hu => hP.div hone hu
  · exact Rule.keeps_chain fun u hu => hP.div hone hu
  · exact Rule.keeps_chain fun u hu => hP.div hone (hP.mul hu (hconstant _))
  · exact Rule.keeps_chain fun u hu => hP.div (hconstant _) (hroot hu)
  · exact hP.hypot
  · exact Rule.keeps_two fun x y hx hy => hP.powerPartials hx hy
  · exact Rule.keeps_two fun x y hx hy => hP.signedPowerPartials hx hy
  · exact Rule.keeps_chain fun u hu => hP.call_one (by decide) hu
  · exact Rule.keeps_chain fun u hu => hP.neg (hP.call_one (by decide) hu)
  · exact Rule.keeps_chain fun u hu => hP.div hone (hsquare (hP.call_one (by decide) hu))
  · exact Rule.keeps_chain fun u hu => hP.div hone (hroot (hP.sub hone (hsquare hu)))
  · exact Rule.keeps_chain fun u hu => hP.div (hconstant _) (hroot (hP.sub hone (hsquare hu)))
  · exact Rule.keeps_chain fun u hu => hP.div hone (hP.add hone (hsquare hu))
  · exact Rule.keeps_chain fun u hu => hP.call_one (by decide) hu
  · exact Rule.keeps_chain fun u hu => hP.call_one (by decide) hu
  · exact Rule.keeps_chain fun u hu => hP.sub hone (hsquare (hP.call_one (by decide) hu))
  · exact Rule.keeps_chain fun u hu => hP.div hone (hroot (hP.add (hsquare hu) hone))
  · exact Rule.keeps_chain fun u hu => hP.div hone (hroot (hP.sub (hsquare hu) hone))
  · exact Rule.keeps_chain fun u hu => hP.div hone (hP.sub hone (hsquare hu))
  · exact hP.atan2
  · exact Rule.keeps_chain fun u hu => hP.call_one (by decide) hu
  · exact trivial
  · exact trivial
  · exact trivial
  · exact trivial
  · exact trivial
  · exact hP.selectBy .lt
  · exact hP.selectBy .gt
  · exact hP.limit
  · exact linear fun d hd => hown [d] rfl (List.forall_mem_singleton.mpr hd)
  · exact linear fun d hd => hown [d] rfl (List.forall_mem_singleton.mpr hd)

/-! ### A step of differentiation -/

/-- **A step of differentiation keeps a hereditary property.** -/
theorem step (hP : Hereditary P) {wanted : List Variable} {e : Expr ρ} (he : P e)
    {ds : List (Derivatives ρ)} (hds : ∀ d ∈ ds, d.Each P) {m : Derivatives ρ}
    (hm : Derivative.step .builtin wanted e ds = some m) : m.Each P := by
  unfold Derivative.step at hm
  split at hm
  · obtain rfl := Option.some.inj hm
    exact .empty hP
  · obtain rfl := Option.some.inj hm
    split
    · exact .single hP _
    · exact .empty hP
  · obtain rfl := Option.some.inj hm
    exact hds _ (by simp)
  · obtain rfl := Option.some.inj hm
    exact (hds _ (by simp)).map hP fun d hd => hP.neg hd
  · rename_i op f g df dg
    have hdf := hds df (by simp)
    have hdg := hds dg (by simp)
    have hoperands (hop : op.isBoolean = false) : P f ∧ P g := by
      have hmem : (Expr.binary op f g).operands = [f, g] := by simp [operands, hop]
      exact ⟨hP.operand he (hmem ▸ by simp), hP.operand he (hmem ▸ by simp)⟩
    unfold Derivative.ofBinary at hm
    split at hm <;> try cases hm
    all_goals obtain ⟨hf, hg⟩ := hoperands rfl
    · exact hdf.sum_two hP hdg
    · exact hdf.sum_two hP (hdg.map hP fun d hd => hP.neg hd)
    · exact .sum_two hP (hdf.map hP fun d hd => hP.mul hg hd) (hdg.map hP fun d hd => hP.mul hf hd)
    · exact .sum_two hP (hdf.map hP fun d hd => hP.div hd hg)
        (hdg.map hP fun d hd => hP.neg (hP.div (hP.mul hf hd) (hP.mul hg hg)))
    · exact hdf.sum_two hP (hdg.map hP fun d hd =>
        hP.neg (hP.mul (hP.call_one (by decide) (hP.div hf hg)) hd))
    · refine .chain hP fun t ht => ⟨fun d hd => ?_, hds _ (List.of_mem_zip ht).2⟩
      exact hP.powerPartials hf hg d (hd ▸ (List.of_mem_zip ht).1)
  · rename_i name args
    refine .ofCall hP (fun rule hrule => ?_) (fun x hx => hP.operand he hx) hds hm
    obtain ⟨f, hf, hrule⟩ := Option.bind_eq_some_iff.mp hrule
    obtain ⟨hmem, -, harity⟩ := Vocabulary.builtin_functionOf?_eq_some.mp hf
    refine hP.rule_keeps hmem (fun args' hlength hargs' => ?_) hrule
    exact hP.again he hf (hlength.trans harity) hargs'
  · rename_i c t f dt df
    obtain rfl := Option.some.inj hm
    refine .ofKeys hP fun v d hd => ?_
    obtain rfl := Option.some.inj hd
    exact (hP.condition he).select (hds dt (by simp) v) (hds df (by simp) v)
  · cases hm

end Expr.Hereditary

/-! ### The walk -/

namespace Derivative

variable {P : Expr ρ → Prop} {wanted : List Variable}

/-- The parts on the stack have the property, and all derivatives that are known. -/
structure Carries (P : Expr ρ → Prop) (st : State ρ) : Prop where
  /-- The parts on the stack have the parts below that they should have. -/
  faithful : ∀ v ∈ st.pending, v.part.Faithful
  /-- The parts on the stack have the property. -/
  pending : ∀ v ∈ st.pending, P v.part.tree
  /-- The derivatives that are known have it. -/
  known : ∀ s m, st.memo.lookup s = some m → m.Each P

/-- A part with the property has derivatives with it, if all that are known have it. -/
theorem each_compute (hP : Hereditary P) {memo : Memo ρ}
    (hknown : ∀ s m, memo.lookup s = some m → m.Each P) {s : Subtree ρ} (hs : P s.tree)
    {m : Derivatives ρ} (hm : compute .builtin wanted memo s = some m) : m.Each P := by
  obtain ⟨ds, hds, hm⟩ := Option.bind_eq_some_iff.mp hm
  refine hP.step hs (fun d hd => ?_) hm
  obtain ⟨x, -, hx⟩ := exists_left_of_mem (mapM_eq_some_iff.mp hds) hd
  exact hknown x d hx

/-- **Each turn of the walk carries the property on.** -/
theorem Carries.advance (hP : Hereditary P) {st st' : State ρ} (h : Carries P st)
    (hst : advance .builtin wanted st = some st') : Carries P st' := by
  have hoperands (s : Subtree ρ) (hs : s.Faithful ∧ P s.tree) (x : Subtree ρ)
      (hx : x ∈ operands s) : x.Faithful ∧ P x.tree :=
    ⟨faithful_of_mem_operands hs.1 hx, hP.operand hs.2 (tree_mem_operands_of_mem_operands hs.1 hx)⟩
  have hparts := forall_pending_advance hoperands
    (fun v hv => ⟨h.faithful v hv, h.pending v hv⟩) hst
  refine ⟨fun v hv => (hparts v hv).1, fun v hv => (hparts v hv).2, fun t m hm => ?_⟩
  obtain hmemo | ⟨s, rest, hpending, -, hmemo⟩ := memo_advance hst
  · rw [hmemo] at hm
    exact h.known t m hm
  · have hs : P s.tree := h.pending (.leave s) (hpending ▸ List.mem_cons_self)
    rw [hmemo, Memo.lookup_insert] at hm
    split at hm
    · exact each_compute hP h.known hs hm
    · exact h.known t m hm

/-- **The whole walk carries the property on.** -/
theorem Carries.runs (hP : Hereditary P) {st st' : State ρ} (h : Carries P st)
    (hruns : Runs .builtin wanted st st') : Carries P st' := by
  induction hruns with
  | refl => exact h
  | tail _ hlast ih => exact ih.advance hP hlast

end Derivative

namespace Expr

/-- **A tree with a hereditary property has derivatives with it,** whatever the hashes. -/
theorem Hereditary.derive {P : Expr ρ → Prop} (hP : Hereditary P) {mix : Hasher ρ}
    {wanted : List Variable} {e : Expr ρ} (he : P e) {m : Derivatives ρ}
    (hm : e.deriveWith mix .builtin wanted = some m) : m.Each P := by
  rw [deriveWith_eq_ofSubtree] at hm
  have hstart : Derivative.Carries P ⟨[.enter (e.hashed mix)], .empty⟩ := by
    refine ⟨List.forall_mem_singleton.mpr (e.faithful_hashed mix),
      List.forall_mem_singleton.mpr ?_, fun s m hs => ?_⟩
    · change P (e.hashed mix).tree
      rwa [tree_hashed]
    · simp [Derivative.Memo.lookup, Derivative.Memo.find?, Derivative.Memo.bucket,
        Derivative.Memo.empty] at hs
  exact (hstart.runs hP (Derivative.runs_walk _ _)).known _ m hm

/-- A tree with a closed property has derivatives with it. -/
theorem Closed.derive {P : Expr ρ → Prop} (hP : Closed P) {mix : Hasher ρ}
    {wanted : List Variable} {e : Expr ρ} (he : P e) {m : Derivatives ρ}
    (hm : e.deriveWith mix .builtin wanted = some m) : m.Each P :=
  hP.hereditary.derive he hm

end Expr
end CircuitExpr
