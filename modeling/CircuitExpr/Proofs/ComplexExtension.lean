/-
# The complex backend extends the real one

Real numbers are embedded among the complex ones, and in exact arithmetic the operators of
the complex backend do to them what those of the real backend do (`Backend.Embeds`): they
compare real parts, and the imaginary parts are zero; they look at the modulus where a real
divisor is guarded by its magnitude, and these are equal.  For magnitude, sign, rounding and
selection the same is said of the functions (`sharedFunctions`).

So a tree of such operators and functions is *carried* from real to complex values: what is
buildable with one backend is buildable with the other, and its value is embedded
(`complex_extends_real`).  Logarithms, roots and powers with other exponents are not among
these operations: they have values at real numbers that are not real.
-/

import Mathlib
import CircuitExpr.Proofs.EitherBackend
import CircuitExpr.Proofs.RealEmbedding

namespace CircuitExpr

open CircuitExpr.Complex (ofReal)

/-! ### Values carried from one backend to another -/

/-- The operators of a backend do to values under a map what those of another do. -/
structure Backend.Embeds {ρ α β S T : Type} [Scalar ρ] (φ : α → β) (b : Backend ρ S α)
    (b' : Backend ρ T β) : Prop where
  /-- Constants correspond. -/
  ofReal (c : ρ) : b'.ofReal c = φ (b.ofReal c)
  /-- The same values count as true. -/
  isTrue (x : α) : b'.isTrue (φ x) = b.isTrue x
  /-- Values with the other sign correspond. -/
  neg (x : α) : b'.neg (φ x) = φ (b.neg x)
  /-- The results of an operator correspond, powers apart. -/
  combine {op : BinaryOp} (hpow : op ≠ .pow) (x y : α) :
    Evaluator.combine b' op (φ x) (φ y) = φ (Evaluator.combine b op x y)

/-- An embedding takes answers to answers. -/
theorem Backend.Embeds.ofBool {ρ α β S T : Type} [Scalar ρ] {φ : α → β} {b : Backend ρ S α}
    {b' : Backend ρ T β} (h : b.Embeds φ b') (answer : Bool) :
    b'.ofBool answer = φ (b.ofBool answer) :=
  h.ofReal _

/-- At the second point the sources hold what those at the first do, under a map. -/
def Point.Corresponds {S T α β : Type} (φ : α → β) (p : Point S α) (p' : Point T β) : Prop :=
  ∀ v, (p'.source? v).map p'.memory = (p.source? v).map fun i => φ (p.memory i)

namespace Expr

section Carried

variable {ρ α β S T : Type} [Scalar ρ] {φ : α → β} {w : Vocabulary ρ}
  {b : Backend ρ S α} {b' : Backend ρ T β} {p : Point S α} {p' : Point T β}

/-- The tree is buildable in both settings or in neither, and its value in the second is
that in the first under the map. -/
structure Carried (φ : α → β) (s : Setting ρ S α) (p : Point S α) (s' : Setting ρ T β)
    (p' : Point T β) (e : Expr ρ) : Prop where
  /-- What is found in one setting is found in the other. -/
  buildable : Buildable s' p'.source? e ↔ Buildable s p.source? e
  /-- The values correspond. -/
  value : e.valueIn? s' p' = (e.valueIn? s p).map φ

/-- What a carried tree yields in the second setting is what it yields in the first, under
the map. -/
theorem Carried.yields_iff {s : Setting ρ S α} {s' : Setting ρ T β} {e : Expr ρ}
    (h : Carried φ s p s' p' e) {z : β} :
    Yields s' p' e z ↔ ∃ a, Yields s p e a ∧ z = φ a := by
  constructor
  · rintro ⟨hbuildable, hvalue⟩
    rw [h.value, Option.map_eq_some_iff] at hvalue
    obtain ⟨a, ha, rfl⟩ := hvalue
    exact ⟨a, ⟨h.buildable.mp hbuildable, ha⟩, rfl⟩
  · rintro ⟨a, ⟨hbuildable, hvalue⟩, rfl⟩
    exact ⟨h.buildable.mpr hbuildable, by rw [h.value, hvalue, Option.map_some]⟩

variable {x y c t f : Expr ρ} {args : List (Expr ρ)}

/-- A constant has the same value on both sides. -/
theorem carried_constant (h : b.Embeds φ b') (c : ρ) :
    Carried φ ⟨w, b⟩ p ⟨w, b'⟩ p' (.constant c) where
  buildable := iff_of_true (buildable_constant c) (buildable_constant c)
  value := congrArg some (h.ofReal c)

/-- A variable without source is a constant of the vocabulary or nothing. -/
theorem carried_var (h : b.Embeds φ b') (hpoint : p.Corresponds φ p') (v : Variable) :
    Carried φ ⟨w, b⟩ p ⟨w, b'⟩ p' (.var v) := by
  have hv := hpoint v
  cases hsource : p.source? v with
  | some i =>
    rw [hsource, Option.map_some, Option.map_eq_some_iff] at hv
    obtain ⟨j, hj, hmemory⟩ := hv
    constructor
    · simp only [Buildable, Evaluator.translate, hsource, hj, Evaluator.replacement]
      exact iff_of_true ⟨_, rfl⟩ ⟨_, rfl⟩
    · simp only [valueIn?, interpret, interpretVariable, hsource, hj]
      exact congrArg some hmemory
  | none =>
    rw [hsource, Option.map_none, Option.map_eq_none_iff] at hv
    constructor
    · simp only [Buildable, Evaluator.translate, hsource, hv, Evaluator.replacement,
        Evaluator.fallback]
      cases v.kind <;> cases w.constant? v.name <;> simp
    · simp only [valueIn?, interpret, interpretVariable, hsource, hv]
      cases v.kind with
      | named =>
        rw [Evaluation.value?_ofOption, Evaluation.value?_ofOption]
        cases w.constant? v.name with
        | none => rfl
        | some c => exact congrArg some (h.ofReal c)
      | _ => rfl

/-- An operator before an operand keeps the values on both sides. -/
theorem carried_unary (h : b.Embeds φ b') (op : UnaryOp)
    (hx : Carried φ ⟨w, b⟩ p ⟨w, b'⟩ p' x) :
    Carried φ ⟨w, b⟩ p ⟨w, b'⟩ p' (.unary op x) where
  buildable := by rw [buildable_unary, buildable_unary, hx.buildable]
  value := by
    cases op with
    | plus => rw [valueIn?_plus, valueIn?_plus, hx.value]
    | minus => simp [hx.value, Function.comp_def, h.neg]
    | not => simp [hx.value, Function.comp_def, h.isTrue, h.ofBool]

/-- An operator between trees, a power apart. -/
theorem carried_binary (h : b.Embeds φ b') {op : BinaryOp} (hpow : op ≠ .pow)
    (hx : Carried φ ⟨w, b⟩ p ⟨w, b'⟩ p' x) (hy : Carried φ ⟨w, b⟩ p ⟨w, b'⟩ p' y) :
    Carried φ ⟨w, b⟩ p ⟨w, b'⟩ p' (.binary op x y) where
  buildable := by rw [buildable_binary, buildable_binary, hx.buildable, hy.buildable]
  value := by
    by_cases hand : op = .and
    · subst hand
      rw [valueIn?_and, valueIn?_and, hx.value, hy.value]
      cases x.valueIn? ⟨w, b⟩ p with
      | none => rfl
      | some a => cases ha : b.isTrue a <;> simp [h.isTrue, h.ofBool, ha, Function.comp_def]
    by_cases hor : op = .or
    · subst hor
      rw [valueIn?_or, valueIn?_or, hx.value, hy.value]
      cases x.valueIn? ⟨w, b⟩ p with
      | none => rfl
      | some a => cases ha : b.isTrue a <;> simp [h.isTrue, h.ofBool, ha, Function.comp_def]
    rw [valueIn?_binary hand hor hpow, valueIn?_binary hand hor hpow, hx.value, hy.value]
    cases x.valueIn? ⟨w, b⟩ p with
    | none => rfl
    | some a => simp [Function.comp_def, h.combine hpow]

/-- A power with a constant exponent, of a base for which the powers correspond. -/
theorem carried_pow (h : b.Embeds φ b') {c : ρ} (hx : Carried φ ⟨w, b⟩ p ⟨w, b'⟩ p' x)
    (hpow : ∀ a, x.valueIn? ⟨w, b⟩ p = some a →
      b'.pow (φ a) (φ (b.ofReal c)) = φ (b.pow a (b.ofReal c))) :
    Carried φ ⟨w, b⟩ p ⟨w, b'⟩ p' (.binary .pow x (.constant c)) := by
  have hconstant : Carried φ ⟨w, b⟩ p ⟨w, b'⟩ p' (.constant c) := carried_constant h c
  constructor
  · rw [buildable_binary, buildable_binary, hx.buildable]
    exact and_congr_right fun _ => hconstant.buildable
  · rw [valueIn?_pow, valueIn?_pow, hx.value, hconstant.value]
    split
    · exact congrArg some (h.ofReal 1)
    · cases ha : x.valueIn? ⟨w, b⟩ p with
      | none => rfl
      | some a => exact congrArg some (hpow a ha)

/-- A choice does, with the condition decided alike. -/
theorem carried_conditional (h : b.Embeds φ b') (hc : Carried φ ⟨w, b⟩ p ⟨w, b'⟩ p' c)
    (ht : Carried φ ⟨w, b⟩ p ⟨w, b'⟩ p' t) (hf : Carried φ ⟨w, b⟩ p ⟨w, b'⟩ p' f) :
    Carried φ ⟨w, b⟩ p ⟨w, b'⟩ p' (.conditional c t f) where
  buildable := by
    rw [buildable_conditional, buildable_conditional, hc.buildable, ht.buildable, hf.buildable]
  value := by
    rw [valueIn?_conditional, valueIn?_conditional, hc.value, ht.value, hf.value]
    cases c.valueIn? ⟨w, b⟩ p with
    | none => rfl
    | some a => cases ha : b.isTrue a <;> simp [h.isTrue, ha]

/-- The values of carried arguments correspond one by one. -/
theorem mapM_valueIn?_of_carried {s : Setting ρ S α} {s' : Setting ρ T β}
    (hargs : ∀ x ∈ args, Carried φ s p s' p' x) :
    args.mapM (valueIn? s' p') = (args.mapM (valueIn? s p)).map (List.map φ) := by
  induction args with
  | nil => rfl
  | cons x args ih =>
    rw [List.mapM_cons, List.mapM_cons, (hargs x List.mem_cons_self).value,
      ih fun y hy => hargs y (List.mem_cons_of_mem x hy)]
    cases x.valueIn? s p with
    | none => rfl
    | some a => cases args.mapM (valueIn? s p) <;> rfl

/-- A call of a function of which the values correspond. -/
theorem carried_call {name : String} {f : NamedFunction ρ} {g : Implementation ρ α}
    {g' : Implementation ρ β} (hf : w.functionOf? name args.length = some f)
    (hg : b.implementation f = some (.plain g)) (hg' : b'.implementation f = some (.plain g'))
    (hvalues : ∀ values, g' b'.fudge (values.map φ) = (g b.fudge values).map φ)
    (hargs : ∀ x ∈ args, Carried φ ⟨w, b⟩ p ⟨w, b'⟩ p' x) :
    Carried φ ⟨w, b⟩ p ⟨w, b'⟩ p' (.call name args) where
  buildable := by
    rw [buildable_call, buildable_call]
    exact and_congr
      (iff_of_true ⟨f, hf, Option.isSome_of_eq_some hg'⟩ ⟨f, hf, Option.isSome_of_eq_some hg⟩)
      (forall₂_congr fun x hx => (hargs x hx).buildable)
  value := by
    rw [valueIn?_call hf hg', valueIn?_call hf hg, mapM_valueIn?_of_carried hargs]
    cases args.mapM (valueIn? ⟨w, b⟩ p) with
    | none => rfl
    | some values => exact hvalues values

end Carried

end Expr

/-! ### Real numbers in both backends -/

/-- **The operators of the complex backend do to real numbers what those of the real one
do,** powers apart. -/
theorem Backend.real_embeds {S T : Type} (fudge : ℝ) (laplace : Option T) :
    (Backend.real fudge : Backend ℝ S ℝ).Embeds Complex.ofReal (Backend.complex fudge laplace) where
  ofReal _ := rfl
  isTrue _ := rfl
  neg x := (Complex.ofReal_neg x).symm
  combine {op} hpow x y := by
    have hcompare (op : BinaryOp) :
        (complex fudge laplace).ofBool
            (compareComplex op (Complex.ofReal x) (Complex.ofReal y)) =
          Complex.ofReal ((real fudge : Backend ℝ S ℝ).ofBool (compareReal op x y)) :=
      congrArg (complex fudge laplace).ofBool (compareComplex_ofReal op x y)
    cases op with
    | add => exact (Complex.ofReal_add x y).symm
    | sub => exact (Complex.ofReal_sub x y).symm
    | mul => exact (Complex.ofReal_mul x y).symm
    | div =>
      change Complex.ofReal x / guardComplex fudge (Complex.ofReal y) =
        Complex.ofReal (x / guardReal fudge y)
      rw [guardComplex_ofReal, Complex.ofReal_div]
    | mod => exact (Complex.ofReal_mod x y).symm
    | pow => exact absurd rfl hpow
    | and | or | xor => rfl
    | eq => exact hcompare .eq
    | ne => exact hcompare .ne
    | lt => exact hcompare .lt
    | le => exact hcompare .le
    | gt => exact hcompare .gt
    | ge => exact hcompare .ge

/-- The values of a function on real numbers are those of its complex meaning. -/
def NamedFunction.StaysReal (f : NamedFunction ℝ) : Prop :=
  ∃ g g', f.real = some g ∧ f.complex = some g' ∧
    ∀ fudge values, g' fudge (values.map ofReal) = (g fudge values).map ofReal

namespace NamedFunction

/-- A function of one number stays real if its complex form agrees with it on real numbers. -/
theorem staysReal_one {name : String} {f : ℝ → ℝ} {f' : Complex ℝ → Complex ℝ}
    {rule : Option (Rule ℝ)} (h : ∀ x, f' (ofReal x) = ofReal (f x)) :
    StaysReal ⟨name, 1, some (.unary f), some (.unary f'), rule⟩ := by
  refine ⟨_, _, rfl, rfl, fun fudge values => ?_⟩
  match values with
  | [] => rfl
  | x :: _ => exact congrArg some (h x)

/-- A function of two numbers stays real if its complex form agrees with it on real numbers. -/
theorem staysReal_two {name : String} {f : ℝ → ℝ → ℝ} {f' : Complex ℝ → Complex ℝ → Complex ℝ}
    {rule : Option (Rule ℝ)} (h : ∀ x y, f' (ofReal x) (ofReal y) = ofReal (f x y)) :
    StaysReal ⟨name, 2, some (.binary f), some (.binary f'), rule⟩ := by
  refine ⟨_, _, rfl, rfl, fun fudge values => ?_⟩
  match values with
  | [] | [_] => rfl
  | x :: y :: _ => exact congrArg some (h x y)

/-- A function of three numbers stays real if its complex form agrees with it on real numbers. -/
theorem staysReal_three {name : String} {f : ℝ → ℝ → ℝ → ℝ}
    {f' : Complex ℝ → Complex ℝ → Complex ℝ → Complex ℝ} {rule : Option (Rule ℝ)}
    (h : ∀ x y z, f' (ofReal x) (ofReal y) (ofReal z) = ofReal (f x y z)) :
    StaysReal ⟨name, 3, some (.ternary f), some (.ternary f'), rule⟩ := by
  refine ⟨_, _, rfl, rfl, fun fudge values => ?_⟩
  match values with
  | [] | [_] | [_, _] => rfl
  | x :: y :: z :: _ => exact congrArg some (h x y z)

end NamedFunction

namespace Vocabulary

section Shared

variable {ρ S : Type} [Scalar ρ]

/-- Magnitude, sign, rounding and selection. -/
def sharedFunctions : List (NamedFunction ρ) := abs :: roundings ++ [min, max, limit]

/-- The names of these functions, and how many arguments they take. -/
def sharedSignatures : List (String × ℕ) :=
  [("abs", 1), ("sgn", 1), ("floor", 1), ("ceil", 1), ("round", 1), ("trunc", 1), ("min", 2),
    ("max", 2), ("limit", 3)]

/-- The shared signatures are those of the shared functions. -/
theorem sharedSignatures_eq : sharedSignatures =
    (sharedFunctions : List (NamedFunction ρ)).map fun f => (f.name, f.arity) := rfl

/-- All shared functions are built in. -/
theorem sharedFunctions_subset : (sharedFunctions : List (NamedFunction ρ)) ⊆ builtinFunctions := by
  intro f hf
  obtain rfl | hf := List.mem_cons.mp hf
  · simp [builtinFunctions]
  obtain hrounding | hselection := List.mem_append.mp hf
  · exact List.mem_append_left _ (List.mem_append_right _ hrounding)
  · refine List.mem_append_right _ (List.mem_append_left [_, _] hselection)

/-- None of these functions has another meaning where there is a source of the frequency. -/
theorem complex_implementation_of_shared {f : NamedFunction ρ} (hf : f ∈ sharedFunctions)
    (fudge : ρ) (laplace : Option S) :
    (Backend.complex fudge laplace).implementation f = f.complex.map .plain := by
  have hnames : ∀ name ∈ (sharedFunctions : List (NamedFunction ρ)).map NamedFunction.name,
      name ∉ ["ddt", "idt"] := by
    change ∀ name ∈ sharedSignatures.map Prod.fst, name ∉ ["ddt", "idt"]
    decide
  exact Backend.complex_implementation (Backend.not_isTimeOperator (sharedFunctions_subset hf)
    (hnames f.name (List.mem_map_of_mem hf))) fudge laplace

end Shared

/-- Of two real numbers, the smaller one is the same on both sides. -/
theorem minComplex_ofReal (x y : ℝ) :
    minComplex (ofReal x) (ofReal y) = ofReal (minReal x y) :=
  (apply_ite ofReal _ x y).symm

/-- Of two real numbers, the larger one is the same on both sides. -/
theorem maxComplex_ofReal (x y : ℝ) :
    maxComplex (ofReal x) (ofReal y) = ofReal (maxReal x y) :=
  (apply_ite ofReal _ x y).symm

/-- **Magnitude, sign, rounding and selection take real numbers to real numbers.** -/
theorem staysReal_of_mem_sharedFunctions {f : NamedFunction ℝ} (hf : f ∈ sharedFunctions) :
    f.StaysReal := by
  have hrounding : ∀ f ∈ (roundings : List (NamedFunction ℝ)), f.StaysReal := by
    simp only [roundings, List.forall_mem_cons]
    and_intros
    all_goals first
      | exact NamedFunction.staysReal_one fun _ => rfl
      | exact List.forall_mem_nil _
  obtain rfl | hf := List.mem_cons.mp hf
  · exact NamedFunction.staysReal_one fun x => congrArg ofReal (Complex.norm_ofReal x)
  obtain hf | hf := List.mem_append.mp hf
  · exact hrounding f hf
  simp only [List.mem_cons, List.not_mem_nil, or_false] at hf
  obtain rfl | rfl | rfl := hf
  · exact NamedFunction.staysReal_two minComplex_ofReal
  · exact NamedFunction.staysReal_two maxComplex_ofReal
  · refine NamedFunction.staysReal_three fun x lo hi => ?_
    rw [maxComplex_ofReal, minComplex_ofReal]

end Vocabulary

/-! ### Trees of real operations -/

namespace Expr

variable {S T : Type} {fudge : ℝ} {laplace : Option T} {p : Point S ℝ}
  {p' : Point T (Complex ℝ)} {e : Expr ℝ}

/-- The trees of constants, variables, all operators but powers, powers with a constant
integer exponent of 32 bits, choices and the functions for magnitude, sign, rounding and
selection.

The exponent `-2 ^ 31` is of a magnitude that no integer exponent has, so its powers go through
logarithms; among them there is none of zero, unless a guard moves it. -/
inductive StaysReal (fudge : ℝ) (p : Point S ℝ) : Expr ℝ → Prop where
  /-- A constant. -/
  | constant (c : ℝ) : StaysReal fudge p (.constant c)
  /-- A variable. -/
  | var (v : Variable) : StaysReal fudge p (.var v)
  /-- An operator before an operand. -/
  | unary (op : UnaryOp) {x : Expr ℝ} : StaysReal fudge p x → StaysReal fudge p (.unary op x)
  /-- An operator between operands, a power apart. -/
  | binary {op : BinaryOp} {x y : Expr ℝ} : op ≠ .pow → StaysReal fudge p x →
    StaysReal fudge p y → StaysReal fudge p (.binary op x y)
  /-- A power with a constant integer exponent. -/
  | pow {x : Expr ℝ} (n : ℤ) : StaysReal fudge p x → -2 ^ 31 ≤ n → n < 2 ^ 31 →
    (n = -2 ^ 31 → 0 < fudge ∨ x.valueIn? ⟨.builtin, .real fudge⟩ p ≠ some 0) →
    StaysReal fudge p (.binary .pow x (.constant n))
  /-- A choice. -/
  | conditional {c t f : Expr ℝ} : StaysReal fudge p c → StaysReal fudge p t →
    StaysReal fudge p f → StaysReal fudge p (.conditional c t f)
  /-- A call. -/
  | call {name : String} {args : List (Expr ℝ)} :
    (Text.lowercase name, args.length) ∈ Vocabulary.sharedSignatures →
    (∀ x ∈ args, StaysReal fudge p x) → StaysReal fudge p (.call name args)

/-- The function of a call. -/
theorem exists_sharedFunction {name : String} {arity : ℕ}
    (h : (Text.lowercase name, arity) ∈ Vocabulary.sharedSignatures) :
    ∃ f ∈ (Vocabulary.sharedFunctions : List (NamedFunction ℝ)),
      Vocabulary.builtin.functionOf? name arity = some f := by
  rw [Vocabulary.sharedSignatures_eq (ρ := ℝ)] at h
  obtain ⟨f, hf, hsignature⟩ := List.mem_map.mp h
  obtain ⟨hname, harity⟩ := Prod.mk.inj hsignature
  exact ⟨f, hf, Vocabulary.builtin_functionOf?_eq_some.mpr
    ⟨Vocabulary.sharedFunctions_subset hf, hname, harity⟩⟩

/-- **A tree of real operations is carried from real to complex values.** -/
theorem StaysReal.carried (he : e.StaysReal fudge p) (hpoint : p.Corresponds ofReal p') :
    Carried ofReal ⟨.builtin, .real fudge⟩ p ⟨.builtin, .complex fudge laplace⟩ p' e := by
  have hembeds := Backend.real_embeds (S := S) fudge laplace
  induction he with
  | constant c => exact carried_constant hembeds c
  | var v => exact carried_var hembeds hpoint v
  | unary op _ ih => exact carried_unary hembeds op ih
  | binary hpow _ _ ihx ihy => exact carried_binary hembeds hpow ihx ihy
  | pow n _ hlow hhigh hbase ih =>
    refine carried_pow hembeds ih fun a ha => ?_
    by_cases hn : n = -2 ^ 31
    · have hguard : 0 < fudge ∨ a ≠ 0 := by
        rw [ha, ne_eq, Option.some_inj] at hbase
        exact hbase hn
      rw [show n = 2 * (-2 ^ 30) by omega]
      exact complexPow_ofReal_even hguard (by decide)
    · exact complexPow_ofReal (integerExponent?_intCast (by omega))
  | conditional _ _ _ ihc iht ihf => exact carried_conditional hembeds ihc iht ihf
  | call hname _ ih =>
    obtain ⟨f, hf, hfind⟩ := exists_sharedFunction hname
    obtain ⟨g, g', hg, hg', hvalues⟩ := Vocabulary.staysReal_of_mem_sharedFunctions hf
    have hcomplex : (Backend.complex fudge laplace).implementation f = some (.plain g') := by
      rw [Vocabulary.complex_implementation_of_shared hf, hg', Option.map_some]
    have hreal : (Backend.real fudge : Backend ℝ S ℝ).implementation f = some (.plain g) :=
      Backend.real_implementation_eq_some.mpr ⟨g, hg, rfl⟩
    exact carried_call hfind hreal hcomplex (hvalues fudge) ih

/-- A tree of real operations is buildable where its variables have sources. -/
theorem StaysReal.buildable (he : e.StaysReal fudge p)
    (hsource : ∀ v ∈ e.leaves, (p.source? v).isSome = true) :
    Buildable ⟨.builtin, .real fudge⟩ p.source? e := by
  induction he with
  | constant c => exact buildable_constant c
  | var v =>
    obtain ⟨i, hi⟩ := Option.isSome_iff_exists.mp (hsource v (List.mem_singleton.mpr rfl))
    exact (Yields.sourced hi).buildable
  | unary op _ ih => exact buildable_unary.mpr (ih hsource)
  | binary _ _ _ ihx ihy =>
    obtain ⟨hx, hy⟩ := List.forall_mem_append.mp hsource
    exact buildable_binary.mpr ⟨ihx hx, ihy hy⟩
  | pow n _ _ _ _ ih =>
    exact buildable_binary.mpr
      ⟨ih fun v hv => hsource v (List.mem_append_left _ hv), buildable_constant _⟩
  | conditional _ _ _ ihc iht ihf =>
    obtain ⟨hct, hf⟩ := List.forall_mem_append.mp hsource
    obtain ⟨hc, ht⟩ := List.forall_mem_append.mp hct
    exact buildable_conditional.mpr ⟨ihc hc, iht ht, ihf hf⟩
  | call hname _ ih =>
    obtain ⟨f, hf, hfind⟩ := exists_sharedFunction hname
    obtain ⟨g, -, hg, -⟩ := Vocabulary.staysReal_of_mem_sharedFunctions hf
    refine buildable_call.mpr ⟨⟨f, hfind, ?_⟩, fun x hx => ih x hx ?_⟩
    · exact (Backend.isSome_real_implementation fudge f).trans (Option.isSome_of_eq_some hg)
    · exact fun v hv => hsource v (leaves_call_subset.mp (List.Subset.refl _) x hx hv)

end Expr

/-- **The complex backend extends the real one.**  Let the sources of some variables hold
real numbers, and sources of the same variables these numbers as complex ones.  With steady
hosts and equal guards a tree of real operations then computes a complex number if and only
if it computes a real number, and the complex number is this one; if all its variables have
sources, it does compute one. -/
theorem complex_extends_real {S T σ τ : Type} {source? : Variable → Option S}
    {complexSource? : Variable → Option T} {host : Resolver σ S} {host' : Resolver τ T}
    (hhost : host.Steady source?) (hhost' : host'.Steady complexSource?) {memory : S → ℝ}
    {memory' : T → Complex ℝ}
    (hmemory : ∀ v, (complexSource? v).map memory' = (source? v).map fun i => ofReal (memory i))
    {fudge : ℝ} (laplace : Option T) {e : Expr ℝ}
    (he : e.StaysReal fudge ⟨source?, memory⟩) (state : σ) (state' : τ) :
    (∀ z, e.Computes ⟨.builtin, .complex fudge laplace⟩ host' state' memory' z ↔
      ∃ x, e.Computes ⟨.builtin, .real fudge⟩ host state memory x ∧ z = ofReal x) ∧
    ((∀ v ∈ e.leaves, (source? v).isSome = true) →
      ∃ x, e.Computes ⟨.builtin, .real fudge⟩ host state memory x ∧
        e.Computes ⟨.builtin, .complex fudge laplace⟩ host' state' memory' (ofReal x)) := by
  have hcarried : Expr.Carried ofReal ⟨.builtin, .real fudge⟩ ⟨source?, memory⟩
      ⟨.builtin, .complex fudge laplace⟩ ⟨complexSource?, memory'⟩ e := he.carried hmemory
  have hpowers : (Backend.complex fudge laplace).MultipliesOut :=
    Backend.complex_multipliesOut (Scalar.eq_iff.mpr rfl) fudge laplace
  have hcomputes (z : Complex ℝ) :
      e.Computes ⟨.builtin, .complex fudge laplace⟩ host' state' memory' z ↔
        ∃ x, e.Computes ⟨.builtin, .real fudge⟩ host state memory x ∧ z = ofReal x := by
    rw [Expr.computes_iff (s := ⟨.builtin, .complex fudge laplace⟩) hpowers hhost',
      hcarried.yields_iff]
    simp only [Expr.computes_real_iff hhost]
  refine ⟨hcomputes, fun hsource => ?_⟩
  obtain ⟨x, hx⟩ := (he.buildable hsource).exists_yields (Setting.total_builtin fudge)
  have hreal : e.Computes ⟨.builtin, .real fudge⟩ host state memory x :=
    (Expr.computes_real_iff hhost).mpr hx
  exact ⟨x, hreal, (hcomputes _).mpr ⟨x, hreal, rfl⟩⟩

/-- The tree `min(v, 0) / 0 - v ^ -2147483648` at `v = -1` with the guard `1`: the divisor is
moved, the base is not. -/
theorem guardedTree_extends :
    let v : Variable := .named "v"
    let e : Expr ℝ := .binary .sub
      (.binary .div (.call "min" [.var v, .constant 0]) (.constant 0))
      (.binary .pow (.var v) (.constant (-2 ^ 31 : ℤ)))
    let host : Resolver (List Variable) Variable := .recording some
    e.StaysReal 1 ⟨some, fun _ => -1⟩ ∧
      e.Computes ⟨.builtin, .real 1⟩ host [] (fun _ => -1) (-2) ∧
      e.Computes ⟨.builtin, .complex 1 none⟩ host [] (fun _ => ⟨-1, 0⟩) ⟨-2, 0⟩ := by
  intro v e host
  have hhost : host.Steady some := Resolver.steady_recording some
  have he : e.StaysReal 1 ⟨some, fun _ => -1⟩ := by
    refine .binary (by decide) (.binary (by decide) (.call (by decide +kernel) ?_) (.constant 0))
      (.pow (-2 ^ 31) (.var v) le_rfl (by decide) fun _ => .inl one_pos)
    exact List.forall_mem_cons.mpr ⟨.var v, List.forall_mem_singleton.mpr (.constant 0)⟩
  have hreal : e.Computes ⟨.builtin, .real 1⟩ host [] (fun _ => -1) (-2) := by
    rw [Expr.computes_real_iff hhost]
    have hv : (Expr.var v).Yields ⟨.builtin, .real 1⟩ ⟨some, fun _ => -1⟩ (-1 : ℝ) :=
      .sourced rfl
    have hmin : (Expr.call "min" [.var v, .constant 0]).Yields ⟨.builtin, .real 1⟩
        ⟨some, fun _ => -1⟩ (-1 : ℝ) := by
      have hfind : Vocabulary.builtin.functionOf? "min" 2 =
          some (Vocabulary.min : NamedFunction ℝ) := by
        refine Vocabulary.builtin_functionOf?_eq_some.mpr ⟨?_, by decide +kernel, rfl⟩
        exact Vocabulary.sharedFunctions_subset (by simp [Vocabulary.sharedFunctions])
      have hvalue : Vocabulary.minReal (-1 : ℝ) 0 = -1 :=
        if_pos (Scalar.lt_iff.mpr (by norm_num))
      refine ⟨Expr.buildable_call.mpr ⟨⟨_, hfind, rfl⟩, ?_⟩, ?_⟩
      · exact List.forall_mem_cons.mpr
          ⟨hv.buildable, List.forall_mem_singleton.mpr (Expr.buildable_constant 0)⟩
      · rw [Expr.valueIn?_call (g := .plain (.binary Vocabulary.minReal)) hfind rfl]
        exact congrArg some hvalue
    have hdivisor : guardReal 1 (0 : ℝ) = 1 := by
      rw [guardReal_of_lt (by norm_num) le_rfl, zero_add]
    have hpower : realPow 1 (-1 : ℝ) ((-2 ^ 31 : ℤ) : ℝ) = 1 := by
      rw [realPow_of_integerExponent?_eq_none (integerExponent?_eq_none_of_lt (by decide))
        (by norm_num), abs_neg, abs_one]
      exact Real.one_rpow _
    have h := Expr.Yields.combine .sub (by decide) (by decide) (by decide)
      (hmin.plain_div (.constant 0)) (hv.plain_pow (.constant ((-2 ^ 31 : ℤ) : ℝ)))
    rw [hdivisor, hpower] at h
    convert h using 1
    norm_num [Evaluator.combine, Backend.real]
  have hmemory (v : Variable) : (some v).map (fun _ => (⟨-1, 0⟩ : Complex ℝ)) =
      (some v).map fun _ => ofReal (-1) := rfl
  obtain ⟨hcomputes, -⟩ := complex_extends_real hhost hhost hmemory none he [] []
  exact ⟨he, hreal, (hcomputes _).mpr ⟨-2, hreal, rfl⟩⟩

end CircuitExpr
