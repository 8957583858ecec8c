/-
# What a tree is worth in a setting

A point says what every variable is at one moment: its source, and what the sources hold.
In a setting, a vocabulary and a backend, there are two things to be asked of a tree at a
point:

* whether it is *buildable*: every variable and every function is found;
* what its *value* is, as the interpreter gives it.

Both are answered operator by operator.  A setting is total if each of its functions has a
value for all arguments, as the built-in functions with real values have; in a total
setting what is buildable has a value (`exists_valueIn?`).

A tree that is buildable and has a value *yields* it.  With a steady host it is then built
into an evaluator that gives the value: the tree *computes* it (`computes_iff`).
-/

import Mathlib
import CircuitExpr.Backend.Real
import CircuitExpr.Proofs.BuiltinVocabulary
import CircuitExpr.Proofs.Compilation
import CircuitExpr.Proofs.SteadyHosts

namespace CircuitExpr

/-! ### Values of evaluations -/

namespace Evaluation

variable {S α β : Type}

/-- A value that is given is the value. -/
@[simp]
theorem value?_pure (x : α) : (Pure.pure x : Evaluation S α).value? = some x := rfl

/-- What follows on an evaluation has a value if both do. -/
@[simp]
theorem value?_bind (x : Evaluation S α) (f : α → Evaluation S β) :
    (x >>= f).value? = x.value?.bind fun a => (f a).value? := by
  change (bind x f).value? = _
  rcases x with _ | ⟨a, before⟩
  · rfl
  · rcases h : f a with _ | ⟨b, after⟩ <;> simp [bind, value?, h]

/-- A value that may be missing is the value if it is there. -/
@[simp]
theorem value?_ofOption (x : Option α) : (ofOption x : Evaluation S α).value? = x := by
  cases x <;> rfl

/-- A source has the value that memory holds. -/
@[simp]
theorem value?_read (memory : S → α) (source : S) :
    (read memory source).value? = some (memory source) := rfl

end Evaluation

/-- A call has the values of the function. -/
@[simp]
theorem Meaning.value?_call {ρ S α : Type} (memory : S → α) (fudge : ρ) (args : List α)
    (g : Meaning ρ S α) : (g.call memory fudge args).value? = g.values memory fudge args := by
  cases g with
  | plain values => rw [call, Evaluation.value?_ofOption, Meaning.values]
  | sourced source values =>
    rw [call, Evaluation.value?_bind, Evaluation.value?_read, Option.bind_some,
      Evaluation.value?_ofOption, Meaning.values]

/-- The sources of the variables and what they hold. -/
structure Point (S K : Type) where
  /-- The source of a variable; a name without one may be a constant of the vocabulary. -/
  source? : Variable → Option S
  /-- What a source holds. -/
  memory : S → K

/-- A function that is found has a value for all arguments, whatever the sources hold. -/
def Setting.Total {ρ S α : Type} (s : Setting ρ S α) : Prop :=
  ∀ {name : String} {values : List α} {f : NamedFunction ρ} {g : Meaning ρ S α} (memory : S → α),
    s.vocabulary.functionOf? name values.length = some f → s.backend.implementation f = some g →
      ∃ r, g.values memory s.backend.fudge values = some r

/-- The built-in functions with real values are total. -/
theorem Setting.total_builtin {ρ S : Type} [Scalar ρ] (fudge : ρ) :
    (⟨.builtin, .real fudge⟩ : Setting ρ S ρ).Total := by
  intro name values f g memory hf hg
  obtain ⟨hmem, -, harity⟩ := Vocabulary.builtin_functionOf?_eq_some.mp hf
  obtain ⟨g, hreal, rfl⟩ := Backend.real_implementation_eq_some.mp hg
  exact Vocabulary.realTotal_of_mem_builtinFunctions hmem g hreal fudge values harity.symm

namespace Expr

open Evaluator (translateAll callee)

variable {ρ α S : Type} [Scalar ρ]

/-- Every variable and every function of the tree is found. -/
def Buildable (s : Setting ρ S α) (source? : Variable → Option S) (e : Expr ρ) : Prop :=
  ∃ x, Evaluator.translate s source? e = .ok x

/-- The value of the tree. -/
def valueIn? (s : Setting ρ S α) (p : Point S α) (e : Expr ρ) : Option α :=
  (e.interpret s p.source? p.memory).value?

variable {s : Setting ρ S α} {source? : Variable → Option S} {p : Point S α}

/-! ### Building -/

/-- A constant builds. -/
theorem buildable_constant (c : ρ) : Buildable s source? (.constant c) := ⟨_, rfl⟩

/-- A variable is buildable if it has a source, or is a constant of the vocabulary. -/
theorem buildable_var {v : Variable} :
    Buildable s source? (.var v) ↔ (∃ i, source? v = some i) ∨
      source? v = none ∧ v.kind = .named ∧ ∃ c, s.vocabulary.constant? v.name = some c := by
  unfold Buildable
  rw [Evaluator.translate]
  unfold Evaluator.replacement
  cases source? v with
  | some i => simp
  | none =>
    unfold Evaluator.fallback
    cases v.kind <;> cases s.vocabulary.constant? v.name <;> simp

/-- An operator before an operand builds if the operand does. -/
theorem buildable_unary {op : UnaryOp} {x : Expr ρ} :
    Buildable s source? (.unary op x) ↔ Buildable s source? x := by
  constructor
  · rintro ⟨_, h⟩
    obtain ⟨y, hy, -⟩ := Evaluator.translate_unary_eq_ok.mp h
    exact ⟨y, hy⟩
  · rintro ⟨y, hy⟩
    exact ⟨_, Evaluator.translate_unary_eq_ok.mpr ⟨y, hy, rfl⟩⟩

/-- An operator between two operands builds if both do. -/
theorem buildable_binary {op : BinaryOp} {x y : Expr ρ} :
    Buildable s source? (.binary op x y) ↔ Buildable s source? x ∧ Buildable s source? y := by
  cases hn : Evaluator.fixedExponent? op y with
  | some n =>
    obtain ⟨rfl, c, rfl, -⟩ := Evaluator.fixedExponent?_eq_some hn
    constructor
    · rintro ⟨_, h⟩
      obtain ⟨a, ha, -⟩ := (Evaluator.translate_power_eq_ok hn).mp h
      exact ⟨⟨a, ha⟩, buildable_constant c⟩
    · rintro ⟨⟨a, ha⟩, -⟩
      exact ⟨_, (Evaluator.translate_power_eq_ok hn).mpr ⟨a, ha, rfl⟩⟩
  | none =>
    constructor
    · rintro ⟨_, h⟩
      obtain ⟨a, b, ha, hb, -⟩ := (Evaluator.translate_binary_eq_ok hn).mp h
      exact ⟨⟨a, ha⟩, ⟨b, hb⟩⟩
    · rintro ⟨⟨a, ha⟩, ⟨b, hb⟩⟩
      exact ⟨_, (Evaluator.translate_binary_eq_ok hn).mpr ⟨a, b, ha, hb, rfl⟩⟩

/-- A choice builds if its three parts do. -/
theorem buildable_conditional {c t f : Expr ρ} :
    Buildable s source? (.conditional c t f) ↔
      Buildable s source? c ∧ Buildable s source? t ∧ Buildable s source? f := by
  constructor
  · rintro ⟨_, h⟩
    obtain ⟨x, y, z, hx, hy, hz, -⟩ := Evaluator.translate_conditional_eq_ok.mp h
    exact ⟨⟨x, hx⟩, ⟨y, hy⟩, ⟨z, hz⟩⟩
  · rintro ⟨⟨x, hx⟩, ⟨y, hy⟩, ⟨z, hz⟩⟩
    exact ⟨_, Evaluator.translate_conditional_eq_ok.mpr ⟨x, y, z, hx, hy, hz, rfl⟩⟩

/-- Some trees build if each of them does. -/
theorem translateAll_iff {es : List (Expr ρ)} :
    (∃ xs, translateAll s source? es = .ok xs) ↔ ∀ e ∈ es, Buildable s source? e := by
  induction es with
  | nil => exact ⟨fun _ => List.forall_mem_nil _, fun _ => ⟨[], rfl⟩⟩
  | cons e es ih =>
    rw [List.forall_mem_cons, ← ih]
    constructor
    · rintro ⟨_, h⟩
      obtain ⟨x, xs, hx, hxs, -⟩ := Evaluator.translateAll_cons_eq_ok.mp h
      exact ⟨⟨x, hx⟩, ⟨xs, hxs⟩⟩
    · rintro ⟨⟨x, hx⟩, ⟨xs, hxs⟩⟩
      exact ⟨_, Evaluator.translateAll_cons_eq_ok.mpr ⟨x, xs, hx, hxs, rfl⟩⟩

/-- A call is buildable if its function has values and its arguments are buildable. -/
theorem buildable_call {name : String} {args : List (Expr ρ)} :
    Buildable s source? (.call name args) ↔
      (∃ f, s.vocabulary.functionOf? name args.length = some f ∧
        (s.backend.implementation f).isSome = true) ∧
        ∀ x ∈ args, Buildable s source? x := by
  rw [← translateAll_iff]
  constructor
  · rintro ⟨_, h⟩
    obtain ⟨f, xs, hf, hxs, -⟩ := Evaluator.translate_call_eq_ok.mp h
    obtain ⟨hf, g, hg⟩ := Evaluator.callee_eq_ok hf
    exact ⟨⟨f, hf, Option.isSome_of_eq_some hg⟩, ⟨xs, hxs⟩⟩
  · rintro ⟨⟨f, hf, himplementation⟩, ⟨xs, hxs⟩⟩
    obtain ⟨g, hg⟩ := Option.isSome_iff_exists.mp himplementation
    have hcallee : callee s name args.length = .ok f := by
      simp only [callee, hf, hg]
    exact ⟨_, Evaluator.translate_call_eq_ok.mpr ⟨f, xs, hcallee, hxs, rfl⟩⟩

/-- A call of a built-in function that has real values. -/
theorem buildable_builtin_call {fudge : ρ} {name : String} {args : List (Expr ρ)} :
    Buildable (⟨.builtin, .real fudge⟩ : Setting ρ S ρ) source? (.call name args) ↔
      (∃ f ∈ (Vocabulary.builtinFunctions : List (NamedFunction ρ)),
        f.name = Text.lowercase name ∧ f.arity = args.length ∧ f.real.isSome = true) ∧
        ∀ x ∈ args, Buildable (⟨.builtin, .real fudge⟩ : Setting ρ S ρ) source? x := by
  rw [buildable_call]
  simp only [Vocabulary.builtin_functionOf?_eq_some, Backend.isSome_real_implementation, and_assoc]

/-- The parts of what is buildable are buildable. -/
theorem Buildable.child {e x : Expr ρ} (he : Buildable s source? e) (hx : x ∈ e.children) :
    Buildable s source? x := by
  cases e with
  | constant | var => exact absurd hx List.not_mem_nil
  | unary => exact List.mem_singleton.mp hx ▸ buildable_unary.mp he
  | binary =>
    obtain ⟨h, h'⟩ := buildable_binary.mp he
    obtain rfl | hx := List.mem_cons.mp hx
    · exact h
    · exact List.mem_singleton.mp hx ▸ h'
  | call => exact (buildable_call.mp he).2 x hx
  | conditional =>
    obtain ⟨hc, ht, hf⟩ := buildable_conditional.mp he
    simp only [children, List.mem_cons, List.not_mem_nil, or_false] at hx
    obtain rfl | rfl | rfl := hx
    · exact hc
    · exact ht
    · exact hf

/-! ### Values -/

/-- A plus sign changes nothing. -/
@[simp]
theorem valueIn?_plus (x : Expr ρ) : (Expr.unary .plus x).valueIn? s p = x.valueIn? s p := by
  rw [valueIn?, interpret, valueIn?]

/-- A minus sign changes the sign. -/
@[simp]
theorem valueIn?_minus (x : Expr ρ) :
    (Expr.unary .minus x).valueIn? s p = (x.valueIn? s p).map s.backend.neg := by
  rw [valueIn?, interpret, valueIn?]
  simp [Option.map_eq_bind]

/-- A negation gives the opposite answer. -/
@[simp]
theorem valueIn?_not (x : Expr ρ) :
    (Expr.unary .not x).valueIn? s p =
      (x.valueIn? s p).map fun a => s.backend.ofBool (!s.backend.isTrue a) := by
  rw [valueIn?, interpret, valueIn?]
  simp [Option.map_eq_bind]

/-- The value of an operation on two operands. -/
theorem value?_both (f : α → α → α) (x y : Evaluation S α) :
    (both f x y).value? = x.value?.bind fun a => y.value?.map (f a) := by
  simp [both, Option.map_eq_bind]

/-- The value of an operator that always reaches both operands. -/
theorem valueIn?_binary {op : BinaryOp} (hand : op ≠ .and) (hor : op ≠ .or) (hpow : op ≠ .pow)
    (x y : Expr ρ) :
    (Expr.binary op x y).valueIn? s p =
      (x.valueIn? s p).bind fun a =>
        (y.valueIn? s p).map (Evaluator.combine s.backend op a) := by
  have h : (Expr.binary op x y).interpret s p.source? p.memory =
      both (Evaluator.combine s.backend op) (x.interpret s p.source? p.memory)
        (y.interpret s p.source? p.memory) := by
    cases op <;> first | rfl | contradiction
  rw [valueIn?, h, value?_both]
  rfl

/-- The value of a conjunction: if the first operand is false, nothing else is asked for. -/
theorem valueIn?_and (x y : Expr ρ) :
    (Expr.binary .and x y).valueIn? s p =
      (x.valueIn? s p).bind fun a =>
        if s.backend.isTrue a then
          (y.valueIn? s p).map fun b => s.backend.ofBool (s.backend.isTrue b)
        else some (s.backend.ofBool false) := by
  rw [valueIn?, interpret]
  simp only [Evaluation.value?_bind]
  congr 1
  funext a
  split
  · simp [valueIn?, Option.map_eq_bind]
  · rfl

/-- The value of a disjunction: if the first operand is true, nothing else is asked for. -/
theorem valueIn?_or (x y : Expr ρ) :
    (Expr.binary .or x y).valueIn? s p =
      (x.valueIn? s p).bind fun a =>
        if s.backend.isTrue a then some (s.backend.ofBool true)
        else (y.valueIn? s p).map fun b => s.backend.ofBool (s.backend.isTrue b) := by
  rw [valueIn?, interpret]
  simp only [Evaluation.value?_bind]
  congr 1
  funext a
  split
  · rfl
  · simp [valueIn?, Option.map_eq_bind]

/-- The value of a power: one for the exponent zero, whatever the base. -/
theorem valueIn?_pow (x y : Expr ρ) :
    (Expr.binary .pow x y).valueIn? s p =
      if y.isZeroExponent then some (s.backend.ofReal 1)
      else (x.valueIn? s p).bind fun a => (y.valueIn? s p).map (s.backend.pow a) := by
  rw [valueIn?, interpret]
  split
  · rfl
  · rw [value?_both]
    rfl

/-- The value of a choice. -/
theorem valueIn?_conditional (c t f : Expr ρ) :
    (Expr.conditional c t f).valueIn? s p =
      (c.valueIn? s p).bind fun a =>
        if s.backend.isTrue a then t.valueIn? s p else f.valueIn? s p := by
  rw [valueIn?, interpret]
  simp only [Evaluation.value?_bind]
  congr 1
  funext a
  split <;> rfl

/-- The values of some trees are those of each. -/
theorem value?_interpretAll (es : List (Expr ρ)) :
    (interpretAll s p.source? p.memory es).value? = es.mapM (valueIn? s p) := by
  induction es with
  | nil => rfl
  | cons e es ih =>
    rw [interpretAll, List.mapM_cons]
    simp only [Evaluation.value?_bind, ih, Evaluation.value?_pure]
    rfl

/-- The value of a call comes from those of its arguments. -/
theorem valueIn?_call {name : String} {args : List (Expr ρ)} {f : NamedFunction ρ}
    {g : Meaning ρ S α} (hf : s.vocabulary.functionOf? name args.length = some f)
    (hg : s.backend.implementation f = some g) :
    (Expr.call name args).valueIn? s p =
      (args.mapM (valueIn? s p)).bind (g.values p.memory s.backend.fudge) := by
  have hcall : (Expr.call name args).interpret s p.source? p.memory = (do
      let values ← interpretAll s p.source? p.memory args
      g.call p.memory s.backend.fudge values) := by
    rw [interpret, hf, Option.bind_some, hg]
    cases g <;> rfl
  rw [valueIn?, hcall, Evaluation.value?_bind, value?_interpretAll]
  simp only [Meaning.value?_call]

/-! ### What is buildable has a value -/

/-- A variable with a replacement has a value. -/
theorem exists_valueIn?_var {v : Variable} {x : Evaluator ρ S α}
    (h : Evaluator.replacement s v (p.source? v) = .ok x) :
    ∃ a, (Expr.var v).valueIn? s p = some a := by
  rw [valueIn?, interpret, ← Evaluator.run_replacement h]
  unfold Evaluator.replacement at h
  split at h
  · cases h
    exact ⟨_, rfl⟩
  · unfold Evaluator.fallback at h
    split at h
    · split at h
      · cases h
        exact ⟨_, rfl⟩
      · cases h
    · cases h

/-- An operator between values has a value. -/
theorem exists_valueIn?_binary (op : BinaryOp) {x y : Expr ρ} {a b : α}
    (hx : x.valueIn? s p = some a) (hy : y.valueIn? s p = some b) :
    ∃ r, (Expr.binary op x y).valueIn? s p = some r := by
  cases op with
  | and =>
    rw [valueIn?_and, hx, hy, Option.bind_some]
    split
    · exact ⟨_, rfl⟩
    · exact ⟨_, rfl⟩
  | or =>
    rw [valueIn?_or, hx, hy, Option.bind_some]
    split
    · exact ⟨_, rfl⟩
    · exact ⟨_, rfl⟩
  | pow =>
    rw [valueIn?_pow, hx, hy]
    split
    · exact ⟨_, rfl⟩
    · exact ⟨_, rfl⟩
  | _ =>
    rw [valueIn?_binary (by decide) (by decide) (by decide), hx, hy]
    exact ⟨_, rfl⟩

/-- Arguments with values have values together. -/
theorem exists_mapM_valueIn? {es : List (Expr ρ)} (h : ∀ e ∈ es, ∃ a, e.valueIn? s p = some a) :
    ∃ values, es.mapM (valueIn? s p) = some values ∧ values.length = es.length := by
  induction es with
  | nil => exact ⟨[], rfl, rfl⟩
  | cons e es ih =>
    obtain ⟨a, ha⟩ := h e List.mem_cons_self
    obtain ⟨values, hvalues, hlength⟩ := ih fun x hx => h x (List.mem_cons_of_mem e hx)
    exact ⟨a :: values, by simp [List.mapM_cons, ha, hvalues], by simp [hlength]⟩

/-- **In a total setting what is buildable has a value.** -/
theorem exists_valueIn? (hs : s.Total) {e : Expr ρ} (h : Buildable s p.source? e) :
    ∃ a, e.valueIn? s p = some a := by
  induction e using Expr.induction with
  | constant c => exact ⟨_, rfl⟩
  | var v =>
    obtain ⟨x, hx⟩ := h
    exact exists_valueIn?_var hx
  | unary op x ih =>
    obtain ⟨a, ha⟩ := ih (buildable_unary.mp h)
    cases op with
    | plus => exact ⟨a, by rw [valueIn?_plus, ha]⟩
    | minus => exact ⟨_, by rw [valueIn?_minus, ha, Option.map_some]⟩
    | not => exact ⟨_, by rw [valueIn?_not, ha, Option.map_some]⟩
  | binary op x y ihx ihy =>
    obtain ⟨a, ha⟩ := ihx (buildable_binary.mp h).1
    obtain ⟨b, hb⟩ := ihy (buildable_binary.mp h).2
    exact exists_valueIn?_binary op ha hb
  | call name args ih =>
    obtain ⟨⟨f, hf, himplementation⟩, hargs⟩ := buildable_call.mp h
    obtain ⟨g, hg⟩ := Option.isSome_iff_exists.mp himplementation
    obtain ⟨values, hvalues, hlength⟩ := exists_mapM_valueIn? fun x hx => ih x hx (hargs x hx)
    obtain ⟨r, hr⟩ := hs p.memory (hlength ▸ hf) hg
    exact ⟨r, by rw [valueIn?_call hf hg, hvalues, Option.bind_some, hr]⟩
  | conditional c t f ihc iht ihf =>
    obtain ⟨hc, ht, hf⟩ := buildable_conditional.mp h
    obtain ⟨a, ha⟩ := ihc hc
    rw [valueIn?_conditional, ha, Option.bind_some]
    split
    · exact iht ht
    · exact ihf hf

/-! ### What a tree yields -/

/-- At the point the tree is buildable and has the value `a`. -/
structure Yields (s : Setting ρ S α) (p : Point S α) (e : Expr ρ) (a : α) : Prop where
  /-- Every variable and every function is found. -/
  buildable : Buildable s p.source? e
  /-- The value. -/
  value : e.valueIn? s p = some a

/-- What an operator makes of the value of its operand. -/
def signedValue (b : Backend ρ S α) (op : UnaryOp) (a : α) : α :=
  match op with
  | .plus => a
  | .minus => b.neg a
  | .not => b.ofBool (!b.isTrue a)

/-- What is buildable in a total setting yields a value. -/
theorem Buildable.exists_yields (hs : s.Total) {e : Expr ρ} (h : Buildable s p.source? e) :
    ∃ a, Yields s p e a :=
  (exists_valueIn? hs h).imp fun _ ha => ⟨h, ha⟩

namespace Yields

/-- A tree yields one value. -/
theorem unique {e : Expr ρ} {a b : α} (ha : Yields s p e a) (hb : Yields s p e b) : a = b :=
  Option.some.inj (ha.value.symm.trans hb.value)

/-- A constant yields its value. -/
theorem ofReal (c : ρ) : Yields s p (.constant c) (s.backend.ofReal c) :=
  ⟨buildable_constant c, rfl⟩

/-- A variable with a source yields what the source holds. -/
theorem sourced {v : Variable} {i : S} (hv : p.source? v = some i) :
    Yields s p (.var v) (p.memory i) where
  buildable := buildable_var.mpr (.inl ⟨i, hv⟩)
  value := by
    rw [valueIn?, interpret, interpretVariable, hv]
    rfl

/-- A constant of the vocabulary. -/
theorem named {v : Variable} (hv : p.source? v = none) (hkind : v.kind = .named) {c : ρ}
    (hc : s.vocabulary.constant? v.name = some c) :
    Yields s p (.var v) (s.backend.ofReal c) where
  buildable := buildable_var.mpr (.inr ⟨hv, hkind, c, hc⟩)
  value := by
    rw [valueIn?, interpret, interpretVariable, hv, hkind]
    simp only [hc, Option.map_some, Evaluation.value?_ofOption]

/-- An operator before an operand applies to its value. -/
theorem unary (op : UnaryOp) {x : Expr ρ} {a : α} (hx : Yields s p x a) :
    Yields s p (.unary op x) (signedValue s.backend op a) where
  buildable := buildable_unary.mpr hx.buildable
  value := by cases op <;> simp [hx.value, signedValue]

/-- An operator that always reaches both operands. -/
theorem combine (op : BinaryOp) (hand : op ≠ .and) (hor : op ≠ .or) (hpow : op ≠ .pow)
    {x y : Expr ρ} {a b : α} (hx : Yields s p x a) (hy : Yields s p y b) :
    Yields s p (.binary op x y) (Evaluator.combine s.backend op a b) where
  buildable := buildable_binary.mpr ⟨hx.buildable, hy.buildable⟩
  value := by
    rw [valueIn?_binary hand hor hpow, hx.value, hy.value]
    rfl

/-- An operator between values, a power apart: if the left operand decides, the right one
would not have changed it. -/
theorem operator {op : BinaryOp} (hpow : op ≠ .pow) {x y : Expr ρ} {a b : α}
    (hx : Yields s p x a) (hy : Yields s p y b) :
    Yields s p (.binary op x y) (Evaluator.combine s.backend op a b) := by
  by_cases hand : op = .and
  · subst hand
    refine ⟨buildable_binary.mpr ⟨hx.buildable, hy.buildable⟩, ?_⟩
    rw [valueIn?_and, hx.value, hy.value]
    cases ha : s.backend.isTrue a <;> simp [Evaluator.combine, ha]
  by_cases hor : op = .or
  · subst hor
    refine ⟨buildable_binary.mpr ⟨hx.buildable, hy.buildable⟩, ?_⟩
    rw [valueIn?_or, hx.value, hy.value]
    cases ha : s.backend.isTrue a <;> simp [Evaluator.combine, ha]
  exact hx.combine op hand hor hpow hy

/-- A power, if the exponent zero gives one. -/
theorem power {x y : Expr ρ} {a b : α} (hx : Yields s p x a) (hy : Yields s p y b)
    (hzero : y.isZeroExponent = true → s.backend.pow a b = s.backend.ofReal 1) :
    Yields s p (.binary .pow x y) (s.backend.pow a b) where
  buildable := buildable_binary.mpr ⟨hx.buildable, hy.buildable⟩
  value := by
    rw [valueIn?_pow, hx.value, hy.value]
    split
    · rename_i h
      rw [hzero h]
    · rfl

/-- A choice yields what the selected branch yields. -/
theorem choice {c t f : Expr ρ} {a r : α} (hc : Yields s p c a)
    (ht : Buildable s p.source? t) (hf : Buildable s p.source? f)
    (hr : (if s.backend.isTrue a then t else f).valueIn? s p = some r) :
    Yields s p (.conditional c t f) r where
  buildable := buildable_conditional.mpr ⟨hc.buildable, ht, hf⟩
  value := by
    rw [valueIn?_conditional, hc.value, Option.bind_some, ← hr]
    split <;> rfl

/-- A call of a function that is found. -/
theorem call {name : String} {args : List (Expr ρ)} {f : NamedFunction ρ}
    {g : Meaning ρ S α} (hf : s.vocabulary.functionOf? name args.length = some f)
    (hg : s.backend.implementation f = some g) {values : List α}
    (hargs : List.Forall₂ (Yields s p) args values) {r : α}
    (hr : g.values p.memory s.backend.fudge values = some r) : Yields s p (.call name args) r where
  buildable := by
    refine buildable_call.mpr ⟨⟨f, hf, Option.isSome_of_eq_some hg⟩, fun x hx => ?_⟩
    clear hf hr
    induction hargs with
    | nil => cases hx
    | cons h _ ih =>
      obtain rfl | hx := List.mem_cons.mp hx
      · exact h.buildable
      · exact ih hx
  value := by
    have hvalues : args.mapM (valueIn? s p) = some values := by
      clear hf hr
      induction hargs with
      | nil => rfl
      | cons h _ ih => simp [List.mapM_cons, h.value, ih]
    rw [valueIn?_call hf hg, hvalues, Option.bind_some, hr]

end Yields

variable {σ : Type}

/-- Built with this host, the tree becomes an evaluator that gives the value `a`. -/
def Computes (s : Setting ρ S α) (host : Resolver σ S) (state : σ) (memory : S → α) (e : Expr ρ)
    (a : α) : Prop :=
  ∃ x, (Evaluator.build s host e state).1 = .ok x ∧ x.value? s.backend memory = some a

/-- **With a steady host a tree computes what it yields.** -/
theorem computes_iff (hs : s.backend.MultipliesOut) {host : Resolver σ S}
    (hhost : host.Steady source?) {state : σ} {memory : S → α} {e : Expr ρ} {a : α} :
    Computes s host state memory e a ↔ Yields s ⟨source?, memory⟩ e a := by
  have hvalue {x : Evaluator ρ S α} (hx : Evaluator.translate s source? e = .ok x) :
      x.value? s.backend memory = e.valueIn? s ⟨source?, memory⟩ :=
    congrArg Evaluation.value? (Evaluator.translate_run hs source? e hx memory)
  rw [Computes, Evaluator.build_eq_translate hhost]
  constructor
  · rintro ⟨x, hx, ha⟩
    exact ⟨⟨x, hx⟩, (hvalue hx).symm.trans ha⟩
  · rintro ⟨⟨x, hx⟩, ha⟩
    exact ⟨x, hx, (hvalue hx).trans ha⟩

/-- What trees compute with a steady host is what they yield. -/
theorem computes_eq_yields (hs : s.backend.MultipliesOut) {host : Resolver σ S}
    (hhost : host.Steady source?) (state : σ) (memory : S → α) :
    Computes s host state memory = Yields s ⟨source?, memory⟩ := by
  funext e a
  exact propext (computes_iff hs hhost)

/-- Under real numbers a tree is computed as it yields. -/
theorem computes_real_iff {w : Vocabulary ρ} {fudge : ρ} {host : Resolver σ S}
    (hhost : host.Steady source?) {state : σ} {memory : S → ρ} {e : Expr ρ} {a : ρ} :
    Computes ⟨w, .real fudge⟩ host state memory e a ↔
      Yields ⟨w, .real fudge⟩ ⟨source?, memory⟩ e a :=
  computes_iff (Backend.real_multipliesOut fudge) hhost

end Expr
end CircuitExpr
