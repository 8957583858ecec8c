/-
# No division by zero

A tree of arithmetic, comparisons, choices, powers with integer values of the exponent and
operators in time divides under the guard and nowhere else (`Guarded`).  So it comes to the
same number when it is run on checked numbers, for which a division by zero has no result, and
so does each of its parts: no division is by zero.  This holds of both backends.
-/

import Mathlib
import CircuitExpr.Proofs.CheckedBackends

namespace CircuitExpr

open CircuitExpr.Complex (ofReal)
open Checked (number)

/-- An operator in time is found under its name, without values of its own. -/
theorem Vocabulary.functionOf?_time {ρ : Type} [Scalar ρ] {name : String}
    (hname : Backend.IsTimeOperator name) :
    (builtin : Vocabulary ρ).functionOf? name 1 = some (linearInTime (Text.lowercase name)) := by
  refine builtin_functionOf?_eq_some.mpr ⟨?_, rfl, rfl⟩
  obtain h | h := hname <;> rw [h] <;> simp [builtinFunctions]

namespace Expr

/-! ### Trees over other numbers -/

section Map

variable {ρ ρ' : Type}

mutual

/-- The tree with each constant replaced. -/
def map (f : ρ → ρ') : Expr ρ → Expr ρ'
  | .constant c => .constant (f c)
  | .var v => .var v
  | .unary op x => .unary op (map f x)
  | .binary op x y => .binary op (map f x) (map f y)
  | .call name args => .call name (mapAll f args)
  | .conditional c t e => .conditional (map f c) (map f t) (map f e)

/-- Some trees with each constant replaced. -/
def mapAll (f : ρ → ρ') : List (Expr ρ) → List (Expr ρ')
  | [] => []
  | x :: xs => map f x :: mapAll f xs

end

end Map

/-! ### Trees that divide under the guard -/

section Trees

variable {α β S : Type} {b : Backend ℝ S α} {b' : Backend (Checked ℝ) S β} {φ : α → β}
  {p : Point S α} {e x y : Expr ℝ}

/-- Arithmetic, comparisons, choices, powers of which the exponent comes to an integer of
31 bits, and operators in time. -/
inductive Guarded (b : Backend ℝ S α) (p : Point S α) : Expr ℝ → Prop
  /-- A number. -/
  | constant (c : ℝ) : Guarded b p (.constant c)
  /-- A quantity of the circuit. -/
  | var (v : Variable) : Guarded b p (.var v)
  /-- An operator before an operand. -/
  | unary (op : UnaryOp) {x : Expr ℝ} : Guarded b p x → Guarded b p (.unary op x)
  /-- An operator between two operands, remainders and powers apart. -/
  | binary {op : BinaryOp} {x y : Expr ℝ} : op ≠ .mod → op ≠ .pow → Guarded b p x →
    Guarded b p y → Guarded b p (.binary op x y)
  /-- A power, the exponent of which may be computed. -/
  | power {x y : Expr ℝ} : Guarded b p x → Guarded b p y →
    (∀ a, Yields ⟨.builtin, b⟩ p y a → ∃ n : ℤ, n.natAbs ≤ 2147483647 ∧ a = b.ofReal n) →
    Guarded b p (.binary .pow x y)
  /-- The time derivative or the time integral. -/
  | time {name : String} {x : Expr ℝ} : Backend.IsTimeOperator name → Guarded b p x →
    Guarded b p (.call name [x])
  /-- One of two branches. -/
  | conditional {c t f : Expr ℝ} : Guarded b p c → Guarded b p t → Guarded b p f →
    Guarded b p (.conditional c t f)

/-- What is yielded on numbers is yielded on checked numbers. -/
def Checks (φ : α → β) (b : Backend ℝ S α) (b' : Backend (Checked ℝ) S β) (p : Point S α)
    (e : Expr ℝ) (a : α) : Prop :=
  Yields ⟨.builtin, b⟩ p e a ∧
    Yields ⟨.builtin, b'⟩ ⟨p.source?, φ ∘ p.memory⟩ (e.map number) (φ a)

/-- A variable that builds loses no check. -/
theorem checks_var (hb : b.CheckedBy φ b') {v : Variable}
    (hv : Buildable ⟨.builtin, b⟩ p.source? (.var v)) : ∃ a, Checks φ b b' p (.var v) a := by
  obtain ⟨i, hi⟩ | ⟨hnone, hkind, c, hc⟩ := buildable_var.mp hv
  · exact ⟨p.memory i, .sourced hi, .sourced hi⟩
  · have hc' : (Vocabulary.builtin : Vocabulary (Checked ℝ)).constant? v.name =
        some (number c) := by
      rw [Vocabulary.constant?_checked, show Vocabulary.builtin.constant? v.name = some c from hc]
      rfl
    refine ⟨b.ofReal c, .named hnone hkind hc, ?_⟩
    rw [← hb.ofReal]
    exact .named (s := ⟨.builtin, b'⟩) hnone hkind hc'

/-- An operator before an operand loses no check. -/
theorem checks_unary (hb : b.CheckedBy φ b') (op : UnaryOp) {a : α} (hx : Checks φ b b' p x a) :
    Checks φ b b' p (.unary op x) (signedValue b op a) := by
  have hvalue : signedValue b' op (φ a) = φ (signedValue b op a) := by
    cases op with
    | plus => rfl
    | minus => exact hb.neg a
    | not =>
      change b'.ofBool (!b'.isTrue (φ a)) = φ (b.ofBool (!b.isTrue a))
      rw [hb.isTrue]
      cases b.isTrue a with
      | false => exact hb.ofReal 1
      | true => exact hb.ofReal 0
  refine ⟨hx.1.unary op, ?_⟩
  rw [← hvalue]
  exact hx.2.unary op

/-- An operator between two operands loses no check, remainders and powers apart. -/
theorem checks_binary (hb : b.CheckedBy φ b') {op : BinaryOp} (hmod : op ≠ .mod)
    (hpow : op ≠ .pow) {u v : α} (hx : Checks φ b b' p x u) (hy : Checks φ b b' p y v) :
    Checks φ b b' p (.binary op x y) (Evaluator.combine b op u v) := by
  refine ⟨hx.1.operator hpow hy.1, ?_⟩
  rw [← hb.combine hmod hpow]
  exact hx.2.operator hpow hy.2

/-- An exponent that stands there as zero is zero, checked or not. -/
theorem isZeroExponent_map (y : Expr ℝ) : (y.map number).isZeroExponent = y.isZeroExponent := by
  cases y <;> rfl

/-- A power with a whole exponent loses no check. -/
theorem checks_power (hb : b.CheckedBy φ b') {u : α} {n : ℤ} (hn : n.natAbs ≤ 2147483647)
    (hx : Checks φ b b' p x u) (hy : Checks φ b b' p y (b.ofReal n)) :
    Checks φ b b' p (.binary .pow x y) (b.pow u (b.ofReal n)) := by
  have hzero (h : y.isZeroExponent = true) : b.pow u (b.ofReal n) = b.ofReal 1 := by
    rw [isZeroExponent, beq_iff_eq, Option.bind_eq_some_iff] at h
    obtain ⟨c, hc, hzero⟩ := h
    obtain rfl := asConstant?_eq_some.mp hc
    rw [hy.1.unique (Yields.ofReal c)]
    exact hb.pow_zero u hzero
  refine ⟨hx.1.power hy.1 hzero, ?_⟩
  rw [← hb.pow u hn]
  refine hx.2.power hy.2 fun h => ?_
  rw [isZeroExponent_map] at h
  change b'.pow (φ u) (φ (b.ofReal n)) = b'.ofReal (number 1)
  rw [hb.pow u hn, hzero h, hb.ofReal]

/-- A choice loses no check. -/
theorem checks_conditional (hb : b.CheckedBy φ b') {c t f : Expr ℝ} {a u v : α}
    (hc : Checks φ b b' p c a) (ht : Checks φ b b' p t u) (hf : Checks φ b b' p f v) :
    Checks φ b b' p (.conditional c t f) (if b.isTrue a then u else v) := by
  refine ⟨hc.1.choice ht.1.buildable hf.1.buildable ?_,
    hc.2.choice ht.2.buildable hf.2.buildable ?_⟩
  · change (if b.isTrue a = true then t else f).valueIn? _ _ = _
    split
    · exact ht.1.value
    · exact hf.1.value
  · change (if b'.isTrue (φ a) = true then t.map number else f.map number).valueIn? _ _ = _
    rw [hb.isTrue]
    split
    · exact ht.2.value
    · exact hf.2.value

/-- An operator in time loses no check. -/
theorem checks_time (hb : b.CheckedBy φ b') {name : String}
    (hname : Backend.IsTimeOperator name)
    (hbuildable : Buildable ⟨.builtin, b⟩ p.source? (.call name [x])) {u : α}
    (hx : Checks φ b b' p x u) : ∃ a, Checks φ b b' p (.call name [x]) a := by
  obtain ⟨⟨f, hf, himplementation⟩, -⟩ := buildable_call.mp hbuildable
  obtain rfl := Option.some.inj (hf.symm.trans (Vocabulary.functionOf?_time hname))
  obtain ⟨g, hg⟩ := Option.isSome_iff_exists.mp himplementation
  obtain ⟨g', hg', hvalues⟩ := hb.time hg
  obtain ⟨a, ha, ha'⟩ := hvalues p.memory u
  have hargs : List.Forall₂ (Yields ⟨.builtin, b⟩ p) [x] [u] := .cons hx.1 .nil
  have hargs' : List.Forall₂ (Yields ⟨.builtin, b'⟩ ⟨p.source?, φ ∘ p.memory⟩)
      [x.map number] [φ u] := .cons hx.2 .nil
  refine ⟨a, ?_, ?_⟩
  · refine .call (f := Vocabulary.linearInTime (Text.lowercase name)) (g := g) ?_ ?_ hargs ?_
    · exact Vocabulary.functionOf?_time hname
    · exact hg
    · exact ha
  · refine .call (f := Vocabulary.linearInTime (Text.lowercase name)) (g := g') ?_ ?_ hargs' ?_
    · exact Vocabulary.functionOf?_time hname
    · exact hg'
    · exact ha'

/-- **A guarded tree comes to the same number on checked numbers.** -/
theorem Guarded.exists_checks (hb : b.CheckedBy φ b') (he : Guarded b p e)
    (hbuildable : Buildable ⟨.builtin, b⟩ p.source? e) : ∃ a, Checks φ b b' p e a := by
  induction he with
  | constant c =>
    refine ⟨b.ofReal c, .ofReal c, ?_⟩
    rw [← hb.ofReal]
    exact .ofReal (number c)
  | var v => exact checks_var hb hbuildable
  | unary op _ ih =>
    obtain ⟨a, ha⟩ := ih (buildable_unary.mp hbuildable)
    exact ⟨_, checks_unary hb op ha⟩
  | binary hmod hpow _ _ ihx ihy =>
    obtain ⟨hx, hy⟩ := buildable_binary.mp hbuildable
    obtain ⟨u, hu⟩ := ihx hx
    obtain ⟨v, hv⟩ := ihy hy
    exact ⟨_, checks_binary hb hmod hpow hu hv⟩
  | power _ _ hexponent ihx ihy =>
    obtain ⟨hx, hy⟩ := buildable_binary.mp hbuildable
    obtain ⟨u, hu⟩ := ihx hx
    obtain ⟨v, hv⟩ := ihy hy
    obtain ⟨n, hn, rfl⟩ := hexponent v hv.1
    exact ⟨_, checks_power hb hn hu hv⟩
  | time hname _ ih =>
    obtain ⟨u, hu⟩ := ih ((buildable_call.mp hbuildable).2 _ List.mem_cons_self)
    exact checks_time hb hname hbuildable hu
  | conditional _ _ _ ihc iht ihf =>
    obtain ⟨hc, ht, hf⟩ := buildable_conditional.mp hbuildable
    obtain ⟨a, ha⟩ := ihc hc
    obtain ⟨u, hu⟩ := iht ht
    obtain ⟨v, hv⟩ := ihf hf
    exact ⟨_, checks_conditional hb ha hu hv⟩

/-! ### Parts -/

/-- A part of a tree, at any depth. -/
def IsPart (x e : Expr ℝ) : Prop := Relation.ReflTransGen (fun e x => x ∈ e.children) e x

/-- Parts of a guarded tree are guarded. -/
theorem Guarded.child (he : Guarded b p e) (hx : x ∈ e.children) : Guarded b p x := by
  cases he with
  | constant | var => exact absurd hx List.not_mem_nil
  | unary _ h => exact List.mem_singleton.mp hx ▸ h
  | binary _ _ h h' | power h h' =>
    obtain rfl | hx := List.mem_cons.mp hx
    · exact h
    · exact List.mem_singleton.mp hx ▸ h'
  | time _ h => exact List.mem_singleton.mp hx ▸ h
  | conditional hc ht hf =>
    simp only [children, List.mem_cons, List.not_mem_nil, or_false] at hx
    obtain rfl | rfl | rfl := hx
    · exact hc
    · exact ht
    · exact hf

/-- The parts of a guarded tree that can be built are such trees. -/
theorem Guarded.part (he : Guarded b p e) (hbuildable : Buildable ⟨.builtin, b⟩ p.source? e)
    (hx : IsPart x e) : Guarded b p x ∧ Buildable ⟨.builtin, b⟩ p.source? x := by
  induction hx with
  | refl => exact ⟨he, hbuildable⟩
  | tail _ hchild ih => exact ⟨ih.1.child hchild, ih.2.child hchild⟩

end Trees

/-! ### Divisors -/

/-- What a quotient or a power divides by: `guard` is applied to the divisor, and to the base
of a negative power before it is raised. -/
structure DividesGuarded {α : Type} [One α] [Mul α] [Div α] (computes : Expr ℝ → α → Prop)
    (guard : α → α) (kept : α → α → Prop) (ofInt : ℤ → α) (e : Expr ℝ) : Prop where
  /-- A quotient divides by the guarded divisor. -/
  quotient {x y : Expr ℝ} : e = .binary .div x y → ∃ u v, computes x u ∧ computes y v ∧
    computes e (u / guard v) ∧ kept v (guard v)
  /-- A power raises the base, guarded if the exponent is negative. -/
  power {x y : Expr ℝ} : e = .binary .pow x y → ∃ u, ∃ n : ℤ, n.natAbs ≤ 2147483647 ∧
    computes x u ∧ computes y (ofInt n) ∧
    computes e (integerPower (if n < 0 then guard u else u) (Int32.ofInt n)) ∧ kept u (guard u)

section Divisors

variable {α β σ S : Type} {b : Backend ℝ S α} {b' : Backend (Checked ℝ) S β} {φ : α → β}
  {p : Point S α} {e : Expr ℝ} {fudge : ℝ}

/-- The operators of a backend that guards its divisors. -/
theorem Guarded.dividesGuarded [One α] [Mul α] [Div α] {guard : α → α} {kept : α → α → Prop}
    (hb : b.CheckedBy φ b') (hdiv : ∀ u v, b.div u v = u / guard v)
    (hpow : ∀ u, ∀ n : ℤ, n.natAbs ≤ 2147483647 →
      b.pow u (b.ofReal n) = integerPower (if n < 0 then guard u else u) (Int32.ofInt n))
    (hkept : ∀ u, kept u (guard u)) (he : Guarded b p e)
    (hbuildable : Buildable ⟨.builtin, b⟩ p.source? e) :
    DividesGuarded (Yields ⟨.builtin, b⟩ p) guard kept (fun n => b.ofReal n) e where
  quotient {x y} hxy := by
    subst hxy
    obtain ⟨hx, hy⟩ := buildable_binary.mp hbuildable
    obtain ⟨u, hu, -⟩ := (he.child List.mem_cons_self).exists_checks hb hx
    obtain ⟨v, hv, -⟩ :=
      (he.child (List.mem_cons_of_mem _ List.mem_cons_self)).exists_checks hb hy
    refine ⟨u, v, hu, hv, ?_, hkept v⟩
    rw [← hdiv]
    exact hu.operator (by decide) hv
  power {x y} hxy := by
    subst hxy
    obtain ⟨hx, hy⟩ := buildable_binary.mp hbuildable
    cases he with
    | binary _ hnot => exact absurd rfl hnot
    | power hgx hgy hexponent =>
      obtain ⟨u, hu⟩ := hgx.exists_checks hb hx
      obtain ⟨v, hv⟩ := hgy.exists_checks hb hy
      obtain ⟨n, hn, rfl⟩ := hexponent v hv.1
      refine ⟨u, n, hn, hu.1, hv.1, ?_, hkept u⟩
      rw [← hpow u n hn]
      exact (checks_power hb hn hu hv).1

/-- A guarded tree computes the same with a steady host, on numbers and on checked numbers. -/
theorem Guarded.computes (hb : b.CheckedBy φ b') (hs : b.MultipliesOut) (hs' : b'.MultipliesOut)
    {host : Resolver σ S} {source? : Variable → Option S} (hhost : host.Steady source?)
    (state : σ) (memory : S → α) (he : Guarded b ⟨source?, memory⟩ e)
    (hbuildable : Buildable ⟨.builtin, b⟩ source? e) :
    ∃ a, Computes ⟨.builtin, b⟩ host state memory e a ∧
      Computes ⟨.builtin, b'⟩ host state (φ ∘ memory) (e.map number) (φ a) := by
  obtain ⟨a, ha, ha'⟩ := he.exists_checks hb hbuildable
  exact ⟨a, (computes_iff hs hhost).mpr ha, (computes_iff hs' hhost).mpr ha'⟩

/-- The name is written in small letters already. -/
theorem lowercase_idt : Text.lowercase "idt" = "idt" := by decide +kernel

/-- With a source of the frequency the time integral has values. -/
theorem implementation_integral (fudge : ℝ) (source : S) :
    (Backend.complex fudge (some source)).implementation (Vocabulary.linearInTime "idt") =
      some (.sourced source Backend.laplaceIntegral) := by
  have hlaplace : (Backend.laplace? (some source) "idt" : Option (Meaning ℝ S (Complex ℝ))) =
      some (.sourced source Backend.laplaceIntegral) := by
    simp [Backend.laplace?, lowercase_idt]
  exact congrArg (·.or none) hlaplace

/-- The time integral divides by the guarded frequency. -/
theorem yields_integral {laplace : Option S} {p : Point S (Complex ℝ)}
    {name : String} {y : Expr ℝ} (hname : Text.lowercase name = "idt")
    (hbuildable : Buildable ⟨.builtin, .complex fudge laplace⟩ p.source? (.call name [y]))
    {u : Complex ℝ} (hy : Yields ⟨.builtin, .complex fudge laplace⟩ p y u) :
    ∃ source, laplace = some source ∧
      Yields ⟨.builtin, .complex fudge laplace⟩ p (.call name [y])
        (u / guardComplex fudge (p.memory source)) := by
  have hfunction := Vocabulary.functionOf?_time (ρ := ℝ) (.inr hname)
  rw [hname] at hfunction
  obtain ⟨⟨f, hf, himplementation⟩, -⟩ := buildable_call.mp hbuildable
  obtain rfl := Option.some.inj (hf.symm.trans hfunction)
  cases laplace with
  | none => cases himplementation
  | some source =>
    have hargs : List.Forall₂ (Yields ⟨.builtin, .complex fudge (some source)⟩ p) [y] [u] :=
      .cons hy .nil
    refine ⟨source, rfl, .call (f := Vocabulary.linearInTime "idt")
      (g := .sourced source Backend.laplaceIntegral) ?_ ?_ hargs ?_⟩
    · exact hfunction
    · exact implementation_integral fudge source
    · rfl

/-- **No division is by zero.**  With a guard greater than zero let a guarded tree be
buildable, with real values or with complex ones.  Then each of its parts computes a value on
numbers and the same on checked numbers, on which a division by zero has no result.  The
divisor of a quotient, the base of a power with a negative exponent and the frequency that a
time integral reads are guarded, and are kept from zero that way. -/
theorem no_division_by_zero (hfudge : 0 < fudge) {host : Resolver σ S}
    {source? : Variable → Option S} (hhost : host.Steady source?) (state : σ) :
    (∀ (memory : S → ℝ) (e : Expr ℝ), Guarded (.real fudge) ⟨source?, memory⟩ e →
      Buildable ⟨.builtin, .real fudge⟩ source? e → ∀ x, IsPart x e →
      (∃ a, Computes ⟨.builtin, .real fudge⟩ host state memory x a ∧
        Computes ⟨.builtin, .real (number fudge)⟩ host state (number ∘ memory) (x.map number)
          (number a)) ∧
      DividesGuarded (Computes ⟨.builtin, .real fudge⟩ host state memory) (guardReal fudge)
        (fun u d => KeptFromZero fudge (ofReal u) (ofReal d)) (fun n => (n : ℝ)) x) ∧
    ∀ (laplace : Option S) (memory : S → Complex ℝ) (e : Expr ℝ),
      Guarded (.complex fudge laplace) ⟨source?, memory⟩ e →
      Buildable ⟨.builtin, .complex fudge laplace⟩ source? e → ∀ x, IsPart x e →
      (∃ a, Computes ⟨.builtin, .complex fudge laplace⟩ host state memory x a ∧
        Computes ⟨.builtin, .complex (number fudge) laplace⟩ host state
          (Complex.checked ∘ memory) (x.map number) a.checked) ∧
      DividesGuarded (Computes ⟨.builtin, .complex fudge laplace⟩ host state memory)
        (guardComplex fudge) (KeptFromZero fudge) (fun n => ofReal n) x ∧
      ∀ name y, x = .call name [y] → Text.lowercase name = "idt" →
        ∃ u source, laplace = some source ∧
          Computes ⟨.builtin, .complex fudge laplace⟩ host state memory y u ∧
          Computes ⟨.builtin, .complex fudge laplace⟩ host state memory x
            (u / guardComplex fudge (memory source)) ∧
          KeptFromZero fudge (memory source) (guardComplex fudge (memory source)) := by
  have hzero : Scalar.eq (0 : ℝ) 0 = true := Scalar.eq_iff.mpr rfl
  have hzero' : Scalar.eq (0 : Checked ℝ) 0 = true := hzero
  refine ⟨fun memory e he hbuildable x hx => ?_, fun laplace memory e he hbuildable x hx => ?_⟩
  · obtain ⟨hguarded, hbuildable⟩ := he.part hbuildable hx
    have hs := Backend.real_multipliesOut (S := S) fudge
    refine ⟨hguarded.computes (Backend.real_checkedBy hfudge) hs
      (Backend.real_multipliesOut _) hhost state memory hbuildable, ?_⟩
    rw [computes_eq_yields (s := ⟨.builtin, .real fudge⟩) hs hhost]
    exact hguarded.dividesGuarded (Backend.real_checkedBy hfudge) (fun _ _ => rfl)
      (fun u n hn => realPow_of_intCast fudge u hn) (keptFromZero_guardReal hfudge) hbuildable
  · obtain ⟨hguarded, hbuildable⟩ := he.part hbuildable hx
    have hs := Backend.complex_multipliesOut hzero fudge laplace
    refine ⟨hguarded.computes (Backend.complex_checkedBy hfudge laplace) hs
      (Backend.complex_multipliesOut hzero' _ _) hhost state memory hbuildable, ?_, ?_⟩
    · rw [computes_eq_yields (s := ⟨.builtin, .complex fudge laplace⟩) hs hhost]
      exact hguarded.dividesGuarded (Backend.complex_checkedBy hfudge laplace)
        (fun _ _ => rfl) (fun u n hn => complexPow_of_intCast fudge u hn)
        (keptFromZero_guardComplex hfudge) hbuildable
    · rintro name y rfl hname
      obtain ⟨u, hu, -⟩ := (hguarded.child List.mem_cons_self).exists_checks
        (Backend.complex_checkedBy hfudge laplace) (hbuildable.child List.mem_cons_self)
      obtain ⟨source, hsource, hcall⟩ := yields_integral hname hbuildable hu
      exact ⟨u, source, hsource, (computes_iff hs hhost).mpr hu, (computes_iff hs hhost).mpr hcall,
        keptFromZero_guardComplex hfudge (memory source)⟩

/-- Under a guard of `1/100` the tree `(1 / b) ^ -2` computes a number at `b = 0`, checked or
not, and the time integral of `b` divides by the guard while the source of the frequency
holds zero. -/
theorem no_division_by_zero_at_zero :
    (∃ a : ℝ, Computes ⟨.builtin, .real (1 / 100)⟩ (.recording some) [] (fun _ => 0)
        (.binary .pow (.binary .div (.constant 1) (.var (.named "b")))
          (.unary .minus (.constant 2))) a ∧
      Computes ⟨.builtin, .real (number (1 / 100))⟩ (.recording some) []
        (number ∘ fun _ => (0 : ℝ))
        (.binary .pow (.binary .div (.constant (number 1)) (.var (.named "b")))
          (.unary .minus (.constant (number 2)))) (number a)) ∧
    ∃ u, Computes ⟨.builtin, .complex (1 / 100 : ℝ) (some (.named "s"))⟩ (.recording some) []
        (fun v => if v = .named "s" then ⟨0, 0⟩ else Complex.i) (.call "idt" [.var (.named "b")])
        (u / guardComplex (1 / 100) ⟨0, 0⟩) ∧
      KeptFromZero (1 / 100) ⟨0, 0⟩ (guardComplex (1 / 100) ⟨0, 0⟩) := by
  have hfudge : (0 : ℝ) < 1 / 100 := by norm_num
  obtain ⟨hreal, hcomplex⟩ := no_division_by_zero hfudge
    (Resolver.steady_recording (S := Variable) some) []
  constructor
  · have hexponent : ∀ a, Yields ⟨.builtin, .real (1 / 100)⟩
        (⟨some, fun _ => 0⟩ : Point Variable ℝ) (.unary .minus (.constant 2)) a →
        ∃ n : ℤ, n.natAbs ≤ 2147483647 ∧ a = n := by
      intro a ha
      refine ⟨-2, by decide, ?_⟩
      rw [ha.unique ((Yields.ofReal 2).unary .minus)]
      change -(2 : ℝ) = ((-2 : ℤ) : ℝ)
      norm_num
    have hquotient : Guarded (.real (1 / 100)) (⟨some, fun _ => 0⟩ : Point Variable ℝ)
        (.binary .div (.constant 1) (.var (.named "b"))) :=
      .binary (by decide) (by decide) (.constant 1) (.var (.named "b"))
    obtain ⟨hcomputes, -⟩ := hreal (fun _ => 0) _
      (.power hquotient (.unary .minus (.constant 2)) hexponent)
      (buildable_binary.mpr ⟨buildable_binary.mpr ⟨buildable_constant 1,
        buildable_var.mpr (.inl ⟨_, rfl⟩)⟩, buildable_unary.mpr (buildable_constant 2)⟩) _ .refl
    exact hcomputes
  · have hbuildable : Buildable ⟨.builtin, .complex (1 / 100 : ℝ) (some (.named "s"))⟩ some
        (.call "idt" [.var (.named "b")]) := by
      refine buildable_call.mpr ⟨⟨_, Vocabulary.functionOf?_time (.inr lowercase_idt), ?_⟩, ?_⟩
      · rw [lowercase_idt]
        exact Option.isSome_of_eq_some (implementation_integral _ _)
      · exact List.forall_mem_singleton.mpr (buildable_var.mpr (.inl ⟨_, rfl⟩))
    obtain ⟨-, -, hintegral⟩ := hcomplex (some (.named "s"))
      (fun v => if v = .named "s" then ⟨0, 0⟩ else Complex.i) _
      (.time (.inr lowercase_idt) (.var (.named "b"))) hbuildable _ .refl
    obtain ⟨u, source, hsource, -, hcall, hkept⟩ := hintegral _ _ rfl lowercase_idt
    obtain rfl := Option.some.inj hsource
    rw [if_pos rfl] at hcall hkept
    exact ⟨u, hcall, hkept⟩

end Divisors
end Expr
end CircuitExpr
