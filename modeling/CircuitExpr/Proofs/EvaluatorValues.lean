/-
# Evaluators have values

An evaluator fails only where a function asks for more arguments than it is given.  The
build looks a function up by its name and its number of arguments, and the backend then
chooses what is run.  Two things must therefore agree: what the vocabulary says of the
function, and what the backend takes for it.

They agree for every vocabulary that a host can make out of the built-in one or the empty
one by adding functions that have values for as many arguments as they say they take, with
one exception.  With a source of the frequency the backend of complex values takes `ddt` and
`idt` by their names, whatever the vocabulary says of them, and both look at a first argument.
A host that adds a function of such a name without arguments gets calls of it that can be
built and never have a value.
-/

import Mathlib
import CircuitExpr.Proofs.DerivativesBuild

namespace CircuitExpr

/-! ### Functions with values -/

/-- The function has a value for any arguments of this number. -/
def Implementation.TotalFor {ρ α : Type} (g : Implementation ρ α) (arity : Nat) : Prop :=
  ∀ fudge args, args.length = arity → ∃ x, g fudge args = some x

namespace Implementation

variable {ρ α : Type}

/-- A function of one value has a value for one argument. -/
theorem totalFor_unary (f : α → α) : TotalFor (unary f : Implementation ρ α) 1 := by
  intro fudge args hargs
  obtain ⟨x, rfl⟩ := List.length_eq_one_iff.mp hargs
  exact ⟨f x, rfl⟩

/-- A function of two values has a value for two arguments. -/
theorem totalFor_binary (f : α → α → α) : TotalFor (binary f : Implementation ρ α) 2 := by
  intro fudge args hargs
  obtain ⟨x, y, rfl⟩ := List.length_eq_two.mp hargs
  exact ⟨f x y, rfl⟩

/-- A function guarded against division by zero has a value for two arguments. -/
theorem totalFor_guarded (f : ρ → α → α → α) : TotalFor (guarded f) 2 := by
  intro fudge args hargs
  obtain ⟨x, y, rfl⟩ := List.length_eq_two.mp hargs
  exact ⟨f fudge x y, rfl⟩

/-- A function of three values has a value for three arguments. -/
theorem totalFor_ternary (f : α → α → α → α) : TotalFor (ternary f : Implementation ρ α) 3 := by
  intro fudge args hargs
  obtain ⟨x, y, z, rfl⟩ := List.length_eq_three.mp hargs
  exact ⟨f x y z, rfl⟩

end Implementation

/-- The meanings of the function have values for as many arguments as it takes. -/
structure NamedFunction.Total {ρ : Type} (f : NamedFunction ρ) : Prop where
  /-- On real numbers. -/
  real : f.RealTotal
  /-- On complex numbers. -/
  complex (g : Implementation ρ (Complex ρ)) : f.complex = some g → g.TotalFor f.arity

namespace Vocabulary

variable {ρ : Type} [Scalar ρ]

/-- The built-in functions have values on either kind of numbers. -/
theorem total_of_mem_builtinFunctions {f : NamedFunction ρ} (hf : f ∈ builtinFunctions) :
    f.Total := by
  refine ⟨realTotal_of_mem_builtinFunctions hf, ?_⟩
  revert f
  simp only [builtinFunctions, roundings, List.cons_append, List.nil_append,
    List.forall_mem_cons]
  and_intros
  all_goals first
    | exact List.forall_mem_nil _
    | rintro _ ⟨⟩ <;> first
      | exact Implementation.totalFor_unary _
      | exact Implementation.totalFor_binary _
      | exact Implementation.totalFor_guarded _
      | exact Implementation.totalFor_ternary _

/-- The vocabularies that a host can make, with functions that have values for as many
arguments as they take. -/
inductive Hosted : Vocabulary ρ → Prop
  /-- The vocabulary without names. -/
  | empty : Hosted .empty
  /-- The built-in vocabulary. -/
  | builtin : Hosted .builtin
  /-- With a function added, or put in the place of another one. -/
  | register {w f} : Hosted w → f.Total → Hosted (w.register f)
  /-- With a constant added, or put in the place of another one. -/
  | define {w} (name value) : Hosted w → Hosted (w.define name value)

/-- What a host's vocabulary finds has values, and the name that it was looked for by. -/
theorem Hosted.function? {w : Vocabulary ρ} (hw : w.Hosted) {name : String}
    {f : NamedFunction ρ} (hf : w.function? name = some f) :
    f.Total ∧ Text.lowercase f.name = Text.lowercase name := by
  induction hw with
  | empty => cases hf
  | builtin =>
    obtain ⟨hmem, hname⟩ := builtin_function?_eq_some.mp hf
    exact ⟨total_of_mem_builtinFunctions hmem, (lowercase_name hmem).trans hname⟩
  | @register w g _ hg ih =>
    rw [function?_register] at hf
    split at hf
    · rename_i hname
      cases hf
      exact ⟨hg, hname⟩
    · exact ih hf
  | define _ _ _ ih => exact ih hf

end Vocabulary

/-! ### Evaluators whose calls are served -/

/-- What the backend takes for the function has a value for any arguments of this number,
whatever the sources hold. -/
def Backend.Serves {ρ S α : Type} (b : Backend ρ S α) (f : NamedFunction ρ) (arity : Nat) :
    Prop :=
  ∃ g, b.implementation f = some g ∧ ∀ memory, (g.values memory).TotalFor arity

namespace Evaluator

variable {ρ S α σ : Type} {b : Backend ρ S α}

mutual

/-- No call of the evaluator misses an argument. -/
def Served (b : Backend ρ S α) : Evaluator ρ S α → Prop
  | .value _ | .read _ => True
  | .neg x | .not x | .square x | .powi x _ => Served b x
  | .binary _ x y => Served b x ∧ Served b y
  | .call f args => b.Serves f args.length ∧ ServedAll b args
  | .conditional c t f => Served b c ∧ Served b t ∧ Served b f

/-- No call of the evaluators misses an argument. -/
def ServedAll (b : Backend ρ S α) : List (Evaluator ρ S α) → Prop
  | [] => True
  | x :: xs => Served b x ∧ ServedAll b xs

end

variable [Scalar ρ]

mutual

/-- **An evaluator whose calls are served has a value**, whatever its sources hold. -/
theorem exists_value?_of_served (memory : S → α) :
    ∀ x : Evaluator ρ S α, Served b x → ∃ v, (x.run b memory).value? = some v
  | .value x, _ => ⟨x, by rw [run]; rfl⟩
  | .read source, _ => ⟨memory source, by rw [run]; rfl⟩
  | .neg x, h => by
    rw [Served] at h
    obtain ⟨v, hv⟩ := exists_value?_of_served memory x h
    exact ⟨b.neg v, by simp [run, hv]⟩
  | .not x, h => by
    rw [Served] at h
    obtain ⟨v, hv⟩ := exists_value?_of_served memory x h
    exact ⟨b.ofBool (!b.isTrue v), by simp [run, hv]⟩
  | .binary op x y, h => by
    rw [Served] at h
    obtain ⟨v, hv⟩ := exists_value?_of_served memory x h.1
    obtain ⟨w, hw⟩ := exists_value?_of_served memory y h.2
    by_cases hdecides : decides b op v = true
    · exact ⟨b.ofBool (b.isTrue v), by simp [run, hv, hdecides]⟩
    · exact ⟨combine b op v w, by simp [run, hv, hw, hdecides]⟩
  | .square x, h => by
    rw [Served] at h
    obtain ⟨v, hv⟩ := exists_value?_of_served memory x h
    exact ⟨b.mul v v, by simp [run, hv]⟩
  | .powi x n, h => by
    rw [Served] at h
    obtain ⟨v, hv⟩ := exists_value?_of_served memory x h
    exact ⟨b.powi v n, by simp [run, hv]⟩
  | .call f args, h => by
    rw [Served] at h
    obtain ⟨⟨g, hg, htotal⟩, hargs⟩ := h
    obtain ⟨vs, hvs, hlength⟩ := exists_values?_of_served memory args hargs
    obtain ⟨v, hv⟩ := htotal memory b.fudge vs hlength
    exact ⟨v, by simp [run, hvs, hg, hv]⟩
  | .conditional c t f, h => by
    rw [Served] at h
    obtain ⟨v, hv⟩ := exists_value?_of_served memory c h.1
    by_cases htrue : b.isTrue v = true
    · obtain ⟨w, hw⟩ := exists_value?_of_served memory t h.2.1
      exact ⟨w, by simp [run, hv, hw, htrue]⟩
    · obtain ⟨w, hw⟩ := exists_value?_of_served memory f h.2.2
      exact ⟨w, by simp [run, hv, hw, htrue]⟩

/-- Evaluators whose calls miss no argument have a value each. -/
theorem exists_values?_of_served (memory : S → α) :
    ∀ xs : List (Evaluator ρ S α), ServedAll b xs →
      ∃ vs, (runAll b memory xs).value? = some vs ∧ vs.length = xs.length
  | [], _ => ⟨[], by rw [runAll]; rfl, rfl⟩
  | x :: xs, h => by
    rw [ServedAll] at h
    obtain ⟨v, hv⟩ := exists_value?_of_served memory x h.1
    obtain ⟨vs, hvs, hlength⟩ := exists_values?_of_served memory xs h.2
    exact ⟨v :: vs, by simp [runAll, hv, hvs], congrArg Nat.succ hlength⟩

end

/-! ### What is built -/

variable {s : Setting ρ S α} {source? : Variable → Option S}

omit [Scalar ρ] in
/-- What a variable is replaced by calls nothing. -/
theorem served_replacement {v : Variable} {answer : Option S} {x : Evaluator ρ S α}
    (h : replacement s v answer = .ok x) : Served s.backend x := by
  cases answer with
  | some source =>
    cases h
    trivial
  | none =>
    simp only [replacement, fallback] at h
    split at h
    · split at h
      · cases h
        trivial
      · cases h
    · cases h

omit [Scalar ρ] in
/-- An operator before an operand misses no argument if the operand misses none. -/
theorem served_signed {x : Evaluator ρ S α} (op : UnaryOp) (h : Served b x) :
    Served b (signed op x) := by
  cases op <;> exact h

/-- A power with a known exponent misses no argument if its base misses none. -/
theorem served_power {x : Evaluator ρ S α} (n : Int32) (h : Served b x) :
    Served b (power b x n) := by
  unfold power
  split
  · trivial
  · split
    · exact h
    · split <;> exact h

/-- What the vocabulary finds for a call of the tree is served by the backend. -/
def ServesCalls (s : Setting ρ S α) (e : Expr ρ) : Prop :=
  ∀ name arity f, (name, arity) ∈ e.calls → s.vocabulary.functionOf? name arity = some f →
    (s.backend.implementation f).isSome = true → s.backend.Serves f arity

/-- The translations of some trees miss no argument if those of each miss none. -/
theorem servedAll_translateAll {es : List (Expr ρ)}
    (hes : ∀ e ∈ es, ∀ x, translate s source? e = .ok x → Served (S := S) s.backend x) :
    ∀ xs, translateAll s source? es = .ok xs → xs.length = es.length ∧ ServedAll s.backend xs := by
  induction es with
  | nil =>
    intro xs h
    cases h
    exact ⟨rfl, trivial⟩
  | cons e es ih =>
    intro xs h
    obtain ⟨x, rest, hx, hrest, rfl⟩ := translateAll_cons_eq_ok.mp h
    obtain ⟨hlength, hserved⟩ := ih (fun x hx => hes x (List.mem_cons_of_mem _ hx)) rest hrest
    exact ⟨congrArg Nat.succ hlength, hes e List.mem_cons_self x hx, hserved⟩

/-- **What is built from a tree is served** if the calls of the tree are. -/
theorem served_translate {e : Expr ρ} (hserves : ServesCalls s e) :
    ∀ x : Evaluator ρ S α, translate s source? e = .ok x → Served s.backend x := by
  induction e using Expr.induction with
  | constant c =>
    intro x h
    cases h
    trivial
  | var v => exact fun x h => served_replacement h
  | unary op e ih =>
    intro x h
    obtain ⟨y, hy, rfl⟩ := translate_unary_eq_ok.mp h
    exact served_signed op (ih hserves y hy)
  | binary op e f ihe ihf =>
    have hleft : ServesCalls s e := fun name arity g hcall =>
      hserves name arity g (List.mem_append_left _ hcall)
    have hright : ServesCalls s f := fun name arity g hcall =>
      hserves name arity g (List.mem_append_right _ hcall)
    intro x h
    cases hn : fixedExponent? op f with
    | some n =>
      obtain ⟨y, hy, rfl⟩ := (translate_power_eq_ok hn).mp h
      exact served_power n (ihe hleft y hy)
    | none =>
      obtain ⟨y, z, hy, hz, rfl⟩ := (translate_binary_eq_ok hn).mp h
      exact ⟨ihe hleft y hy, ihf hright z hz⟩
  | call name args ih =>
    have hargs : ∀ e ∈ args, ServesCalls s e := fun e he called arity g hcall =>
      hserves called arity g (List.mem_cons_of_mem _ (Expr.mem_callsAll.mpr ⟨e, he, hcall⟩))
    intro x h
    obtain ⟨f, xs, hf, hxs, rfl⟩ := translate_call_eq_ok.mp h
    obtain ⟨hfunction, g, hg⟩ := callee_eq_ok hf
    obtain ⟨hlength, hserved⟩ := servedAll_translateAll (fun e he => ih e he (hargs e he)) xs hxs
    refine ⟨?_, hserved⟩
    rw [hlength]
    exact hserves name args.length f List.mem_cons_self hfunction (Option.isSome_of_eq_some hg)
  | conditional c t f ihc iht ihf =>
    have hcalls : ServesCalls s c ∧ ServesCalls s t ∧ ServesCalls s f := by
      refine ⟨fun name arity g hcall => hserves name arity g ?_,
        fun name arity g hcall => hserves name arity g ?_,
        fun name arity g hcall => hserves name arity g ?_⟩
      · exact List.mem_append_left _ (List.mem_append_left _ hcall)
      · exact List.mem_append_left _ (List.mem_append_right _ hcall)
      · exact List.mem_append_right _ hcall
    intro x h
    obtain ⟨y, z, w, hy, hz, hw, rfl⟩ := translate_conditional_eq_ok.mp h
    exact ⟨ihc hcalls.1 y hy, iht hcalls.2.1 z hz, ihf hcalls.2.2 w hw⟩

/-- **What a host gets from the build has a value**, if the calls of the tree are served. -/
theorem exists_value?_of_build {host : Resolver σ S} {e : Expr ρ} {state : σ}
    {x : Evaluator ρ S α} (hserves : ServesCalls s e) (h : (build s host e state).1 = .ok x)
    (memory : S → α) : ∃ v, x.value? s.backend memory = some v := by
  have hfits : (⟨state, .empty⟩ : Progress ρ S α σ).Fits s ⟨state, .empty⟩ :=
    ⟨rfl, fun _ => rfl⟩
  have hbuild : compile s host e ⟨state, .empty⟩ = (.ok x, (compile s host e ⟨state, .empty⟩).2) := by
    rw [← h]
    rfl
  obtain ⟨-, htranslate⟩ := compile_eq_translate e hfits hbuild
  exact exists_value?_of_served memory x (served_translate hserves x (htranslate _ fun _ _ hv => hv))

/-- A call without arguments is built if its function is there. -/
theorem build_call_nil (s : Setting ρ S α) (host : Resolver σ S) (name : String) (state : σ) :
    (build s host (.call name []) state).1 = (callee s name 0).map fun f => .call f [] := by
  show (compile s host (.call name []) ⟨state, .empty⟩).1 = _
  rw [compile, List.length_nil]
  cases callee s name 0 with
  | error err => rfl
  | ok f =>
    simp only [compileAll]
    rfl

end Evaluator

/-! ### What the backends take for a function -/

namespace Backend

variable {ρ S : Type} [Scalar ρ] {fudge : ρ} {w : Vocabulary ρ} {name : String} {arity : Nat}
  {f : NamedFunction ρ}

/-- The name is one that the backend of complex values knows itself if there is a source of
the frequency. -/
def IsTimeOperator (name : String) : Prop :=
  Text.lowercase name = "ddt" ∨ Text.lowercase name = "idt"

/-- The operators in time have a value for any argument, and none without one. -/
theorem laplace?_eq_some {laplace : Option S} {g : Meaning ρ S (Complex ρ)}
    (h : laplace? laplace name = some g) (memory : S → Complex ρ) :
    (∀ fudge z zs, ∃ r, g.values memory fudge (z :: zs) = some r) ∧
      ∀ fudge, g.values memory fudge [] = none := by
  unfold laplace? at h
  split at h
  · cases h
  · dsimp only at h
    split at h
    · cases h
      exact ⟨fun _ _ _ => ⟨_, rfl⟩, fun _ => rfl⟩
    · split at h
      · cases h
        exact ⟨fun _ _ _ => ⟨_, rfl⟩, fun _ => rfl⟩
      · cases h

/-- No other function has a meaning by the source of the frequency. -/
theorem laplace?_eq_none (laplace : Option S) (h : ¬IsTimeOperator name) :
    (laplace? laplace name : Option (Meaning ρ S (Complex ρ))) = none := by
  cases laplace with
  | none => rfl
  | some source => simp only [laplace?, if_neg (mt Or.inl h), if_neg (mt Or.inr h)]

/-- The operators in time have a meaning when there is a source of the frequency. -/
theorem exists_laplace? (source : S) (h : IsTimeOperator name) :
    ∃ g : Meaning ρ S (Complex ρ), laplace? (some source) name = some g := by
  by_cases hddt : Text.lowercase name = "ddt"
  · exact ⟨.sourced source laplaceDerivative, by simp only [laplace?, if_pos hddt]⟩
  · have hidt := h.resolve_left hddt
    exact ⟨.sourced source laplaceIntegral, by simp only [laplace?, if_neg hddt, if_pos hidt]⟩

/-- The backend of real values takes the function as the vocabulary has it. -/
theorem serves_real (hw : w.Hosted) (hf : w.functionOf? name arity = some f)
    (himplementation : ((real fudge : Backend ρ S ρ).implementation f).isSome = true) :
    (real fudge : Backend ρ S ρ).Serves f arity := by
  obtain ⟨hfound, rfl⟩ := Vocabulary.functionOf?_eq_some.mp hf
  rw [isSome_real_implementation] at himplementation
  obtain ⟨g, hg⟩ := Option.isSome_iff_exists.mp himplementation
  exact ⟨.plain g, real_implementation_eq_some.mpr ⟨g, hg, rfl⟩,
    fun _ => (hw.function? hfound).1.real g hg⟩

/-- The backend of complex values does so too, unless it knows the name itself; then it
needs an argument. -/
theorem serves_complex {laplace : Option S} (hw : w.Hosted)
    (hf : w.functionOf? name arity = some f)
    (himplementation : ((complex fudge laplace).implementation f).isSome = true)
    (hargument : (laplace? laplace f.name : Option (Meaning ρ S (Complex ρ))) = none ∨
      0 < arity) :
    (complex fudge laplace).Serves f arity := by
  obtain ⟨hfound, rfl⟩ := Vocabulary.functionOf?_eq_some.mp hf
  cases hlaplace : (laplace? laplace f.name : Option (Meaning ρ S (Complex ρ))) with
  | none =>
    have hcomplex : (complex fudge laplace).implementation f = f.complex.map .plain := by
      simp only [complex, hlaplace, Option.none_or]
    rw [hcomplex, Option.isSome_map] at himplementation
    obtain ⟨g, hg⟩ := Option.isSome_iff_exists.mp himplementation
    exact ⟨.plain g, by rw [hcomplex, hg, Option.map_some],
      fun _ => (hw.function? hfound).1.complex g hg⟩
  | some g =>
    have hpos : 0 < f.arity := by
      rcases hargument with hnone | hpos
      · rw [hlaplace] at hnone
        cases hnone
      · exact hpos
    refine ⟨g, by simp only [complex, hlaplace, Option.some_or], fun memory fudge args hargs => ?_⟩
    cases args with
    | nil => exact absurd hargs.symm (Nat.ne_of_gt hpos)
    | cons z zs => exact (laplace?_eq_some hlaplace memory).1 fudge z zs

end Backend

open Backend (IsTimeOperator)

variable {ρ S σ : Type} [Scalar ρ]

/-- With a source of the frequency an operator in time has no value without an argument. -/
theorem value?_timeOperator {f : NamedFunction ρ} (hname : IsTimeOperator f.name) (fudge : ρ)
    (source : S) (memory : S → Complex ρ) :
    (Evaluator.call f [] : Evaluator ρ S (Complex ρ)).value? (.complex fudge (some source)) memory =
      none := by
  obtain ⟨g, hg⟩ := Backend.exists_laplace? (ρ := ρ) source hname
  have himplementation : (Backend.complex fudge (some source)).implementation f = some g := by
    simp only [Backend.complex, hg, Option.some_or]
  simp only [Evaluator.value?, Evaluator.run, Evaluator.runAll, Evaluation.value?_bind,
    Evaluation.value?_pure, Option.bind_some, himplementation, Meaning.value?_call]
  exact (Backend.laplace?_eq_some hg memory).2 fudge

/-- **Evaluators have values.**  Let a host make its vocabulary out of the built-in one or the
empty one, with functions that have values for as many arguments as they take.  Whatever it
builds has a value whenever it is run: with real values, with complex values without a source
of the frequency, and with complex values and such a source if no operator in time is called
without arguments.  A call of the latter kind can be built if the vocabulary has a function for it, and
then it never has a value. -/
theorem evaluators_have_values {w : Vocabulary ρ} (hw : w.Hosted) (host : Resolver σ S) (state : σ) :
    (∀ fudge e x, (Evaluator.build ⟨w, .real fudge⟩ host e state).1 = .ok x →
      ∀ memory, ∃ v, x.value? (.real fudge) memory = some v) ∧
    (∀ fudge laplace e x,
      (Evaluator.build ⟨w, .complex fudge laplace⟩ host e state).1 = .ok x →
      (laplace = none ∨ ∀ name, (name, 0) ∈ e.calls → ¬IsTimeOperator name) →
      ∀ memory, ∃ v, x.value? (.complex fudge laplace) memory = some v) ∧
    ∀ fudge source name, IsTimeOperator name → ∀ x,
      (Evaluator.build ⟨w, .complex fudge (some source)⟩ host (.call name []) state).1 = .ok x →
      ∀ memory, x.value? (.complex fudge (some source)) memory = none := by
  refine ⟨fun fudge e x hx => ?_, fun fudge laplace e x hx hcalls => ?_,
    fun fudge source name hname x hx memory => ?_⟩
  · refine Evaluator.exists_value?_of_build (fun name arity f _ hf himplementation => ?_) hx
    exact Backend.serves_real hw hf himplementation
  · refine Evaluator.exists_value?_of_build (fun name arity f hcall hf himplementation => ?_) hx
    refine Backend.serves_complex hw hf himplementation ?_
    rcases hcalls with rfl | hcalls
    · exact .inl rfl
    · rcases Nat.eq_zero_or_pos arity with rfl | hpos
      · have hlower := (hw.function? (Vocabulary.functionOf?_eq_some.mp hf).1).2
        refine .inl (Backend.laplace?_eq_none laplace ?_)
        rw [IsTimeOperator, hlower]
        exact hcalls name hcall
      · exact .inr hpos
  · rw [Evaluator.build_call_nil] at hx
    cases hcallee : Evaluator.callee ⟨w, .complex fudge (some source)⟩ name 0 with
    | error err =>
      rw [hcallee] at hx
      cases hx
    | ok f =>
      rw [hcallee] at hx
      cases hx
      obtain ⟨hf, -⟩ := Evaluator.callee_eq_ok hcallee
      have hlower := (hw.function? (Vocabulary.functionOf?_eq_some.mp hf).1).2
      exact value?_timeOperator (by rwa [IsTimeOperator, hlower]) fudge source memory

/-- A function without arguments under the name of the time derivative, worth the guard
against division by zero. -/
def constantDdt : NamedFunction Double :=
  ⟨"ddt", 0, none, some fun fudge _ => some (Complex.ofReal fudge), none⟩

/-- The vocabulary of this function alone. -/
def constantDdtVocabulary : Vocabulary Double := Vocabulary.empty.register constantDdt

/-- The vocabulary is one that a host can make: its function has a value for no arguments. -/
theorem hosted_constantDdt : constantDdtVocabulary.Hosted :=
  .register .empty
    { real := by rintro _ ⟨⟩
      complex := by
        rintro _ ⟨⟩ fudge args -
        exact ⟨Complex.ofReal fudge, rfl⟩ }

/-- The host that knows no variable. -/
def nothingKnown : Resolver Unit Unit := fun _ state => (none, state)

/-- The name of the host function is that of an operator in time. -/
theorem isTimeOperator_ddt : IsTimeOperator "ddt" := by
  have hlower : Text.lowercase "ddt" = "ddt" := by decide +kernel
  exact .inl hlower

/-- Calls of the function are built, with a source of the frequency and without. -/
theorem build_constantDdt (laplace : Option Unit) :
    (Evaluator.build ⟨constantDdtVocabulary, .complex Backend.defaultFudge laplace⟩ nothingKnown
      (.call "ddt" []) ()).1 = .ok (.call constantDdt []) := by
  have hfound : constantDdtVocabulary.functionOf? "ddt" 0 = some constantDdt := by
    rw [Vocabulary.functionOf?_eq_some, constantDdtVocabulary, Vocabulary.function?_register]
    exact ⟨if_pos rfl, rfl⟩
  have himplementation : ∃ g,
      (Backend.complex Backend.defaultFudge laplace).implementation constantDdt = some g := by
    cases hlaplace : (Backend.laplace? laplace "ddt" : Option (Meaning Double Unit _)) with
    | none =>
      refine ⟨.plain fun fudge _ => some (Complex.ofReal fudge), ?_⟩
      simp only [Backend.complex, constantDdt, hlaplace, Option.none_or, Option.map_some]
    | some g =>
      exact ⟨g, by simp only [Backend.complex, constantDdt, hlaplace, Option.some_or]⟩
  obtain ⟨g, hg⟩ := himplementation
  rw [Evaluator.build_call_nil]
  simp only [Evaluator.callee, hfound, hg]
  rfl

/-- The function has its value without a source of the frequency and none with one. -/
theorem constantDdt_values :
    (∃ v, (Evaluator.call constantDdt [] : Evaluator Double Unit (Complex Double)).value?
      (.complex Backend.defaultFudge none) (fun _ => 0) = some v) ∧
    (Evaluator.call constantDdt [] : Evaluator Double Unit (Complex Double)).value?
      (.complex Backend.defaultFudge (some ())) (fun _ => 1) = none := by
  obtain ⟨-, hvalue, hnone⟩ := evaluators_have_values hosted_constantDdt nothingKnown ()
  exact ⟨hvalue Backend.defaultFudge none _ _ (build_constantDdt none) (.inl rfl) _,
    hnone Backend.defaultFudge () "ddt" isTimeOperator_ddt _ (build_constantDdt (some ())) _⟩

/-- Not everything that is built has a value. -/
theorem not_all_evaluators_have_values :
    ¬∀ (w : Vocabulary Double), w.Hosted → ∀ laplace e (x : Evaluator Double Unit _),
      (Evaluator.build ⟨w, .complex Backend.defaultFudge laplace⟩ nothingKnown e ()).1 = .ok x →
      ∀ memory, ∃ v, x.value? (.complex Backend.defaultFudge laplace) memory = some v := by
  intro h
  obtain ⟨v, hv⟩ := h constantDdtVocabulary hosted_constantDdt (some ()) (.call "ddt" []) _
    (build_constantDdt (some ())) fun _ => 1
  rw [value?_timeOperator isTimeOperator_ddt] at hv
  cases hv

end CircuitExpr
