/-
# Running a built evaluator is interpreting the tree

Building an evaluator asks the host, remembers its answers and multiplies out powers
with a constant integer exponent; running it knows nothing of the tree any more.
The two together do what the interpreter does in one go, in value and in what is
read (`build_run_eq_interpret`).

The argument has two halves.  `translate` is the build without its state, the
sources of the variables given.  A build that succeeds has computed the translation
under the answers that the host gave on the way (`compile_eq_translate`): the
progress of the build and the answers `Fit`, and asking for more variables does not
change earlier answers.  And a translation runs as the tree is interpreted
(`translate_run`), where a backend has to agree with itself on powers: multiplying
out must be what its power does at an integer (`Backend.MultipliesOut`).
-/

import CircuitExpr.Backend.Complex
import CircuitExpr.Backend.Real
import CircuitExpr.Double
import CircuitExpr.Proofs.Interpreter
import CircuitExpr.Vocabulary.Builtin

namespace CircuitExpr

/-! ### Attempts and results -/

/-- An attempt that follows on another comes out if both do, one after the other. -/
theorem Attempt.andThen_eq_ok {ε σ β γ : Type} {x : Attempt ε σ β} {f : β → Attempt ε σ γ}
    {p q : σ} {c : γ} :
    andThen x f p = (.ok c, q) ↔ ∃ b r, x p = (.ok b, r) ∧ f b r = (.ok c, q) := by
  unfold andThen
  rcases h : x p with ⟨_ | b, r⟩
  · simp
  · simp only [Prod.mk.injEq, Except.ok.injEq]
    constructor
    · exact fun hf => ⟨b, r, ⟨rfl, rfl⟩, hf⟩
    · rintro ⟨_, _, ⟨rfl, rfl⟩, hf⟩
      exact hf

/-- A computation that follows on another comes out if both do. -/
theorem bind_eq_ok {ε β γ : Type} {x : Except ε β} {f : β → Except ε γ} {c : γ} :
    x >>= f = .ok c ↔ ∃ b, x = .ok b ∧ f b = .ok c := by
  cases x <;> simp [Bind.bind, Except.bind]

/-- Nothing is read for a value that is given. -/
theorem Evaluation.pure_bind {S α β : Type} (x : α) (f : α → Evaluation S β) :
    (Pure.pure x : Evaluation S α) >>= f = f x := by
  change bind (pure x) f = f x
  simp only [bind, pure]
  rcases f x with _ | ⟨y, reads⟩ <;> rfl

/-- To return the value of an evaluation adds nothing. -/
theorem Evaluation.bind_pure {S α : Type} (x : Evaluation S α) : x >>= Pure.pure = x := by
  change bind x pure = x
  rcases x with _ | ⟨a, reads⟩
  · rfl
  · exact congrArg (fun l => some (a, l)) (List.append_nil reads)

/-! ### Powers that are multiplied out -/

/-- The value of a power with the constant integer exponent `n`, not zero, as it is
multiplied out. -/
def Backend.multiplyOut {ρ S α : Type} (b : Backend ρ S α) (x : α) (n : Int32) : α :=
  if n = 1 then x else if n = 2 then b.mul x x else b.powi x n

/-- A power with an integer exponent is what multiplying out gives. -/
def Backend.MultipliesOut {ρ S α : Type} [Scalar ρ] (b : Backend ρ S α) : Prop :=
  ∀ (c : ρ) (n : Int32), integerExponent? c = some n → n ≠ 0 →
    ∀ x, b.pow x (b.ofReal c) = b.multiplyOut x n

/-- A real power looks for an integer exponent first. -/
theorem Backend.real_multipliesOut {ρ S : Type} [Scalar ρ] (fudge : ρ) :
    (Backend.real fudge : Backend ρ S ρ).MultipliesOut := by
  intro c n hn hn0 x
  simp only [multiplyOut, real, realPow, id, hn]
  by_cases h1 : n = 1
  · subst h1
    rfl
  by_cases h2 : n = 2
  · subst h2
    rfl
  simp [h1, h2]

/-- A complex power does so where the exponent is real. -/
theorem Backend.complex_multipliesOut {ρ S : Type} [Scalar ρ]
    (h0 : Scalar.eq (0 : ρ) 0 = true) (fudge : ρ) (laplace : Option S) :
    (Backend.complex fudge laplace).MultipliesOut := by
  intro c n hn hn0 z
  simp only [multiplyOut, complex, complexPow, Complex.ofReal, h0, if_true, hn]
  by_cases h1 : n = 1
  · subst h1
    rfl
  by_cases h2 : n = 2
  · subst h2
    rfl
  simp [h1, h2]

/-- The backends that there are. -/
inductive Backend.Standard {S : Type} : {α : Type} → Backend Double S α → Prop
  /-- Real values. -/
  | real (fudge : Double) : Standard (.real fudge)
  /-- Complex values, with a source of the frequency or without one. -/
  | complex (fudge : Double) (laplace : Option S) : Standard (.complex fudge laplace)

/-- The backends that there are multiply out as their powers do. -/
theorem Backend.Standard.multipliesOut {S α : Type} {b : Backend Double S α} (h : b.Standard) :
    b.MultipliesOut := by
  cases h with
  | real fudge => exact real_multipliesOut fudge
  | complex fudge laplace => exact complex_multipliesOut (by decide) fudge laplace

/-! ### What the build has asked for -/

/-- More was asked for, and what was said before still holds. -/
def Answers.ExtendedBy {σ S : Type} (a b : Answers σ S) : Prop :=
  ∀ v answer, a.given.get? v = some answer → b.given.get? v = some answer

/-- What is extended twice is extended. -/
theorem Answers.ExtendedBy.trans {σ S : Type} {a b c : Answers σ S} (h : a.ExtendedBy b)
    (h' : b.ExtendedBy c) : a.ExtendedBy c :=
  fun v answer hv => h' v answer (h v answer hv)

namespace Resolver

variable {σ S : Type} (host : Resolver σ S)

/-- Asking extends the answers. -/
theorem extendedBy_ask (a : Answers σ S) (v : Variable) : a.ExtendedBy (host.ask a v) := by
  intro w answer hw
  unfold ask
  split
  · exact hw
  · rename_i hv
    have hne : v ≠ w := by
      rintro rfl
      rw [hv] at hw
      cases hw
    rw [OrderedMap.get?_insert, if_neg hne, hw]

/-- Asking for several variables does too. -/
theorem extendedBy_foldl_ask (vs : List Variable) (a : Answers σ S) :
    a.ExtendedBy (vs.foldl host.ask a) := by
  induction vs generalizing a with
  | nil => exact fun _ _ h => h
  | cons v vs ih => exact (extendedBy_ask host a v).trans (ih _)

end Resolver

namespace Evaluator

variable {ρ S α σ : Type} {s : Setting ρ S α} {host : Resolver σ S}

/-- What a variable is replaced by when the host said `answer`. -/
def replacement (s : Setting ρ S α) (v : Variable) (answer : Option S) :
    Except BuildError (Evaluator ρ S α) :=
  match answer with
  | some source => .ok (.read source)
  | none => fallback s v

/-- A build in progress has replaced the variables as the host said. -/
structure Progress.Fits (s : Setting ρ S α) (p : Progress ρ S α σ) (a : Answers σ S) : Prop where
  /-- The host is in the state that it was left in. -/
  host : p.host = a.state
  /-- Exactly the variables that were asked for are replaced, by what was said. -/
  sources : ∀ v, (p.sources.get? v).map Except.ok = (a.given.get? v).map (replacement s v)

/-- A variable without a source is looked for at the host, and its replacement is kept. -/
theorem resolve_of_sources_eq_none {v : Variable} {p : Progress ρ S α σ}
    (h : p.sources.get? v = none) :
    resolve s host v p = match replacement s v (host v p.host).1 with
      | .ok e => (.ok e, ⟨(host v p.host).2, p.sources.insert v e⟩)
      | .error err => (.error err, ⟨(host v p.host).2, p.sources⟩) := by
  unfold resolve replacement
  rw [h]
  rcases host v p.host with ⟨_ | source, state⟩
  · cases fallback s v <;> rfl
  · rfl

/-- A variable that is asked for and replaced keeps progress and answers in step. -/
theorem Progress.Fits.insert {p : Progress ρ S α σ} {a : Answers σ S} (hp : p.Fits s a)
    {v : Variable} {answer : Option S} {e : Evaluator ρ S α} (h : replacement s v answer = .ok e)
    (state : σ) :
    Progress.Fits s ⟨state, p.sources.insert v e⟩ ⟨state, a.given.insert v answer⟩ where
  host := rfl
  sources w := by
    simp only [OrderedMap.get?_insert]
    by_cases hvw : v = w
    · subst hvw
      simp [h]
    · simp only [if_neg hvw]
      exact hp.sources w

/-- **A variable is replaced by what the host says of it,** now or when it was asked
before. -/
theorem resolve_eq_ok {v : Variable} {p q : Progress ρ S α σ} {a : Answers σ S}
    {e : Evaluator ρ S α} (hp : p.Fits s a) (h : resolve s host v p = (.ok e, q)) :
    q.Fits s (host.ask a v) ∧
      ∀ b, (host.ask a v).ExtendedBy b → replacement s v (b.source? v) = .ok e := by
  -- sources are kept for exactly the variables that were asked: two of the four cases cannot be
  have hv := hp.sources v
  unfold Resolver.ask
  cases hg : a.given.get? v with
  | some answer =>
    cases hs : p.sources.get? v with
    | none => simp [hs, hg] at hv
    | some e' =>
      simp only [resolve, hs, Prod.mk.injEq, Except.ok.injEq] at h
      obtain ⟨rfl, rfl⟩ := h
      simp only [hs, hg, Option.map_some, Option.some.injEq] at hv
      refine ⟨hp, fun b hb => ?_⟩
      rw [Answers.source?, hb v answer hg, Option.join_some, hv]
  | none =>
    cases hs : p.sources.get? v with
    | some e' => simp [hs, hg] at hv
    | none =>
      rw [resolve_of_sources_eq_none hs] at h
      split at h
      · rename_i e' hr
        simp only [Prod.mk.injEq, Except.ok.injEq] at h
        obtain ⟨rfl, rfl⟩ := h
        rw [hp.host] at hr ⊢
        refine ⟨hp.insert hr _, fun b hb => ?_⟩
        have := hb v _ (by rw [OrderedMap.get?_insert, if_pos rfl])
        rw [Answers.source?, this, Option.join_some, hr]
      · simp at h

/-- A function that may be called is in the vocabulary, and the backend has a meaning for it. -/
theorem callee_eq_ok {name : String} {arity : Nat} {f : NamedFunction ρ}
    (h : callee s name arity = .ok f) :
    s.vocabulary.functionOf? name arity = some f ∧ ∃ g, s.backend.implementation f = some g := by
  unfold callee at h
  split at h
  · cases h
  · rename_i f' hf
    split at h
    · cases h
    · rename_i g hg
      cases h
      exact ⟨hf, g, hg⟩

/-! ### Steps of the build -/

/-- Where it succeeds, a step of the build asks for the variables in order and yields
what `t` does under the answers. -/
def Translates {β : Type} (s : Setting ρ S α) (host : Resolver σ S) (step : Building ρ S α σ β)
    (vs : List Variable) (t : (Variable → Option S) → Except BuildError β) : Prop :=
  ∀ ⦃p q a x⦄, p.Fits s a → step p = (.ok x, q) →
    q.Fits s (vs.foldl host.ask a) ∧ ∀ b, (vs.foldl host.ask a).ExtendedBy b → t b.source? = .ok x

namespace Translates

variable {β γ : Type} {vs ws : List Variable}

/-- What is done already asks for nothing. -/
theorem done (x : β) : Translates s host (Attempt.done x) [] fun _ => .ok x := by
  intro p q a y hp h
  simp only [Attempt.done, Prod.mk.injEq, Except.ok.injEq] at h
  obtain ⟨rfl, rfl⟩ := h
  exact ⟨hp, fun _ _ => rfl⟩

/-- A step that fails has no result to compare with the translation. -/
theorem fail (err : BuildError) {t : (Variable → Option S) → Except BuildError β} :
    Translates s host (Attempt.fail err) vs t := by
  intro p q a y _ h
  simp [Attempt.fail] at h

/-- Steps after one another ask for their variables after one another. -/
theorem andThen {x : Building ρ S α σ β} {f : β → Building ρ S α σ γ}
    {t : (Variable → Option S) → Except BuildError β}
    {u : β → (Variable → Option S) → Except BuildError γ} (hx : Translates s host x vs t)
    (hf : ∀ y, Translates s host (f y) ws (u y)) :
    Translates s host (Attempt.andThen x f) (vs ++ ws)
      fun source? => (do u (← t source?) source?) := by
  intro p q a z hp h
  rw [Attempt.andThen_eq_ok] at h
  obtain ⟨y, r, hy, h⟩ := h
  obtain ⟨hr, ht⟩ := hx hp hy
  obtain ⟨hq, hu⟩ := hf y hr h
  rw [List.foldl_append]
  refine ⟨hq, fun b hb => ?_⟩
  exact bind_eq_ok.mpr ⟨y, ht b ((host.extendedBy_foldl_ask _ _).trans hb), hu b hb⟩

/-- A last step that asks for nothing. -/
theorem andThen_done {x : Building ρ S α σ β} {t : (Variable → Option S) → Except BuildError β}
    (hx : Translates s host x vs t) (g : β → γ) :
    Translates s host (Attempt.andThen x fun y => Attempt.done (g y)) vs
      fun source? => (do return g (← t source?)) := by
  have h := hx.andThen fun y => done (g y)
  rwa [List.append_nil] at h

end Translates

/-! ### The build without its state -/

variable [Scalar ρ]

mutual

/-- The evaluator of a tree whose variables have the given sources. -/
def translate (s : Setting ρ S α) (source? : Variable → Option S) :
    Expr ρ → Except BuildError (Evaluator ρ S α)
  | .constant c => .ok (.value (s.backend.ofReal c))
  | .var v => replacement s v (source? v)
  | .unary op x => do return signed op (← translate s source? x)
  | .binary op x y =>
    match fixedExponent? op y with
    | some n => do return power s.backend (← translate s source? x) n
    | none => do
      let a ← translate s source? x
      return .binary op a (← translate s source? y)
  | .call name args => do
    let f ← callee s name args.length
    return .call f (← translateAll s source? args)
  | .conditional c t f => do
    let a ← translate s source? c
    let b ← translate s source? t
    return .conditional a b (← translate s source? f)

/-- The evaluators of some trees. -/
def translateAll (s : Setting ρ S α) (source? : Variable → Option S) :
    List (Expr ρ) → Except BuildError (List (Evaluator ρ S α))
  | [] => .ok []
  | x :: xs => do
    let a ← translate s source? x
    return a :: (← translateAll s source? xs)

end

/-! ### Translations that succeed

A node is translated if its parts are.  The proofs about translations take nodes
apart, and put them together, by these lemmas alone. -/

section

variable {source? : Variable → Option S} {x : Evaluator ρ S α}

/-- A translation of an operator before an operand is one of the operand. -/
theorem translate_unary_eq_ok {op : UnaryOp} {e : Expr ρ} :
    translate s source? (.unary op e) = .ok x ↔
      ∃ y, translate s source? e = .ok y ∧ signed op y = x := by
  simp only [translate, bind_eq_ok, pure, Except.pure, Except.ok.injEq]

/-- A power with a constant exponent is multiplied out, and the exponent not translated. -/
theorem translate_power_eq_ok {op : BinaryOp} {e f : Expr ρ} {n : Int32}
    (hn : fixedExponent? op f = some n) :
    translate s source? (.binary op e f) = .ok x ↔
      ∃ y, translate s source? e = .ok y ∧ power s.backend y n = x := by
  simp only [translate, hn, bind_eq_ok, pure, Except.pure, Except.ok.injEq]

/-- A translation of an operator between two operands is one of each, unless it is a power with a
known exponent. -/
theorem translate_binary_eq_ok {op : BinaryOp} {e f : Expr ρ} (hn : fixedExponent? op f = none) :
    translate s source? (.binary op e f) = .ok x ↔
      ∃ y z, translate s source? e = .ok y ∧ translate s source? f = .ok z ∧
        binary op y z = x := by
  simp only [translate, hn, bind_eq_ok, pure, Except.pure, Except.ok.injEq, exists_and_left]

/-- A translation of a call is one of its arguments, and there is a function to call. -/
theorem translate_call_eq_ok {name : String} {args : List (Expr ρ)} :
    translate s source? (.call name args) = .ok x ↔
      ∃ f ys, callee s name args.length = .ok f ∧ translateAll s source? args = .ok ys ∧
        call f ys = x := by
  simp only [translate, bind_eq_ok, pure, Except.pure, Except.ok.injEq, exists_and_left]

/-- A translation of a choice is one of all three parts. -/
theorem translate_conditional_eq_ok {c t f : Expr ρ} :
    translate s source? (.conditional c t f) = .ok x ↔
      ∃ y z w, translate s source? c = .ok y ∧ translate s source? t = .ok z ∧
        translate s source? f = .ok w ∧ conditional y z w = x := by
  simp only [translate, bind_eq_ok, pure, Except.pure, Except.ok.injEq, exists_and_left]

/-- A translation of some expressions is one of the first and of the others. -/
theorem translateAll_cons_eq_ok {e : Expr ρ} {es : List (Expr ρ)}
    {xs : List (Evaluator ρ S α)} :
    translateAll s source? (e :: es) = .ok xs ↔
      ∃ y ys, translate s source? e = .ok y ∧ translateAll s source? es = .ok ys ∧
        y :: ys = xs := by
  simp only [translateAll, bind_eq_ok, pure, Except.pure, Except.ok.injEq, exists_and_left]

end

/-! ### The build computes the translation -/

/-- A successful build of the tree asks for its variables in order and yields its
translation. -/
def BuildsTranslation (s : Setting ρ S α) (host : Resolver σ S) (e : Expr ρ) : Prop :=
  Translates s host (compile s host e) e.leaves fun source? => translate s source? e

/-- The expressions of a list are compiled as they are translated if each of them is. -/
theorem compileAll_eq_translateAll {es : List (Expr ρ)}
    (hes : ∀ e ∈ es, BuildsTranslation s host e) :
    Translates s host (compileAll s host es) (Expr.leavesAll es)
      fun source? => translateAll s source? es := by
  induction es with
  | nil => exact .done []
  | cons e es ih =>
    have htail := ih fun x hx => hes x (List.mem_cons_of_mem _ hx)
    exact (hes e List.mem_cons_self).andThen fun y => htail.andThen_done (y :: ·)

/-- Only a power with a constant exponent is multiplied out. -/
theorem fixedExponent?_eq_some {op : BinaryOp} {y : Expr ρ} {n : Int32}
    (h : fixedExponent? op y = some n) :
    op = .pow ∧ ∃ c, y = .constant c ∧ integerExponent? c = some n := by
  cases op <;> simp only [fixedExponent?, reduceCtorEq] at h
  cases y <;> simp only [Expr.asConstant?, Option.bind_none, Option.bind_some, reduceCtorEq] at h
  exact ⟨rfl, _, rfl, h⟩

/-- **A successful build computes the translation** under the answers of the host. -/
theorem compile_eq_translate (e : Expr ρ) : BuildsTranslation s host e := by
  induction e using Expr.induction with
  | constant c => exact .done _
  | var v => exact fun _ _ _ _ hp h => resolve_eq_ok hp h
  | unary op e ih => exact ih.andThen_done (signed op)
  | binary op e f ihe ihf =>
    unfold BuildsTranslation
    cases hn : fixedExponent? op f with
    | some n =>
      -- The exponent is a constant: it is not built, and no variable stands in it.
      obtain ⟨rfl, c, rfl, -⟩ := fixedExponent?_eq_some hn
      simp only [compile, translate, hn, Expr.leaves, List.append_nil]
      exact ihe.andThen_done fun y => power s.backend y n
    | none =>
      simp only [compile, translate, hn]
      exact ihe.andThen fun y => ihf.andThen_done (binary op y)
  | call name args ih =>
    unfold BuildsTranslation
    cases hf : callee s name args.length with
    | error err =>
      simp only [compile, hf]
      exact .fail err
    | ok f =>
      simp only [compile, translate, hf]
      exact (compileAll_eq_translateAll ih).andThen_done (call f)
  | conditional c t f ihc iht ihf =>
    have h := ihc.andThen fun y => iht.andThen fun z => ihf.andThen_done (conditional y z)
    rwa [← List.append_assoc] at h

/-! ### Running a translation -/

/-- The translation of the tree runs as the tree is interpreted. -/
def RunsAsInterpreted (s : Setting ρ S α) (source? : Variable → Option S) (e : Expr ρ) : Prop :=
  ∀ ⦃x⦄, translate s source? e = .ok x →
    ∀ memory, x.run s.backend memory = e.interpret s source? memory

/-- A variable runs as the source that it was given, or as its constant. -/
theorem run_replacement {source? : Variable → Option S} {v : Variable} {x : Evaluator ρ S α}
    (h : replacement s v (source? v) = .ok x) (memory : S → α) :
    x.run s.backend memory = Expr.interpretVariable s source? memory v := by
  unfold Expr.interpretVariable
  cases hv : source? v with
  | some source =>
    simp only [replacement, hv, Except.ok.injEq] at h
    subst h
    simp only [run]
  | none =>
    simp only [replacement, hv, fallback] at h
    split at h
    · rename_i hk
      split at h
      · rename_i c hc
        simp only [Except.ok.injEq] at h
        subst h
        simp only [run, hk, hc, Option.map_some]
        rfl
      · cases h
    · cases h

/-- **Powers are multiplied out as the backend computes them.** -/
theorem run_power (hb : s.backend.MultipliesOut) {source? : Variable → Option S} {e : Expr ρ}
    {c : ρ} {n : Int32} (hn : integerExponent? c = some n) {x : Evaluator ρ S α} (memory : S → α)
    (hx : x.run s.backend memory = e.interpret s source? memory) :
    (power s.backend x n).run s.backend memory =
      (Expr.binary .pow e (.constant c)).interpret s source? memory := by
  have hzero : (Expr.constant c).isZeroExponent = true ↔ n = 0 := by
    simp [Expr.isZeroExponent, Expr.asConstant?, hn]
  rw [Expr.interpret]
  unfold power
  by_cases h0 : n = 0
  · rw [if_pos h0, if_pos (hzero.mpr h0), run]
  rw [if_neg h0, if_neg (mt hzero.mp h0)]
  simp only [Expr.interpret, Expr.both, Evaluation.pure_bind, hb c n hn h0, Backend.multiplyOut]
  by_cases h1 : n = 1
  · simp only [if_pos h1]
    rw [Evaluation.bind_pure, hx]
  by_cases h2 : n = 2
  · simp only [if_neg h1, if_pos h2]
    rw [run, hx]
  · simp only [if_neg h1, if_neg h2]
    rw [run, hx]

/-- **An operator runs as it is interpreted,** its right operand only where the left one
does not decide. -/
theorem run_binary {source? : Variable → Option S} {op : BinaryOp} {e f : Expr ρ}
    (hn : fixedExponent? op f = none) {x y : Evaluator ρ S α} (memory : S → α)
    (hx : x.run s.backend memory = e.interpret s source? memory)
    (hy : y.run s.backend memory = f.interpret s source? memory) :
    (binary op x y).run s.backend memory = (Expr.binary op e f).interpret s source? memory := by
  rw [run, hx, hy]
  cases op with
  | and =>
    rw [Expr.interpret]
    congr 1
    funext a
    cases ha : s.backend.isTrue a <;> simp [decides, combine, ha]
  | or =>
    rw [Expr.interpret]
    congr 1
    funext a
    cases ha : s.backend.isTrue a <;> simp [decides, combine, ha]
  | pow =>
    have hzero : f.isZeroExponent = false := by
      simp only [fixedExponent?] at hn
      simp [Expr.isZeroExponent, hn]
    rw [Expr.interpret, hzero]
    rfl
  | _ => rfl

/-- A list runs as it is interpreted if each of its expressions does. -/
theorem runAll_eq_interpretAll {source? : Variable → Option S} {es : List (Expr ρ)}
    (hes : ∀ e ∈ es, RunsAsInterpreted s source? e) {xs : List (Evaluator ρ S α)}
    (h : translateAll s source? es = .ok xs) (memory : S → α) :
    runAll s.backend memory xs = Expr.interpretAll s source? memory es := by
  induction es generalizing xs with
  | nil =>
    cases h
    rfl
  | cons e es ih =>
    obtain ⟨y, ys, hy, hys, rfl⟩ := translateAll_cons_eq_ok.mp h
    rw [runAll, Expr.interpretAll, hes e (List.mem_cons_self ..) hy memory,
      ih (fun x hx => hes x (List.mem_cons_of_mem _ hx)) hys]

/-- **A translation runs as the tree is interpreted.** -/
theorem translate_run (hb : s.backend.MultipliesOut) (source? : Variable → Option S)
    (e : Expr ρ) : RunsAsInterpreted s source? e := by
  induction e using Expr.induction with
  | constant c =>
    intro x h memory
    cases h
    rfl
  | var v =>
    intro x h memory
    rw [translate] at h
    rw [run_replacement h, Expr.interpret]
  | unary op e ih =>
    intro x h memory
    obtain ⟨y, hy, rfl⟩ := translate_unary_eq_ok.mp h
    cases op with
    | plus => rw [signed, ih hy, Expr.interpret]
    | minus => rw [signed, run, ih hy, Expr.interpret]
    | not => rw [signed, run, ih hy, Expr.interpret]
  | binary op e f ihe ihf =>
    intro x h memory
    cases hn : fixedExponent? op f with
    | some n =>
      obtain ⟨y, hy, rfl⟩ := (translate_power_eq_ok hn).mp h
      obtain ⟨rfl, c, rfl, hc⟩ := fixedExponent?_eq_some hn
      exact run_power hb hc memory (ihe hy memory)
    | none =>
      obtain ⟨y, z, hy, hz, rfl⟩ := (translate_binary_eq_ok hn).mp h
      exact run_binary hn memory (ihe hy memory) (ihf hz memory)
  | call name args ih =>
    intro x h memory
    obtain ⟨f, ys, hf, hys, rfl⟩ := translate_call_eq_ok.mp h
    obtain ⟨hf, g, hg⟩ := callee_eq_ok hf
    rw [run, runAll_eq_interpretAll ih hys, Expr.interpret, hf, Option.bind_some, hg]
    cases g <;> rfl
  | conditional c t f ihc iht ihf =>
    intro x h memory
    obtain ⟨y, z, u, hy, hz, hu, rfl⟩ := translate_conditional_eq_ok.mp h
    rw [run, ihc hy, iht hz, ihf hu, Expr.interpret]

/-! ### The build, run -/

/-- **A built evaluator runs as the tree is interpreted.**  Whatever the backend, the
vocabulary, the tree and the host: if the build succeeds, then on every later run,
with whatever the sources hold then, also that of the frequency, value and reads are
those of the interpreter under the answers that the host gave when it was asked for the
variables of the tree, each once and in order. -/
theorem build_run_eq_interpret {b : Backend Double S α} (hb : b.Standard) (w : Vocabulary Double)
    (host : Resolver σ S) (e : Expr Double) (state : σ) {x : Evaluator Double S α}
    (h : (build ⟨w, b⟩ host e state).1 = .ok x) (memory : S → α) :
    x.run b memory = e.interpret ⟨w, b⟩ (host.askAll state e.leaves).source? memory := by
  have hfits : (⟨state, .empty⟩ : Progress Double S α σ).Fits ⟨w, b⟩ ⟨state, .empty⟩ :=
    ⟨rfl, fun _ => rfl⟩
  have hbuild : compile ⟨w, b⟩ host e ⟨state, .empty⟩ =
      (.ok x, (compile ⟨w, b⟩ host e ⟨state, .empty⟩).2) := by
    rw [← h]
    rfl
  obtain ⟨-, htranslate⟩ := compile_eq_translate e hfits hbuild
  exact translate_run hb.multipliesOut _ e (htranslate _ fun _ _ hv => hv) memory

/-- The time derivative. -/
def timeDerivative : NamedFunction Double := Vocabulary.linearInTime "ddt"

/-- A vocabulary with a constant and the time derivative. -/
def choiceVocabulary : Vocabulary Double := (Vocabulary.empty.define "k" 1).register timeDerivative

/-- A choice between a sum and another variable, on a conjunction with a name that only the
vocabulary knows.  The sum is of a square and a time derivative. -/
def choiceOfSquare : Expr Double :=
  .conditional (.binary .and (.var (.voltage "a")) (.var (.named "k")))
    (.binary .add (.binary .pow (.var (.voltage "a")) (.constant Scalar.two))
      (.call "ddt" [.var (.voltage "b")]))
    (.var (.voltage "c"))

/-- The evaluator of `choiceOfSquare`. -/
def choiceOfSquareEvaluator : Evaluator Double String (Complex Double) :=
  .conditional (.binary .and (.read "a") (.value (.ofReal 1)))
    (.binary .add (.square (.read "a")) (.call timeDerivative [.read "b"])) (.read "c")

/-- The host of `choiceOfSquare`: it knows the voltages and counts what it is asked. -/
def countingHost : Resolver Nat String := fun v n =>
  (if v.kind = .voltage then some v.name else none, n + 1)

/-- With a source `s` of the frequency the evaluator of `choiceOfSquare` runs as it is
interpreted, whatever `s` holds then.  Where the condition holds, `a` is read by it and once
more by the square, then `b`, and `s` for the time derivative; the name is not read, and `c`
not at all. -/
theorem build_run_choiceOfSquare :
    (build ⟨choiceVocabulary, .complex 0 (some "s")⟩ countingHost choiceOfSquare 0).1 =
        .ok choiceOfSquareEvaluator ∧
      (∀ memory : String → Complex Double,
        choiceOfSquareEvaluator.run (.complex 0 (some "s")) memory =
          choiceOfSquare.interpret ⟨choiceVocabulary, .complex 0 (some "s")⟩
            (countingHost.askAll 0 choiceOfSquare.leaves).source? memory) ∧
      choiceOfSquareEvaluator.run (.complex 0 (some "s")) (fun _ => .ofReal 1) =
        some (.ofReal Scalar.two, ["a", "a", "b", "s"]) := by
  have h : (build ⟨choiceVocabulary, .complex 0 (some "s")⟩ countingHost choiceOfSquare 0).1 =
      .ok choiceOfSquareEvaluator := by rfl
  exact ⟨h, build_run_eq_interpret (.complex 0 (some "s")) _ countingHost choiceOfSquare 0 h,
    by rfl⟩

end Evaluator
end CircuitExpr
