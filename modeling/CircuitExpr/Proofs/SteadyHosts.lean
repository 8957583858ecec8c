/-
# Hosts that do not change their mind

A host may answer differently each time it is asked.  One that always gives a variable
the same source is *steady*, and for it the state of a build does not matter: building a
tree is translating it, result and error alike (`build_eq_translate`).
-/

import CircuitExpr.Proofs.Compilation

namespace CircuitExpr

variable {ρ S α σ : Type}

/-- The host always gives a variable the same source. -/
def Resolver.Steady (host : Resolver σ S) (source? : Variable → Option S) : Prop :=
  ∀ v state, (host v state).1 = source? v

/-- The host that keeps what it was asked for is steady. -/
theorem Resolver.steady_recording (source? : Variable → Option S) :
    (Resolver.recording source?).Steady source? := fun _ _ => rfl

namespace Evaluator

open Attempt

/-- What was replaced so far was replaced by what the sources say. -/
def Progress.Follows (s : Setting ρ S α) (source? : Variable → Option S) (p : Progress ρ S α σ) :
    Prop :=
  ∀ v e, p.sources.get? v = some e → replacement s v (source? v) = .ok e

/-- The step of a build has the given outcome whatever was done before. -/
def Comes {β : Type} (s : Setting ρ S α) (source? : Variable → Option S)
    (x : Building ρ S α σ β) (outcome : Except BuildError β) : Prop :=
  ∀ p, p.Follows s source? → (x p).1 = outcome ∧ (x p).2.Follows s source?

variable {s : Setting ρ S α} {source? : Variable → Option S} {β γ : Type}

/-- What is done already comes to its result. -/
theorem Comes.done (x : β) : Comes (σ := σ) s source? (done x) (.ok x) := fun _ hp => ⟨rfl, hp⟩

/-- A failure comes to its error. -/
theorem Comes.fail (e : BuildError) :
    Comes (σ := σ) s source? (fail e : Building ρ S α σ β) (.error e) :=
  fun _ hp => ⟨rfl, hp⟩

/-- Steps after one another come out as their outcomes do. -/
theorem Comes.andThen {x : Building ρ S α σ β} {a : Except BuildError β}
    {f : β → Building ρ S α σ γ} {g : β → Except BuildError γ} (hx : Comes s source? x a)
    (hf : ∀ b, Comes s source? (f b) (g b)) : Comes s source? (andThen x f) (a >>= g) := by
  intro p hp
  obtain ⟨hresult, hq⟩ := hx p hp
  unfold Attempt.andThen
  rcases h : x p with ⟨_ | b, q⟩
  · rw [h] at hresult hq
    rw [← hresult]
    exact ⟨rfl, hq⟩
  · rw [h] at hresult hq
    rw [← hresult]
    exact hf b q hq

/-- A variable comes out as its replacement, asked for now or before. -/
theorem Comes.resolve {host : Resolver σ S} (hhost : host.Steady source?) (v : Variable) :
    Comes s source? (resolve s host v) (replacement s v (source? v)) := by
  intro p hp
  cases hv : p.sources.get? v with
  | some e =>
    have hresolve : Evaluator.resolve s host v p = (.ok e, p) := by
      unfold Evaluator.resolve
      rw [hv]
    rw [hresolve, hp v e hv]
    exact ⟨rfl, hp⟩
  | none =>
    rw [resolve_of_sources_eq_none hv, hhost v p.host]
    cases hr : replacement s v (source? v) with
    | error e => exact ⟨rfl, hp⟩
    | ok e =>
      refine ⟨rfl, fun w e' hw => ?_⟩
      rw [OrderedMap.get?_insert] at hw
      split at hw
      · rename_i h
        cases hw
        rw [← h, hr]
      · exact hp w e' hw

variable [Scalar ρ] {host : Resolver σ S}

/-- A list comes to its translations if each of its trees does. -/
theorem comes_compileAll {es : List (Expr ρ)}
    (hes : ∀ e ∈ es, Comes s source? (compile s host e) (translate s source? e)) :
    Comes s source? (compileAll s host es) (translateAll s source? es) := by
  induction es with
  | nil => exact Comes.done []
  | cons e es ih =>
    rw [compileAll, translateAll]
    exact (hes e List.mem_cons_self).andThen fun x =>
      (ih fun x hx => hes x (List.mem_cons_of_mem e hx)).andThen fun xs => Comes.done _

/-- **Compiling with a steady host is translating.** -/
theorem comes_compile (hhost : host.Steady source?) (e : Expr ρ) :
    Comes s source? (compile s host e) (translate s source? e) := by
  induction e using Expr.induction with
  | constant c => exact Comes.done _
  | var v => exact Comes.resolve hhost v
  | unary op x ih =>
    rw [compile, translate]
    exact ih.andThen fun x => Comes.done _
  | binary op x y ihx ihy =>
    rw [compile, translate]
    cases Evaluator.fixedExponent? op y with
    | some n => exact ihx.andThen fun x => Comes.done _
    | none => exact ihx.andThen fun x => ihy.andThen fun y => Comes.done _
  | call name args ih =>
    rw [compile, translate]
    split
    · rename_i e he
      rw [he]
      exact Comes.fail e
    · rename_i f hf
      rw [hf]
      exact (comes_compileAll ih).andThen fun args => Comes.done _
  | conditional c t f ihc iht ihf =>
    rw [compile, translate]
    exact ihc.andThen fun c => iht.andThen fun t => ihf.andThen fun f => Comes.done _

/-- **Building with a steady host is translating,** in whatever state the host is. -/
theorem build_eq_translate (hhost : host.Steady source?) (e : Expr ρ) (state : σ) :
    (build s host e state).1 = translate s source? e :=
  (comes_compile hhost e ⟨state, .empty⟩ nofun).1

end Evaluator
end CircuitExpr
