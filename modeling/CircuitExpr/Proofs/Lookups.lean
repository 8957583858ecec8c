/-
# What a build looks up, and where it fails

Everything in a tree that has a name has to be looked up before the tree can be evaluated:
the source of a variable, the function of a call.  `Expr.lookups` lists them in the order in
which a build comes to them, a call before its arguments and all else from left to right.
A lookup fails or not by what the host has said of the variables (`Lookup.error?`).  The
build ends with the error of the first that fails and asks the host for nothing after it
(`build_fails_at_first`).

A step of a build does its lookups from wherever the build stands (`Seeks`), and steps after
one another do theirs after one another.
-/

import Mathlib
import CircuitExpr.Proofs.Compilation
import CircuitExpr.Proofs.OrderedKeys
import CircuitExpr.Proofs.SubtreeWalk

namespace CircuitExpr

variable {ρ S α σ : Type}

/-! ### Lookups -/

/-- Something that has to be looked up to make an expression ready for evaluation. -/
inductive Lookup where
  /-- The source of a variable. -/
  | source (v : Variable)
  /-- The function of a call with this number of arguments. -/
  | function (name : String) (arity : Nat)

namespace Lookup

/-- The variable that the host may be asked for. -/
def var? : Lookup → Option Variable
  | source v => some v
  | function _ _ => none

/-- Why the lookup fails, if it does, when these are the sources that the host knows. -/
def error? (s : Setting ρ S α) (source? : Variable → Option S) : Lookup → Option BuildError
  | source v =>
    if (source? v).isSome || (decide (v.kind = .named) && (s.vocabulary.constant? v.name).isSome)
      then none else some (.unresolvedVariable v)
  | function name arity =>
    match s.vocabulary.functionOf? name arity with
    | none => some (.unknownFunction name arity)
    | some f =>
      if (s.backend.implementation f).isSome then none
        else some (.missingImplementation f.name s.backend.name)

/-- The lookups up to the first that fails, which is the last that is tried. -/
def tried (s : Setting ρ S α) (source? : Variable → Option S) : List Lookup → List Lookup
  | [] => []
  | l :: ls => if (l.error? s source?).isSome then [l] else l :: tried s source? ls

variable {s : Setting ρ S α} {source? : Variable → Option S}

/-- Without failure all are tried. -/
theorem tried_append_of_none {ls : List Lookup} (h : ls.findSome? (error? s source?) = none)
    (ms : List Lookup) : tried s source? (ls ++ ms) = ls ++ tried s source? ms := by
  induction ls with
  | nil => rfl
  | cons l ls ih =>
    rw [List.findSome?_eq_none_iff] at h
    have hl := h l List.mem_cons_self
    rw [List.cons_append, tried, hl, ih (List.findSome?_eq_none_iff.mpr fun m hm =>
      h m (List.mem_cons_of_mem l hm))]
    rfl

/-- After a failure nothing is tried. -/
theorem tried_append_of_some {ls : List Lookup} {err : BuildError}
    (h : ls.findSome? (error? s source?) = some err) (ms : List Lookup) :
    tried s source? (ls ++ ms) = tried s source? ls := by
  induction ls with
  | nil => cases h
  | cons l ls ih =>
    rw [List.cons_append, tried, tried]
    cases hl : l.error? s source? with
    | some err' => rfl
    | none =>
      rw [List.findSome?_cons, hl] at h
      rw [ih h]

/-- Without an error all lookups are tried. -/
theorem tried_of_none {ls : List Lookup} (h : ls.findSome? (error? s source?) = none) :
    tried s source? ls = ls := by
  have happend := tried_append_of_none h []
  rwa [List.append_nil, tried, List.append_nil] at happend

/-- Lookups are tried from the first one on. -/
theorem tried_prefix (s : Setting ρ S α) (source? : Variable → Option S) (ls : List Lookup) :
    tried s source? ls <+: ls := by
  induction ls with
  | nil => exact List.prefix_rfl
  | cons l ls ih =>
    rw [tried]
    split
    · exact List.cons_prefix_cons.mpr ⟨rfl, List.nil_prefix⟩
    · exact List.cons_prefix_cons.mpr ⟨rfl, ih⟩

end Lookup

namespace Expr

mutual

/-- What a tree makes a build look up, in order. -/
def lookups : Expr ρ → List Lookup
  | .constant _ => []
  | .var v => [.source v]
  | .unary _ x => lookups x
  | .binary _ x y => lookups x ++ lookups y
  | .call name args => .function name args.length :: lookupsAll args
  | .conditional c t f => lookups c ++ lookups t ++ lookups f

/-- What some trees make a build look up. -/
def lookupsAll : List (Expr ρ) → List Lookup
  | [] => []
  | x :: xs => lookups x ++ lookupsAll xs

end

/-- The variables looked up for some trees are their leaves if those of each tree are. -/
theorem filterMap_lookupsAll {es : List (Expr ρ)}
    (hes : ∀ e ∈ es, e.lookups.filterMap Lookup.var? = e.leaves) :
    (lookupsAll es).filterMap Lookup.var? = leavesAll es := by
  induction es with
  | nil => rfl
  | cons e es ih =>
    rw [lookupsAll, leavesAll, List.filterMap_append, hes e List.mem_cons_self,
      ih fun x hx => hes x (List.mem_cons_of_mem e hx)]

/-- The variables are looked up as they stand in the tree. -/
theorem filterMap_lookups (e : Expr ρ) : e.lookups.filterMap Lookup.var? = e.leaves := by
  induction e using Expr.induction with
  | constant c => rfl
  | var v => rfl
  | unary op x ih => exact ih
  | binary op x y ihx ihy => rw [lookups, leaves, List.filterMap_append, ihx, ihy]
  | call name args ih => exact filterMap_lookupsAll ih
  | conditional c t f ihc iht ihf =>
    rw [lookups, leaves, List.filterMap_append, List.filterMap_append, ihc, iht, ihf]

/-- A variable is looked up if the tree has it. -/
theorem source_mem_lookups {e : Expr ρ} [Scalar ρ] {v : Variable} :
    .source v ∈ e.lookups ↔ v ∈ e.vars := by
  rw [vars, OrderedMap.mem_distinct, occurrences_eq_leaves, ← filterMap_lookups, List.mem_filterMap]
  constructor
  · exact fun h => ⟨.source v, h, rfl⟩
  · rintro ⟨_ | _, h, heq⟩
    · exact Option.some.inj heq ▸ h
    · cases heq

end Expr

/-! ### Questions to the host -/

namespace Resolver

/-- What is known after asking for the variables of some lookups. -/
def askFor (host : Resolver σ S) (a : Answers σ S) (ls : List Lookup) : Answers σ S :=
  (ls.filterMap Lookup.var?).foldl host.ask a

variable {host : Resolver σ S}

/-- What is looked up later is asked later. -/
theorem askFor_append (a : Answers σ S) (ls ms : List Lookup) :
    host.askFor a (ls ++ ms) = host.askFor (host.askFor a ls) ms := by
  rw [askFor, List.filterMap_append, List.foldl_append]
  rfl

/-- A variable that is asked for is answered for. -/
theorem keys_ask (host : Resolver σ S) (a : Answers σ S) (v : Variable) :
    (host.ask a v).given.keys = OrderedMap.distinct (a.given.keys ++ [v]) := by
  have hmem := OrderedMap.contains_iff a.given v
  unfold ask
  cases hv : a.given.get? v with
  | some answer =>
    rw [OrderedMap.contains, hv] at hmem
    rw [OrderedMap.distinct_concat, OrderedMap.distinct_keys, if_pos (hmem.mp rfl)]
  | none => exact OrderedMap.keys_insert_eq_distinct ..

/-- The host is asked for each variable once, in the order in which they are needed first. -/
theorem keys_foldl_ask (host : Resolver σ S) (vs : List Variable) (a : Answers σ S) :
    (vs.foldl host.ask a).given.keys = OrderedMap.distinct (a.given.keys ++ vs) := by
  induction vs generalizing a with
  | nil => rw [List.append_nil, OrderedMap.distinct_keys, List.foldl_nil]
  | cons v vs ih =>
    rw [List.foldl_cons, ih, keys_ask, OrderedMap.distinct_distinct_append, List.append_assoc]
    rfl

/-- The host that also keeps, in order, the variables that it is asked for. -/
def logged (host : Resolver σ S) : Resolver (σ × List Variable) S :=
  fun v p => ((host v p.1).1, (host v p.1).2, p.2 ++ [v])

end Resolver

/-- The answers of a host that keeps what it was asked for. -/
def Answers.logged (a : Answers σ S) : Answers (σ × List Variable) S :=
  ⟨(a.state, a.given.keys), a.given⟩

namespace Resolver

variable {host : Resolver σ S}

/-- Keeping the questions changes no answer. -/
theorem ask_logged (a : Answers σ S) (v : Variable) :
    host.logged.ask a.logged v = (host.ask a v).logged := by
  have hmem := OrderedMap.contains_iff a.given v
  rw [OrderedMap.contains] at hmem
  unfold ask
  cases hv : a.given.get? v with
  | some answer => simp [Answers.logged, hv]
  | none =>
    rw [hv] at hmem
    have hkey : v ∉ a.given.keys := fun h => Bool.noConfusion (hmem.mpr h)
    simp [Answers.logged, logged, hv, OrderedMap.keys_insert, hkey]

/-- A log of the questions changes no answer. -/
theorem foldl_ask_logged (vs : List Variable) (a : Answers σ S) :
    vs.foldl host.logged.ask a.logged = (vs.foldl host.ask a).logged := by
  induction vs generalizing a with
  | nil => rfl
  | cons v vs ih => rw [List.foldl_cons, ask_logged, ih, List.foldl_cons]

end Resolver

/-! ### Steps of a build -/

namespace Evaluator

open Attempt Lookup

variable {s : Setting ρ S α} {host : Resolver σ S} {β γ : Type} {ls ms : List Lookup}

/-- A step of the build does some lookups in order.  It yields a result if all succeed, and
otherwise ends with the error of the first that fails, the host asked for nothing more. -/
def Seeks (s : Setting ρ S α) (host : Resolver σ S) (step : Building ρ S α σ β)
    (ls : List Lookup) : Prop :=
  ∀ ⦃p : Progress ρ S α σ⦄ ⦃a : Answers σ S⦄, p.Fits s a →
    ∀ ⦃b : Answers σ S⦄, (host.askFor a ls).ExtendedBy b →
      (∃ x q, step p = (.ok x, q) ∧ q.Fits s (host.askFor a ls) ∧
        ls.findSome? (error? s b.source?) = none) ∨
      ∃ err q, step p = (.error err, q) ∧
        q.host = (host.askFor a (tried s b.source? ls)).state ∧
        ls.findSome? (error? s b.source?) = some err

/-- A variable that cannot be replaced was asked for only now. -/
theorem resolve_eq_error {v : Variable} {p q : Progress ρ S α σ} {a : Answers σ S}
    {err : BuildError} (hp : p.Fits s a) (h : resolve s host v p = (.error err, q)) :
    q.host = (host.ask a v).state ∧
      ∀ b, (host.ask a v).ExtendedBy b → replacement s v (b.source? v) = .error err := by
  have hv := hp.sources v
  cases hs : p.sources.get? v with
  | some e =>
    rw [resolve, hs] at h
    cases h
  | none =>
    rw [resolve_of_sources_eq_none hs, hp.host] at h
    have hg : a.given.get? v = none := by
      rw [hs] at hv
      exact Option.map_eq_none_iff.mp hv.symm
    have hask : host.ask a v = ⟨(host v a.state).2, a.given.insert v (host v a.state).1⟩ := by
      rw [Resolver.ask, hg]
    rw [hask]
    split at h
    · cases h
    · rename_i err' hr
      obtain ⟨⟨⟩, rfl⟩ := Prod.mk.inj h
      refine ⟨rfl, fun b hb => ?_⟩
      have hanswer := hb v _ (by rw [OrderedMap.get?_insert, if_pos rfl])
      rw [Answers.source?, hanswer, Option.join_some, hr]

/-- A variable without a source must be a constant. -/
theorem error?_source {source? : Variable → Option S} {v : Variable} :
    (Lookup.source v).error? s source? =
      match (replacement s v (source? v) : Except BuildError (Evaluator ρ S α)) with
      | .ok _ => none
      | .error err => some err := by
  rw [Lookup.error?]
  unfold replacement
  cases source? v with
  | some source => rfl
  | none =>
    unfold fallback
    cases hkind : v.kind with
    | named => cases hc : s.vocabulary.constant? v.name <;> rfl
    | _ => rfl

/-- A function must be known and have values. -/
theorem error?_function (s : Setting ρ S α) (source? : Variable → Option S) (name : String)
    (arity : Nat) :
    (Lookup.function name arity).error? s source? =
      match callee s name arity with
      | .ok _ => none
      | .error err => some err := by
  rw [Lookup.error?, callee]
  cases s.vocabulary.functionOf? name arity with
  | none => rfl
  | some f => cases h : s.backend.implementation f <;> simp [h]

namespace Seeks

/-- What is done already looks nothing up. -/
theorem done (x : β) : Seeks s host (Attempt.done x) [] :=
  fun p _ hp _ _ => .inl ⟨x, p, rfl, hp, rfl⟩

/-- Steps after one another do their lookups after one another. -/
theorem andThen {x : Building ρ S α σ β} {f : β → Building ρ S α σ γ} (hx : Seeks s host x ls)
    (hf : ∀ y, Seeks s host (f y) ms) : Seeks s host (Attempt.andThen x f) (ls ++ ms) := by
  intro p a hp b hb
  rw [Resolver.askFor_append] at hb
  have hfirst : (host.askFor a ls).ExtendedBy b := (host.extendedBy_foldl_ask _ _).trans hb
  unfold Attempt.andThen
  obtain ⟨y, q, hy, hq, hnone⟩ | ⟨err, q, hy, hq, herr⟩ := hx hp hfirst
  · rw [hy, List.findSome?_append, hnone, Option.none_or, Resolver.askFor_append,
      tried_append_of_none hnone, Resolver.askFor_append]
    exact hf y hq hb
  · rw [hy, List.findSome?_append, herr, Option.some_or, tried_append_of_some herr]
    exact .inr ⟨err, q, rfl, hq, rfl⟩

/-- A last step that looks up nothing. -/
theorem andThen_done {x : Building ρ S α σ β} (hx : Seeks s host x ls) (g : β → γ) :
    Seeks s host (Attempt.andThen x fun y => Attempt.done (g y)) ls := by
  have h := hx.andThen fun y => done (g y)
  rwa [List.append_nil] at h

/-- A variable is looked up among those that were asked for, and then asked for. -/
theorem resolve (v : Variable) : Seeks s host (resolve s host v) [.source v] := by
  intro p a hp b (hb : (host.ask a v).ExtendedBy b)
  have hfind : [Lookup.source v].findSome? (error? s b.source?) =
      (Lookup.source v).error? s b.source? := by
    rw [List.findSome?_cons]
    cases (Lookup.source v).error? s b.source? <;> rfl
  have htried : tried s b.source? [Lookup.source v] = [.source v] := by
    rw [tried]
    split <;> rfl
  rw [hfind, htried, error?_source]
  rcases h : Evaluator.resolve s host v p with ⟨err | e, q⟩
  · obtain ⟨hhost, herr⟩ := resolve_eq_error hp h
    rw [herr b hb]
    exact .inr ⟨err, q, rfl, hhost, rfl⟩
  · obtain ⟨hq, hok⟩ := resolve_eq_ok hp h
    rw [hok b hb]
    exact .inl ⟨e, q, rfl, hq, rfl⟩

/-- What follows on a function that was found. -/
theorem call {name : String} {arity : Nat} {f : NamedFunction ρ → Building ρ S α σ β}
    (hf : ∀ g, Seeks s host (f g) ls) :
    Seeks s host (match callee s name arity with
      | .error err => fail err
      | .ok g => f g) (.function name arity :: ls) := by
  intro p a hp b (hb : (host.askFor a ls).ExtendedBy b)
  have herror := error?_function s b.source? name arity
  cases hg : callee s name arity with
  | error err =>
    rw [hg] at herror
    rw [List.findSome?_cons, tried, herror]
    exact .inr ⟨err, p, rfl, hp.host, rfl⟩
  | ok g =>
    rw [hg] at herror
    rw [List.findSome?_cons, tried, herror]
    exact hf g hp hb

variable [Scalar ρ]

/-- The trees of a list look up what each of them does. -/
theorem compileAll {es : List (Expr ρ)}
    (hes : ∀ e ∈ es, Seeks s host (compile s host e) e.lookups) :
    Seeks s host (compileAll s host es) (Expr.lookupsAll es) := by
  induction es with
  | nil => exact .done []
  | cons e es ih =>
    have htail := ih fun x hx => hes x (List.mem_cons_of_mem _ hx)
    exact (hes e List.mem_cons_self).andThen fun y => htail.andThen_done (y :: ·)

/-- **A build does the lookups of the tree.** -/
theorem compile (e : Expr ρ) : Seeks s host (compile s host e) e.lookups := by
  induction e using Expr.induction with
  | constant c => exact .done _
  | var v => exact .resolve v
  | unary op e ih => exact ih.andThen_done (signed op)
  | binary op e f ihe ihf =>
    rw [Evaluator.compile]
    cases hn : fixedExponent? op f with
    | some n =>
      -- The exponent is not built, but there is nothing to look up in it.
      obtain ⟨rfl, c, rfl, -⟩ := fixedExponent?_eq_some hn
      rw [Expr.lookups, Expr.lookups, List.append_nil]
      exact ihe.andThen_done fun y => power s.backend y n
    | none => exact ihe.andThen fun y => ihf.andThen_done (binary op y)
  | call name args ih =>
    rw [Evaluator.compile]
    exact .call fun f => (compileAll ih).andThen_done (Evaluator.call f)
  | conditional c t f ihc iht ihf =>
    have h := ihc.andThen fun y => iht.andThen fun z => ihf.andThen_done (conditional y z)
    rwa [← List.append_assoc] at h

end Seeks

/-! ### The build -/

/-- The answers of a host that is asked for all variables of a tree. -/
theorem askFor_lookups (e : Expr ρ) (state : σ) :
    host.askFor ⟨state, .empty⟩ e.lookups = host.askAll state e.leaves := by
  rw [Resolver.askFor, Expr.filterMap_lookups]
  rfl

variable [Scalar ρ]

/-- **What the host says decides the build.**  If no lookup fails there is a result, and
otherwise the error of the first that fails; the host is left as it is after the lookups that
were tried. -/
theorem build_cases (s : Setting ρ S α) (host : Resolver σ S) (e : Expr ρ) (state : σ)
    {source? : Variable → Option S} (hsource : (host.askAll state e.leaves).source? = source?) :
    (build s host e state).2 = (host.askFor ⟨state, .empty⟩ (tried s source? e.lookups)).state ∧
      ((e.lookups.findSome? (error? s source?) = none ∧
          ∃ x, translate s source? e = .ok x ∧ (build s host e state).1 = .ok x) ∨
        ∃ err, e.lookups.findSome? (error? s source?) = some err ∧
          (build s host e state).1 = .error err) := by
  subst hsource
  have hfits : (⟨state, .empty⟩ : Progress ρ S α σ).Fits s ⟨state, .empty⟩ := ⟨rfl, fun _ => rfl⟩
  have hext : (host.askFor ⟨state, .empty⟩ e.lookups).ExtendedBy (host.askAll state e.leaves) := by
    rw [askFor_lookups]
    exact fun _ _ hv => hv
  rw [build]
  obtain ⟨x, q, hcompile, hq, hnone⟩ | ⟨err, q, hcompile, hhost, herr⟩ :=
    Seeks.compile e hfits hext
  · obtain ⟨-, htranslate⟩ := compile_eq_translate e hfits hcompile
    rw [hcompile, hnone, tried_of_none hnone, ← hq.host]
    exact ⟨rfl, .inl ⟨rfl, x, htranslate _ fun _ _ hv => hv, rfl⟩⟩
  · rw [hcompile, herr, ← hhost]
    exact ⟨rfl, .inr ⟨err, rfl, rfl⟩⟩

/-- What the host is asked for in a build, in order. -/
def asked (s : Setting ρ S α) (host : Resolver σ S) (e : Expr ρ) (state : σ) : List Variable :=
  (build s host.logged e (state, [])).2.2

/-- **Keeping what the host is asked for changes nothing else,** and it is asked for the
variables up to the first failure. -/
theorem build_logged (s : Setting ρ S α) (host : Resolver σ S) (e : Expr ρ) (state : σ) :
    (build s host.logged e (state, [])).1 = (build s host e state).1 ∧
      (build s host.logged e (state, [])).2 = ((build s host e state).2, OrderedMap.distinct
        ((tried s (host.askAll state e.leaves).source? e.lookups).filterMap var?)) := by
  have hlogged (vs : List Variable) :
      host.logged.askAll (state, []) vs = (host.askAll state vs).logged :=
    Resolver.foldl_ask_logged vs ⟨state, .empty⟩
  have hsource : (host.logged.askAll (state, []) e.leaves).source? =
      (host.askAll state e.leaves).source? := by
    rw [hlogged]
    rfl
  obtain ⟨hstate, hresult⟩ := build_cases s host e state rfl
  obtain ⟨hstate', hresult'⟩ := build_cases s host.logged e (state, []) hsource
  constructor
  · obtain ⟨hnone, x, hx, hok⟩ | ⟨err, herr, herror⟩ := hresult <;>
      obtain ⟨hnone', y, hy, hok'⟩ | ⟨err', herr', herror'⟩ := hresult'
    · rw [hok, hok', ← hx, hy]
    · rw [hnone] at herr'
      cases herr'
    · rw [hnone'] at herr
      cases herr
    · rw [herror, herror', ← Option.some.inj (herr.symm.trans herr')]
  · have hkeys := Resolver.keys_foldl_ask host
      ((tried s (host.askAll state e.leaves).source? e.lookups).filterMap var?) ⟨state, .empty⟩
    rw [hstate', hstate]
    exact (congrArg Answers.state (hlogged _)).trans (Prod.ext rfl hkeys)

/-- A lookup fails if nobody knows the variable, or the function has no values. -/
theorem exists_error?_iff {source? : Variable → Option S} {e : Expr ρ} :
    (∃ l ∈ e.lookups, l.error? s source? ≠ none) ↔
      (∃ v ∈ e.vars, source? v = none ∧ (v.kind = .named → s.vocabulary.constant? v.name = none)) ∨
      ∃ name arity, .function name arity ∈ e.lookups ∧
        ∀ f, s.vocabulary.functionOf? name arity = some f → s.backend.implementation f = none := by
  have hsource (v : Variable) : (Lookup.source v).error? s source? ≠ none ↔
      source? v = none ∧ (v.kind = .named → s.vocabulary.constant? v.name = none) := by
    simp [error?]
  have hfunction (name : String) (arity : Nat) :
      (Lookup.function name arity).error? s source? ≠ none ↔
        ∀ f, s.vocabulary.functionOf? name arity = some f → s.backend.implementation f = none := by
    cases hf : s.vocabulary.functionOf? name arity <;> simp [error?, hf]
  constructor
  · rintro ⟨v | ⟨name, arity⟩, hl, herror⟩
    · exact .inl ⟨v, Expr.source_mem_lookups.mp hl, (hsource v).mp herror⟩
    · exact .inr ⟨name, arity, hl, (hfunction name arity).mp herror⟩
  · rintro (⟨v, hv, hfails⟩ | ⟨name, arity, hl, hfails⟩)
    · exact ⟨.source v, Expr.source_mem_lookups.mpr hv, (hsource v).mpr hfails⟩
    · exact ⟨.function name arity, hl, (hfunction name arity).mpr hfails⟩

/-- **What a build asks for, and the error that it ends with.**  The host is asked for the
variables of the tree, each once and in order, and for nothing more after a failure.  The build
fails if the host does not know a variable and no constant stands in for it, or if there is no
function of a call for this backend, and its error is that of the first lookup that fails. -/
theorem build_fails_at_first (s : Setting ρ S α) (host : Resolver σ S) (e : Expr ρ) (state : σ) :
    (build s host.logged e (state, [])).1 = (build s host e state).1 ∧
    (build s host.logged e (state, [])).2.1 = (build s host e state).2 ∧
    asked s host e state <+: e.vars ∧
    (∀ x, (build s host e state).1 = .ok x → asked s host e state = e.vars) ∧
    ((∃ err, (build s host e state).1 = .error err) ↔
      (∃ v ∈ e.vars, (host.askAll state e.leaves).source? v = none ∧
        (v.kind = .named → s.vocabulary.constant? v.name = none)) ∨
      ∃ name arity, .function name arity ∈ e.lookups ∧
        ∀ f, s.vocabulary.functionOf? name arity = some f → s.backend.implementation f = none) ∧
    ∀ err, (build s host e state).1 = .error err ↔
      ∃ before l after, e.lookups = before ++ l :: after ∧
        l.error? s (host.askAll state e.leaves).source? = some err ∧
        ∀ m ∈ before, m.error? s (host.askAll state e.leaves).source? = none := by
  generalize hsource : (host.askAll state e.leaves).source? = source?
  obtain ⟨hresult, hstate⟩ := build_logged s host e state
  rw [hsource] at hstate
  have hvars : e.vars = OrderedMap.distinct (e.lookups.filterMap var?) := by
    rw [Expr.vars, Expr.occurrences_eq_leaves, Expr.filterMap_lookups]
  have hasked : asked s host e state =
      OrderedMap.distinct ((tried s source? e.lookups).filterMap var?) := by rw [asked, hstate]
  have herror (err : BuildError) : (build s host e state).1 = .error err ↔
      e.lookups.findSome? (error? s source?) = some err := by
    obtain ⟨-, ⟨hnone, x, -, hok⟩ | ⟨err', herr', herror⟩⟩ := build_cases s host e state hsource
    · rw [hok, hnone]
      exact ⟨nofun, nofun⟩
    · rw [herror, herr', Except.error.injEq, Option.some.injEq]
  have hfails : (∃ err, e.lookups.findSome? (error? s source?) = some err) ↔
      ∃ l ∈ e.lookups, l.error? s source? ≠ none := by
    rw [← Option.isSome_iff_exists, List.findSome?_isSome_iff]
    simp only [Option.isSome_iff_ne_none]
  refine ⟨hresult, congrArg Prod.fst hstate, ?_, fun x hx => ?_, ?_, fun err => ?_⟩
  · obtain ⟨rest, hrest⟩ := tried_prefix s source? e.lookups
    rw [hasked, hvars, ← hrest, List.filterMap_append, hrest]
    exact OrderedMap.distinct_prefix_append _ _
  · have hnone : e.lookups.findSome? (error? s source?) = none := by
      rw [Option.eq_none_iff_forall_ne_some]
      intro err herr
      rw [(herror err).mpr herr] at hx
      cases hx
    rw [hasked, hvars, tried_of_none hnone]
  · exact (exists_congr herror).trans (hfails.trans exists_error?_iff)
  · rw [herror, List.findSome?_eq_some_iff]

/-- A sum with a call of a function that there is not. -/
def unknownCall : Expr Double :=
  .binary .add (.var (.voltage "a")) (.call "mystery" [.var (.voltage "b")])

/-- The host is asked for the first summand, but not for the argument of the call. -/
theorem unknownCall_fails :
    (build ⟨.empty, .real 0⟩ countingHost unknownCall 0).1 =
        .error (.unknownFunction "mystery" 1) ∧
      asked ⟨.empty, .real 0⟩ countingHost unknownCall 0 = [.voltage "a"] := by
  refine ⟨?_, rfl⟩
  have herror := (build_fails_at_first ⟨.empty, .real 0⟩ countingHost unknownCall 0).2.2.2.2.2
  exact (herror _).mpr ⟨[.source (.voltage "a")], .function "mystery" 1,
    [.source (.voltage "b")], rfl, rfl, List.forall_mem_singleton.mpr rfl⟩

end Evaluator
end CircuitExpr
