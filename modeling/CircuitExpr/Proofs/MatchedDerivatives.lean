/-
# Derivatives of trees that match

Trees that match have derivatives by the same variables, in the same order.  How the
derivatives themselves are related is left open.  Differentiation does little with them: a
derivative is given another sign, added to another one, multiplied with an argument or
divided by one, given to a linear function, or chosen on a condition.  A relation that is
kept by all of these is a `Derivatives.Congruence`.  The ways to combine maps then keep
maps related, entry by entry (`Derivatives.Related`), and `step_related` puts them
together.

Choices are made on conditions of the tree and on comparisons of arguments.  A relation may
be kept by choices on some conditions only, so what is known of a tree is passed on to what
choices are made on (`Expr.PassedOn`).

One rule is no congruence by itself.  The partial derivative of a power by a base that is
the constant zero may fold to a number that shows the sign of the zero.  It is multiplied
with the derivatives of a constant, of which there are none, so it never shows: rules need
to agree only on the partial derivatives by arguments that are not constants
(`PartialsMatch`).
-/

import Mathlib
import CircuitExpr.Proofs.DerivativeMaps
import CircuitExpr.Proofs.DerivativeRecursion
import CircuitExpr.Proofs.MatchedTrees

namespace CircuitExpr

open CircuitExpr.Expr (Matches)

variable {ρ : Type}

/-! ### Maps of derivatives -/

/-- Derivatives by the same variables in the same order, each related to the one across
from it. -/
def Derivatives.Related (R : Expr ρ → Expr ρ → Prop) (ds es : Derivatives ρ) : Prop :=
  List.Forall₂ (fun d e => d.1 = e.1 ∧ R d.2 e.2) ds.entries es.entries

namespace Derivatives.Related

variable {R : Expr ρ → Expr ρ → Prop} {ds es : Derivatives ρ}

/-- Related derivatives are by the same variables. -/
theorem keys (h : Related R ds es) : ds.keys = es.keys := by
  have h' : List.Forall₂ (· = ·) ds.keys es.keys :=
    List.rel_map (fun _ _ hde => hde.1) h
  rwa [List.forall₂_eq_eq_eq] at h'

/-- Of two related derivatives, both are empty or none is. -/
theorem isEmpty (h : Related R ds es) : ds.isEmpty = es.isEmpty := by
  unfold OrderedMap.isEmpty
  rw [Bool.eq_iff_iff, List.isEmpty_iff_length_eq_zero, List.isEmpty_iff_length_eq_zero,
    List.Forall₂.length_eq h]

/-- Nothing is related to nothing only. -/
theorem eq_empty (h : Related R ds es) (hds : ds = .empty) : es = .empty := by
  subst hds
  obtain ⟨entries, hentries⟩ := es
  obtain rfl : entries = [] := List.forall₂_nil_left_iff.mp h
  rfl

/-- What is found under a variable is related. -/
theorem get? (h : Related R ds es) (v : Variable) : Option.Rel R (ds.get? v) (es.get? v) := by
  have hlookup {l l' : List (Variable × Expr ρ)}
      (hl : List.Forall₂ (fun d e => d.1 = e.1 ∧ R d.2 e.2) l l') :
      Option.Rel R (OrderedMap.lookup? v l) (OrderedMap.lookup? v l') := by
    induction hl with
    | nil => exact .none
    | cons hde _ ih =>
      simp only [OrderedMap.lookup?, hde.1]
      split
      · exact .some hde.2
      · exact ih
  exact hlookup h

/-- Nothing is related to nothing. -/
theorem empty : Related R .empty .empty := .nil

/-- Single derivatives are related if their trees are. -/
theorem single (v : Variable) {x y : Expr ρ} (h : R x y) : Related R (.single v x) (.single v y) :=
  .cons ⟨rfl, h⟩ .nil

/-- Related trees may be inserted under the same variable. -/
theorem insert (h : Related R ds es) (v : Variable) {x y : Expr ρ} (hxy : R x y) :
    Related R (ds.insert v x) (es.insert v y) := by
  have hput {l l' : List (Variable × Expr ρ)}
      (hl : List.Forall₂ (fun d e => d.1 = e.1 ∧ R d.2 e.2) l l') :
      List.Forall₂ (fun d e => d.1 = e.1 ∧ R d.2 e.2) (OrderedMap.put v x l)
        (OrderedMap.put v y l') := by
    induction hl with
    | nil => exact .cons ⟨rfl, hxy⟩ .nil
    | cons hde hrest ih =>
      simp only [OrderedMap.put, hde.1]
      split
      · exact .cons ⟨rfl, hxy⟩ hrest
      · exact .cons hde ih
  exact hput h

/-- Functions that keep trees related may be applied to all derivatives. -/
theorem map {f g : Expr ρ → Expr ρ} (hfg : ∀ {x y}, R x y → R (f x) (g y))
    (h : Related R ds es) : Related R (ds.map f) (es.map g) :=
  List.rel_map (fun _ _ hde => ⟨hde.1, hfg hde.2⟩) h

/-- Some related derivatives have the same variables together. -/
theorem vars {maps maps' : List (Derivatives ρ)} (h : List.Forall₂ (Related R) maps maps') :
    Derivatives.vars maps = Derivatives.vars maps' := by
  have hkeys : maps.map OrderedMap.keys = maps'.map OrderedMap.keys := by
    have hrel : List.Forall₂ (· = ·) (maps.map OrderedMap.keys) (maps'.map OrderedMap.keys) :=
      List.rel_map (fun _ _ hm => keys hm) h
    rwa [List.forall₂_eq_eq_eq] at hrel
  rw [Derivatives.vars, Derivatives.vars, List.flatMap, List.flatMap, hkeys]

/-- Maps made variable by variable are related if what is made is. -/
theorem ofKeys {f g : Variable → Option (Expr ρ)} (hfg : ∀ v, Option.Rel R (f v) (g v))
    (ks : List Variable) : Related R (.ofKeys f ks) (.ofKeys g ks) := by
  unfold OrderedMap.ofKeys
  refine List.rel_foldl (P := Related R) (R := (· = ·)) ?_ empty ?_
  · rintro ds es h v _ rfl
    have hv := hfg v
    cases hf : f v <;> cases hg : g v <;> rw [hf, hg] at hv <;> cases hv <;> simp only [hf, hg]
    · exact h
    · exact h.insert v ‹_›
  · exact List.forall₂_same.mpr fun _ _ => rfl

end Derivatives.Related

namespace Derivatives

variable {R R' : Expr ρ → Expr ρ → Prop} {m m' : Option (Derivatives ρ)}

/-- What is related is related in a weaker sense. -/
theorem rel_imp (hR : ∀ {d e}, R d e → R' d e) (h : Option.Rel (Related R) m m') :
    Option.Rel (Related R') m m' := by
  cases h with
  | none => exact .none
  | some h => exact .some (List.Forall₂.imp (fun _ _ hde => ⟨hde.1, hR hde.2⟩) h)

/-- Two relations between derivatives at once. -/
theorem rel_and (h : Option.Rel (Related R) m m')
    (h' : Option.Rel (Related R') m m') :
    Option.Rel (Related fun d e => R d e ∧ R' d e) m m' := by
  cases h with
  | none => exact .none
  | some h =>
    cases h' with
    | some h' =>
      exact .some (List.Forall₂.mp (fun _ _ hde hde' => ⟨hde.1, hde.2, hde'.2⟩) h h')

end Derivatives

variable [Scalar ρ]

/-- A property of trees that their parts have with them, and comparisons with what they
compare. -/
structure Expr.PassedOn (G : Expr ρ → Prop) : Prop where
  /-- The parts have it with the tree. -/
  child {e x : Expr ρ} : G e → x ∈ e.children → G x
  /-- Comparisons have it with both sides. -/
  comparison {op : BinaryOp} {x y : Expr ρ} : G x → G y → G (.binary op x y)

omit [Scalar ρ] in
/-- Nothing needs to be known. -/
theorem Expr.passedOn_true : Expr.PassedOn fun _ : Expr ρ => True :=
  ⟨fun _ _ => trivial, fun _ _ => trivial⟩

/-- A relation between derivatives that is kept by what differentiation does with them,
where `P` relates the trees that it brings in and the conditions of choices have `G`. -/
structure Derivatives.Congruence (P R : Expr ρ → Expr ρ → Prop) (G : Expr ρ → Prop) : Prop where
  /-- Every constant is related to itself. -/
  constant (c : ρ) : R (.constant c) (.constant c)
  /-- Another sign. -/
  neg {d e : Expr ρ} : R d e → R (-d) (-e)
  /-- The sum of two derivatives. -/
  add {d d' e e' : Expr ρ} : R d e → R d' e' → R (d + d') (e + e')
  /-- A derivative times an argument. -/
  mul {x y d e : Expr ρ} : P x y → R d e → R (x * d) (y * e)
  /-- A derivative divided by an argument. -/
  div {x y d e : Expr ρ} : R d e → P x y → R (d / x) (e / y)
  /-- A function of a derivative. -/
  call {name : String} {d e : Expr ρ} : R d e → R (.call name [d]) (.call name [e])
  /-- A choice between two derivatives. -/
  select {c c' d d' e e' : Expr ρ} : G c → P c c' → R d e → R d' e' →
    R (Expr.select c d d') (Expr.select c' e e')

namespace Derivatives.Related

variable {P R : Expr ρ → Expr ρ → Prop} {G : Expr ρ → Prop} {ds es : Derivatives ρ}

/-- Related terms may be added. -/
theorem addTerm (hR : Congruence P R G) (h : Related R ds es) (v : Variable) {x y : Expr ρ}
    (hxy : R x y) : Related R (ds.addTerm v x) (es.addTerm v y) := by
  have hget := h.get? v
  unfold Derivatives.addTerm
  cases hds : ds.get? v <;> cases hes : es.get? v <;> rw [hds, hes] at hget <;> cases hget
  · exact h.insert v hxy
  · exact h.insert v (hR.add ‹_› hxy)

/-- Related derivatives may be added. -/
theorem plus (hR : Congruence P R G) {ds' es' : Derivatives ρ} (h : Related R ds es)
    (h' : Related R ds' es') : Related R (ds.plus ds') (es.plus es') := by
  refine List.rel_foldl (P := Related R) ?_ h h'
  rintro ds es h ⟨v, x⟩ ⟨_, y⟩ ⟨rfl, hxy⟩
  exact h.addTerm hR v hxy

/-- Any number of related derivatives may be added. -/
theorem sum (hR : Congruence P R G) {maps maps' : List (Derivatives ρ)}
    (h : List.Forall₂ (Related R) maps maps') :
    Related R (Derivatives.sum maps) (Derivatives.sum maps') := by
  refine List.rel_foldl (P := Related R) (R := Related R) ?_ empty h
  intro ds es hds fs gs hfs
  exact hds.plus hR hfs

/-- Two related derivatives may be added. -/
theorem sum_two (hR : Congruence P R G) {ds' es' : Derivatives ρ} (h : Related R ds es)
    (h' : Related R ds' es') :
    Related R (Derivatives.sum [ds, ds']) (Derivatives.sum [es, es']) :=
  sum hR (.cons h (.cons h' .nil))

/-- The chain rule over arguments whose partial derivatives agree where there is something
to multiply them with. -/
theorem chain (hR : Congruence P R G) {terms terms' : List (Option (Expr ρ) × Derivatives ρ)}
    (h : List.Forall₂ (fun t t' => Related R t.2 t'.2 ∧ (t.2 = .empty ∨ Option.Rel P t.1 t'.1))
      terms terms') : Related R (Derivatives.chain terms) (Derivatives.chain terms') := by
  rw [chain_eq_foldl, chain_eq_foldl]
  refine List.rel_foldl (P := Related R) ?_ empty h
  rintro ds es hds ⟨p, fs⟩ ⟨q, gs⟩ ⟨hfs, hempty | hpq⟩
  · obtain rfl : fs = .empty := hempty
    obtain rfl : gs = .empty := eq_empty hfs rfl
    rw [addScaled_empty, addScaled_empty]
    exact hds
  · cases hpq with
    | none => exact hds
    | some hpq => exact hds.plus hR (hfs.map fun hxy => hR.mul hpq hxy)

end Derivatives.Related

/-! ### Rules -/

/-- Partial derivatives by arguments, one list as good as the other: they match by every
argument that is not a constant. -/
inductive PartialsMatch (P : Expr ρ → Expr ρ → Prop) :
    List (Expr ρ) → List (Option (Expr ρ)) → List (Option (Expr ρ)) → Prop
  /-- Partial derivatives by arguments that there are not do not count. -/
  | noMore {ps qs : List (Option (Expr ρ))} : PartialsMatch P [] ps qs
  /-- Both lists are at their end. -/
  | done {xs : List (Expr ρ)} : PartialsMatch P xs [] []
  /-- The partial derivatives by the first argument, and by the others. -/
  | cons {x : Expr ρ} {xs : List (Expr ρ)} {p q : Option (Expr ρ)} {ps qs : List (Option (Expr ρ))} :
    (x.asConstant? = none → Option.Rel P p q) → PartialsMatch P xs ps qs →
      PartialsMatch P (x :: xs) (p :: ps) (q :: qs)

omit [Scalar ρ] in
/-- Lists that agree entry by entry, by every argument. -/
theorem PartialsMatch.of_forall₂ {P : Expr ρ → Expr ρ → Prop} {xs : List (Expr ρ)}
    {ps qs : List (Option (Expr ρ))} (h : List.Forall₂ (Option.Rel P) ps qs) :
    PartialsMatch P xs ps qs := by
  induction h generalizing xs with
  | nil => exact .done
  | cons hpq _ ih => cases xs with
    | nil => exact .noMore
    | cons x xs => exact .cons (fun _ => hpq) ih

/-- The rule gives related derivatives for arguments that match, and have `G`, and
derivatives that are related. -/
def Rule.Relates (P R : Expr ρ → Expr ρ → Prop) (G : Expr ρ → Prop) : Rule ρ → Prop
  | .constant => True
  | .partials f => ∀ xs ys, List.Forall₂ P xs ys → PartialsMatch P xs (f xs) (f ys)
  | .direct f => ∀ xs ys ds es, (∀ x ∈ xs, G x) → List.Forall₂ P xs ys →
    List.Forall₂ (Option.Rel R) ds es → Option.Rel R (f xs ds) (f ys es)

/-- A missing derivative counts as zero on both sides. -/
theorem Derivatives.Congruence.orZero {P R : Expr ρ → Expr ρ → Prop} {G : Expr ρ → Prop}
    (hR : Congruence P R G) {d d' : Option (Expr ρ)} (h : Option.Rel R d d') :
    R (Vocabulary.orZero d) (Vocabulary.orZero d') := by
  cases h with
  | none => exact hR.constant 0
  | some h => exact h

/-! ### A step of differentiation -/

/-- The operands with their derivatives: a constant has none by any variable. -/
def ConstantsFlat : List (Expr ρ) → List (Derivatives ρ) → Prop :=
  List.Forall₂ fun x ds => x.asConstant? ≠ none → ds = .empty

namespace Derivative

open CircuitExpr.Derivatives

omit [Scalar ρ] in
/-- The terms of the chain rule are related, unless they are empty. -/
theorem terms_related {P R : Expr ρ → Expr ρ → Prop} {xs : List (Expr ρ)}
    {ps qs : List (Option (Expr ρ))} (hpartials : PartialsMatch P xs ps qs)
    {ds es : List (Derivatives ρ)} (hds : List.Forall₂ (Related R) ds es)
    (hflat : ConstantsFlat xs ds) :
    List.Forall₂ (fun t t' => Related R t.2 t'.2 ∧ (t.2 = .empty ∨ Option.Rel P t.1 t'.1))
      (ps.zip ds) (qs.zip es) := by
  induction hpartials generalizing ds es with
  | noMore =>
    cases hflat
    cases hds
    rw [List.zip_nil_right, List.zip_nil_right]
    exact .nil
  | done => exact .nil
  | @cons x xs p q ps qs hpq _ ih =>
    cases hflat with
    | cons hx hflat =>
      cases hds with
      | cons hd hds =>
        refine .cons ⟨hd, ?_⟩ (ih hds hflat)
        by_cases h : x.asConstant? = none
        · exact .inr (hpq h)
        · exact .inl (hx h)

variable {C : ρ → ρ → Prop} {N : String → String → Prop} {R : Expr ρ → Expr ρ → Prop}
  {G : Expr ρ → Prop}

/-- The partial derivatives of a power by base and exponent. -/
theorem powerPartials_match (hC : Scalar.Compatible C) (hN : ∀ name, N name name)
    {f f' g g' : Expr ρ} (hf : Matches C N f f') (hg : Matches C N g g') (rest : List (Expr ρ)) :
    PartialsMatch (Matches C N) (f :: g :: rest) (Vocabulary.powerPartials f g)
      (Vocabulary.powerPartials f' g') := by
  refine .cons (fun hconstant => .some ?_) (.cons (fun hconstant => ?_) .done)
  · have hzero := Expr.isZero_of_asConstant? hconstant
    unfold Vocabulary.powerByBase
    obtain ⟨a, b, ha, hb, hab⟩ | ⟨ha, hb⟩ := hg.asConstant?_cases
    · have hinteger : integerExponent? a = integerExponent? b := by
        rw [integerExponent?, integerExponent?, hC.toInt? hab]
      simp only [ha, hb, hinteger]
      refine Expr.related_ite rfl (.mul hC (.constant hab) (.pow hC hf (.constant ?_) (.inl hzero)))
        (.mul hC (.constant hab) (.div hC (.pow hC hf hg (.inl hzero)) hf))
      exact hC.sub hab (hC.refl 1)
    · simp only [ha, hb]
      exact hg.mul hC (.pow hC hf (hg.sub hC (.constant (hC.refl 1))) (.inl hzero))
  · unfold Vocabulary.powerByExponent
    rw [hconstant, hg.asConstant?_eq_none.mp hconstant]
    exact .some (.mul hC (.call (hN _) (.cons hf .nil)) (.pow hC hf hg (.inr hconstant)))

/-- The rules for operators keep derivatives related. -/
theorem ofBinary_related (hC : Scalar.Compatible C) (hN : ∀ name, N name name)
    (hR : Congruence (Matches C N) R G) {op : BinaryOp} {f f' g g' : Expr ρ}
    {df df' dg dg' : Derivatives ρ} (hf : Matches C N f f') (hg : Matches C N g g')
    (hdf : Related R df df') (hdg : Related R dg dg') (hflat : ConstantsFlat [f, g] [df, dg]) :
    Option.Rel (Related R) (ofBinary op f g df dg) (ofBinary op f' g' df' dg') := by
  cases op with
  | add => exact .some (.sum_two hR hdf hdg)
  | sub => exact .some (.sum_two hR hdf (hdg.map hR.neg))
  | mul => exact .some (.sum_two hR (hdf.map (hR.mul hg)) (hdg.map (hR.mul hf)))
  | div =>
    exact .some (.sum_two hR (hdf.map fun hd => hR.div hd hg)
      (hdg.map fun hd => hR.neg (hR.div (hR.mul hf hd) (hg.mul hC hg))))
  | mod =>
    have hquotient : Matches C N (.call "trunc" [f / g]) (.call "trunc" [f' / g']) :=
      .call (hN _) (.cons (hf.div hC hg) .nil)
    exact .some (.sum_two hR hdf (hdg.map fun hd => hR.neg (hR.mul hquotient hd)))
  | pow =>
    exact .some (.chain hR (terms_related (powerPartials_match hC hN hf hg [])
      (.cons hdf (.cons hdg .nil)) hflat))
  | _ => exact .none

/-- The rule for choices keeps derivatives related. -/
theorem ofConditional_related {P : Expr ρ → Expr ρ → Prop} (hR : Congruence P R G)
    {c c' : Expr ρ} {dt dt' df df' : Derivatives ρ} (hG : G c) (hc : P c c') (hdt : Related R dt dt')
    (hdf : Related R df df') : Related R (ofConditional c dt df) (ofConditional c' dt' df') := by
  rw [ofConditional, ofConditional, Related.vars (.cons hdt (.cons hdf .nil))]
  exact .ofKeys
    (fun v => .some (hR.select hG hc (hR.orZero (hdt.get? v)) (hR.orZero (hdf.get? v)))) _

/-- The rule for calls keeps derivatives related if the rules of the functions do. -/
theorem ofCall_related {P : Expr ρ → Expr ρ → Prop} (hR : Congruence P R G)
    {rule : Option (Rule ρ)} (hrule : ∀ r, rule = some r → r.Relates P R G)
    {xs ys : List (Expr ρ)} (hG : ∀ x ∈ xs, G x) (hxs : List.Forall₂ P xs ys)
    {ds es : List (Derivatives ρ)} (hds : List.Forall₂ (Related R) ds es) (hflat : ConstantsFlat xs ds) :
    Option.Rel (Related R) (ofCall rule xs ds) (ofCall rule ys es) := by
  cases rule with
  | none =>
    have hall : ds.all OrderedMap.isEmpty = es.all OrderedMap.isEmpty := by
      clear hflat
      induction hds with
      | nil => rfl
      | cons hd _ ih => rw [List.all_cons, List.all_cons, hd.isEmpty, ih]
    rw [ofCall, ofCall, ← hall]
    split
    · exact .some .empty
    · exact .none
  | some rule =>
    have hrelates := hrule rule rfl
    cases rule with
    | constant => exact .some .empty
    | partials f => exact .some (.chain hR (terms_related (hrelates xs ys hxs) hds hflat))
    | direct f =>
      refine .some ?_
      rw [ofDirect, ofDirect, Related.vars hds]
      exact .ofKeys (fun v => hrelates _ _ _ _ hG hxs (List.rel_map (fun _ _ hd => hd.get? v) hds)) _

variable {w : Vocabulary ρ} {wanted : List Variable}

/-- **Trees that match, from related derivatives of their operands, have related
derivatives,** if functions with related names have one rule, and this relates derivatives. -/
theorem step_related (hC : Scalar.Compatible C) (hN : ∀ name, N name name)
    (hR : Congruence (Matches C N) R G) (hG : Expr.PassedOn G)
    (hnames : ∀ {name name' : String}, N name name' → w.function? name = w.function? name')
    (hrules : ∀ name arity f rule, w.functionOf? name arity = some f → f.derivative = some rule →
      rule.Relates (Matches C N) R G)
    {e e' : Expr ρ} (hgood : G e) (he : Matches C N e e')
    {ds es : List (Derivatives ρ)} (hds : List.Forall₂ (Related R) ds es)
    (hflat : ConstantsFlat e.operands ds) :
    Option.Rel (Related R) (step w wanted e ds) (step w wanted e' es) := by
  cases he with
  | constant _ => exact .some .empty
  | @var v =>
    rw [step, step]
    split
    · exact .some (.single v (hR.constant 1))
    · exact .some .empty
  | @unary op x y hxy =>
    cases op with
    | not =>
      cases hflat
      cases hds
      exact .none
    | plus =>
      obtain _ | ⟨_, _ | _⟩ := hflat
      obtain _ | ⟨hd, _ | _⟩ := hds
      exact .some hd
    | minus =>
      obtain _ | ⟨_, _ | _⟩ := hflat
      obtain _ | ⟨hd, _ | _⟩ := hds
      exact .some (hd.map hR.neg)
  | @binary op f f' g g' hf hg =>
    rw [Expr.operands] at hflat
    split at hflat
    · cases hflat
      cases hds
      exact .none
    · have htwo := hflat
      obtain _ | ⟨_, _ | ⟨_, _ | _⟩⟩ := htwo
      obtain _ | ⟨hdf, _ | ⟨hdg, _ | _⟩⟩ := hds
      exact ofBinary_related hC hN hR hf hg hdf hdg hflat
  | @call name name' xs ys hname hxs =>
    have hfunction : w.functionOf? name xs.length = w.functionOf? name' ys.length := by
      rw [Vocabulary.functionOf?, Vocabulary.functionOf?, hnames hname, hxs.length_eq]
    rw [step, step, ← hfunction]
    refine ofCall_related hR ?_ (fun x => hG.child hgood) hxs hds hflat
    intro rule hrule
    obtain ⟨f, hf, hrule⟩ := Option.bind_eq_some_iff.mp hrule
    exact hrules _ _ f rule hf hrule
  | conditional hc ht hf =>
    obtain _ | ⟨_, _ | ⟨_, _ | _⟩⟩ := hflat
    obtain _ | ⟨hdt, _ | ⟨hdf, _ | _⟩⟩ := hds
    exact .some (ofConditional_related hR (hG.child hgood List.mem_cons_self) hc hdt hdf)

/-! ### The recursion -/

/-- Lists of outcomes are related if the outcomes are, one by one. -/
theorem rel_mapM {α β γ δ : Type} {R : γ → δ → Prop} {f : α → Option γ} {g : β → Option δ}
    {xs : List α} {ys : List β} (h : List.Forall₂ (fun x y => Option.Rel R (f x) (g y)) xs ys) :
    Option.Rel (List.Forall₂ R) (xs.mapM f) (ys.mapM g) := by
  induction h with
  | nil => exact .some .nil
  | @cons x y xs ys hxy _ ih =>
    rw [List.mapM_cons, List.mapM_cons]
    cases hx : f x <;> cases hy : g y <;> rw [hx, hy] at hxy <;> cases hxy
    · exact .none
    · cases hxs : xs.mapM f <;> cases hys : ys.mapM g <;> rw [hxs, hys] at ih <;> cases ih
      · exact .none
      · exact .some (.cons ‹_› ‹_›)

/-- What follows on related outcomes is related. -/
theorem rel_bind {α β γ δ : Type} {P : α → β → Prop} {Q : γ → δ → Prop} {a : Option α}
    {b : Option β} {f : α → Option γ} {g : β → Option δ} (hab : Option.Rel P a b)
    (hfg : ∀ x y, a = some x → P x y → Option.Rel Q (f x) (g y)) :
    Option.Rel Q (a.bind f) (b.bind g) := by
  cases hab with
  | none => exact .none
  | some h => exact hfg _ _ rfl h

/-- By the recursion, a constant has no derivatives by any variable. -/
theorem constantsFlat_derivatives {xs : List (Expr ρ)} {ds : List (Derivatives ρ)}
    (h : xs.mapM (Expr.derivatives w wanted) = some ds) : ConstantsFlat xs ds := by
  induction xs generalizing ds with
  | nil =>
    obtain rfl := Option.some.inj h
    exact .nil
  | cons x xs ih =>
    rw [List.mapM_cons] at h
    obtain ⟨d, hd, h⟩ := Option.bind_eq_some_iff.mp h
    obtain ⟨ds, hds, h⟩ := Option.bind_eq_some_iff.mp h
    obtain rfl := Option.some.inj h
    refine .cons (fun hconstant => ?_) (ih hds)
    obtain ⟨c, hc⟩ := Option.ne_none_iff_exists'.mp hconstant
    rw [Expr.asConstant?_eq_some.mp hc] at hd
    exact (Option.some.inj hd).symm

/-- **Related trees have related derivatives,** if their operands are related and a step of
differentiation keeps the derivatives related. -/
theorem derivatives_related {P : Expr ρ → Expr ρ → Prop}
    (hoperands : ∀ {e e' : Expr ρ}, P e e' → List.Forall₂ P e.operands e'.operands)
    (hstep : ∀ {e e' : Expr ρ} {ds es : List (Derivatives ρ)}, P e e' →
      List.Forall₂ (Related R) ds es → ConstantsFlat e.operands ds →
        Option.Rel (Related R) (step w wanted e ds) (step w wanted e' es))
    {e e' : Expr ρ} (h : P e e') :
    Option.Rel (Related R) (e.derivatives w wanted) (e'.derivatives w wanted) := by
  induction e using Expr.childrenInduction generalizing e' with
  | step e ih =>
    rw [Expr.derivatives_eq, Expr.derivatives_eq]
    refine rel_bind (rel_mapM ?_) fun ds es hds hrel =>
      hstep h hrel (constantsFlat_derivatives hds)
    exact Expr.forall₂_imp_of_mem
      (fun x hx y hxy => ih x (Expr.mem_children_of_mem_operands hx) hxy) (hoperands h)

end Derivative
end CircuitExpr
