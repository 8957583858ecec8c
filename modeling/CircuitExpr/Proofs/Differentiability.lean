/-
# Which expressions have no derivatives

Differentiation goes through the operands of a part, so what it comes to in a tree are the
parts that are operands throughout (`Expr.Active`): not conditions, nor anything below an
operator that answers a question.  Three kinds of parts stand in its way (`Expr.Blocks`):
a negation, such an operator, and a call without a rule that depends on a wanted variable.
A tree has no derivatives if it comes to one of these, and for no other reason
(`derive_eq_none_iff`).

The walk shares what it finds between parts that count as the same, and a rule of a host
may tell such parts apart.  Then what an argument has is what the walk has found for it
(`Expr.found`), perhaps at another part.  The walk leaves a table (`Table`): what is found
for a tree is what one of the trees that count as the same has by its rule, from what is
found for its operands.  All that is said of failures follows from that.
-/

import Mathlib
import CircuitExpr.Proofs.SharedParts

namespace CircuitExpr

open CircuitExpr.Expr (Alike)

variable {ρ : Type}

/-- The operators that answer a question: how two answers go together, and how two values
compare. -/
def BinaryOp.questions : List BinaryOp := [.and, .or, .xor, .eq, .ne, .lt, .le, .gt, .ge]

/-- An operator counts as one with an answer exactly if it is one of these. -/
theorem BinaryOp.isBoolean_iff {op : BinaryOp} : op.isBoolean = true ↔ op ∈ questions := by
  cases op <;> decide

namespace Expr

/-- Differentiating the tree comes to the part: it is the tree itself, or an operand of a
part that it comes to. -/
inductive Active : Expr ρ → Expr ρ → Prop
  /-- The tree itself. -/
  | root (e : Expr ρ) : Active e e
  /-- What an operand comes to. -/
  | operand {e x y : Expr ρ} : x ∈ e.operands → Active x y → Active e y

/-- Has the expression a derivative by some variable? -/
def Depends (maps : Expr ρ → Option (Derivatives ρ)) (e : Expr ρ) : Prop :=
  ∃ ds, maps e = some ds ∧ ds.isEmpty = false

/-- The expression has no derivatives even if its operands have: it answers a question, or
calls a function without a rule on an argument that depends on a variable. -/
inductive Blocks (w : Vocabulary ρ) (maps : Expr ρ → Option (Derivatives ρ)) : Expr ρ → Prop
  /-- The opposite answer. -/
  | negation (x : Expr ρ) : Blocks w maps (.unary .not x)
  /-- The answer of a comparison, or of two answers together. -/
  | question {op : BinaryOp} (x y : Expr ρ) : op ∈ BinaryOp.questions →
    Blocks w maps (.binary op x y)
  /-- A function that has no rule for this number of arguments, or is not known. -/
  | noRule {name : String} {args : List (Expr ρ)} {x : Expr ρ} :
    (w.functionOf? name args.length).bind (·.derivative) = none → x ∈ args → x.Depends maps →
      Blocks w maps (.call name args)

/-- What is come to from a part that is come to is come to. -/
theorem Active.trans {x y z : Expr ρ} (h : x.Active y) (h' : y.Active z) : x.Active z := by
  induction h with
  | root e => exact h'
  | operand hx _ ih => exact .operand hx (ih h')

/-- An argument of a call is an operand of it. -/
theorem Active.arg {e x : Expr ρ} {name : String} {args : List (Expr ρ)}
    (h : e.Active (.call name args)) (hx : x ∈ args) : e.Active x :=
  h.trans (.operand hx (.root x))

/-- Only what is found for the arguments of calls matters. -/
theorem Blocks.congr {w : Vocabulary ρ} {maps maps' : Expr ρ → Option (Derivatives ρ)}
    {e : Expr ρ} (hmaps : ∀ name args, e = .call name args → ∀ x ∈ args,
      x.Depends maps → x.Depends maps') (h : e.Blocks w maps) : e.Blocks w maps' := by
  cases h with
  | negation x => exact .negation x
  | question x y hop => exact .question x y hop
  | noRule hrule hx hdepends => exact .noRule hrule hx (hmaps _ _ rfl _ hx hdepends)

variable [Scalar ρ]

/-- Derivatives that are alike are by the same variables. -/
theorem depends_congr {maps maps' : Expr ρ → Option (Derivatives ρ)} {x : Expr ρ}
    (h : Option.Rel Derivatives.Alike (maps x) (maps' x)) : x.Depends maps ↔ x.Depends maps' := by
  unfold Depends
  generalize maps x = ds, maps' x = es at h
  cases h with
  | none => rfl
  | some h => simp only [Option.some.injEq, exists_eq_left', h.isEmpty]

/-! ### A step -/

/-- A call without a rule has derivatives if no argument depends on a variable. -/
theorem ofCall_eq_none_iff {rule : Option (Rule ρ)} {args : List (Expr ρ)}
    {ds : List (Derivatives ρ)} :
    Derivative.ofCall rule args ds = none ↔ rule = none ∧ ∃ d ∈ ds, d.isEmpty = false := by
  cases rule with
  | none => simp [Derivative.ofCall]
  | some rule => cases rule <;> simp [Derivative.ofCall]

/-- An operator between two operands has derivatives unless it answers a question. -/
theorem ofBinary_eq_none_iff {op : BinaryOp} {f g : Expr ρ} {df dg : Derivatives ρ} :
    Derivative.ofBinary op f g df dg = none ↔ op ∈ BinaryOp.questions := by
  rw [← BinaryOp.isBoolean_iff]
  cases op <;> simp [Derivative.ofBinary, BinaryOp.isBoolean]

/-- **A step fails at what blocks,** and there only. -/
theorem step_eq_none_iff {w : Vocabulary ρ} {wanted : List Variable}
    {maps : Expr ρ → Option (Derivatives ρ)} {e : Expr ρ} {ds : List (Derivatives ρ)}
    (hds : e.operands.mapM maps = some ds) :
    Derivative.step w wanted e ds = none ↔ e.Blocks w maps := by
  have hrel := Derivative.mapM_eq_some_iff.mp hds
  cases e with
  | constant c => constructor <;> intro h <;> cases h
  | var v => constructor <;> intro h <;> cases h
  | unary op x =>
    cases op with
    | not =>
      cases hrel
      exact ⟨fun _ => .negation x, fun _ => rfl⟩
    | plus | minus =>
      obtain _ | ⟨-, _ | _⟩ := hrel
      constructor <;> intro h <;> cases h
  | binary op x y =>
    rw [operands] at hrel
    split at hrel
    · rename_i hop
      cases hrel
      exact ⟨fun _ => .question x y (BinaryOp.isBoolean_iff.mp hop), fun _ => rfl⟩
    · rename_i hop
      obtain _ | ⟨-, _ | ⟨-, _ | _⟩⟩ := hrel
      rw [Derivative.step, ofBinary_eq_none_iff]
      constructor
      · exact fun hquestion => absurd (BinaryOp.isBoolean_iff.mpr hquestion) hop
      · rintro (_ | ⟨-, -, hquestion⟩)
        exact hquestion
  | call name args =>
    rw [Derivative.step, ofCall_eq_none_iff]
    constructor
    · rintro ⟨hrule, d, hd, hnonempty⟩
      obtain ⟨x, hx, hmaps⟩ := exists_left_of_mem hrel hd
      exact .noRule hrule hx ⟨d, hmaps, hnonempty⟩
    · rintro (_ | _ | ⟨hrule, hx, d, hmaps, hnonempty⟩)
      obtain ⟨d', hd', hmaps'⟩ := exists_right_of_mem hrel hx
      obtain rfl := Option.some.inj (hmaps.symm.trans hmaps')
      exact ⟨hrule, d, hd', hnonempty⟩
  | conditional c t f =>
    obtain _ | ⟨-, _ | ⟨-, _ | _⟩⟩ := hrel
    constructor <;> intro h <;> cases h

end Expr

/-! ### Hashes -/

section Hashes

variable [Scalar ρ]

/-- Subtrees count as the same if hashes and trees do. -/
theorem Subtree.same_iff {s t : Subtree ρ} :
    s.same t = true ↔ s.hash = t.hash ∧ Expr.same s.tree t.tree = true := by
  rw [same, Bool.and_eq_true, beq_iff_eq]

namespace Expr

/-- Trees that are alike have the same label. -/
theorem label_alike {x y : Expr ρ} (h : Alike x y) : x.label = y.label := by
  cases h with
  | constant hab => exact congrArg Label.constant (Scalar.same_iff.mp hab)
  | _ => rfl

/-- Their children are alike, one by one. -/
theorem children_alike {x y : Expr ρ} (h : Alike x y) :
    List.Forall₂ Alike x.children y.children := by
  cases h with
  | constant _ => exact .nil
  | var => exact .nil
  | unary hx => exact .cons hx .nil
  | binary hx hy => exact .cons hx (.cons hy .nil)
  | call hxs => exact hxs
  | conditional hc ht hf => exact .cons hc (.cons ht (.cons hf .nil))

/-- Trees that count as the same have the same hash. -/
theorem hash_alike (mix : Hasher ρ) {x y : Expr ρ} (h : Alike x y) :
    (x.hashed mix).hash = (y.hashed mix).hash := by
  induction x using childrenInduction generalizing y with
  | step x ih =>
    have hparts : (x.children.map fun z => (z.hashed mix).hash) =
        y.children.map fun z => (z.hashed mix).hash :=
      map_eq_map_of_forall₂ (forall₂_imp_of_mem (fun z hz _ hzy => ih z hz hzy) (children_alike h))
    rw [hashed_eq, hashed_eq, Subtree.build, Subtree.build, Subtree.hash, Subtree.hash,
      label_alike h, List.map_map, List.map_map]
    exact congrArg (mix y.label) hparts

/-- Hashed trees count as the same if the trees are alike. -/
theorem same_hashed_iff (mix : Hasher ρ) {x y : Expr ρ} :
    (x.hashed mix).same (y.hashed mix) = true ↔ Alike x y := by
  rw [Subtree.same_iff, tree_hashed, tree_hashed, same_iff_alike]
  exact ⟨fun h => h.2, fun h => ⟨hash_alike mix h, h⟩⟩

/-- The operands of a hashed tree are the hashed operands. -/
theorem operands_hashed (mix : Hasher ρ) (x : Expr ρ) :
    Derivative.operands (x.hashed mix) = x.operands.map (hashed mix) := by
  unfold Derivative.operands
  rw [tree_hashed, parts_hashed]
  cases x with
  | unary op x => cases op <;> rfl
  | binary op x y => cases hop : op.isBoolean <;> simp [operands, children, hop]
  | _ => rfl

end Expr

namespace Derivative

/-- A memory does not tell apart parts that count as the same. -/
theorem Memo.find?_congr {s t : Subtree ρ} (h : s.same t = true) (m : Memo ρ) :
    m.find? s = m.find? t := by
  obtain ⟨hhash, htree⟩ := Subtree.same_iff.mp h
  have halike : Alike s.tree t.tree := Expr.same_iff_alike.mp htree
  have hentry (u : Subtree ρ) : u.same s = u.same t := by
    rw [Bool.eq_iff_iff, Subtree.same_iff, Subtree.same_iff, hhash, Expr.same_iff_alike,
      Expr.same_iff_alike]
    exact and_congr_right' ⟨fun hu => hu.trans halike, fun hu => hu.trans halike.symm⟩
  rw [Memo.find?, Memo.find?, hhash]
  simp only [hentry]

/-- What is known of a part stays known when another is remembered. -/
theorem Memo.lookup_insert_of_contains {m : Memo ρ} {s t : Subtree ρ}
    (hs : m.contains s = false) (ht : m.contains t = true) (ds : Option (Derivatives ρ)) :
    (m.insert s ds).lookup t = m.lookup t := by
  rw [Memo.lookup_insert, if_neg]
  intro hsame
  rw [Memo.contains, Memo.find?_congr hsame, ← Memo.contains, ht] at hs
  cases hs

end Derivative

end Hashes

/-! ### Tables of derivatives -/

namespace Derivative

/-- What was found for some trees, trees that count as the same sharing what was found for
one of them. -/
structure Table [Scalar ρ] (w : Vocabulary ρ) (wanted : List Variable) (known : Expr ρ → Prop)
    (found : Expr ρ → Option (Derivatives ρ)) : Prop where
  /-- Trees that count as the same share what was found. -/
  shared : ∀ {x y : Expr ρ}, Alike x y → found x = found y
  /-- The operands of a known tree are known. -/
  operand : ∀ {x o : Expr ρ}, known x → o ∈ x.operands → known o
  /-- What was found for a tree comes by the rule of one that counts as the same. -/
  computed : ∀ {x : Expr ρ}, known x → ∃ y, Alike y x ∧
    found x = (y.operands.mapM found).bind (step w wanted y)

namespace Table

variable [Scalar ρ] {w : Vocabulary ρ} {wanted : List Variable} {known : Expr ρ → Prop}
  {found : Expr ρ → Option (Derivatives ρ)}

/-- All that a known tree comes to is known. -/
theorem active (h : Table w wanted known found) {x y : Expr ρ} (hx : known x)
    (hy : x.Active y) : known y := by
  induction hy with
  | root e => exact hx
  | operand ho _ ih => exact ih (h.operand hx ho)

/-- What is found for the operands is the same for trees that are alike. -/
theorem mapM_operands (h : Table w wanted known found) {x y : Expr ρ} (hxy : Alike x y) :
    x.operands.mapM found = y.operands.mapM found :=
  mapM_eq_mapM_of_forall₂ ((operands_alike hxy).imp fun _ _ => h.shared)

/-- Of trees that are alike, both block or none does. -/
theorem blocks (h : Table w wanted known found) {x y : Expr ρ} (hxy : Alike x y)
    (hx : x.Blocks w found) : y.Blocks w found := by
  cases hx with
  | negation x =>
    obtain _ | _ | ⟨hxy⟩ := hxy
    exact .negation _
  | question x x' hop =>
    cases hxy
    exact .question _ _ hop
  | noRule hrule hz hdepends =>
    cases hxy with
    | call hargs =>
      obtain ⟨z', hz', halike⟩ := exists_right_of_mem hargs hz
      refine .noRule (hargs.length_eq ▸ hrule) hz' ?_
      rwa [Expr.Depends, ← h.shared halike]

/-- A known tree has no derivatives if an operand has none, or if it blocks itself. -/
theorem eq_none_iff_operand (h : Table w wanted known found) {x : Expr ρ} (hx : known x) :
    found x = none ↔ (∃ o ∈ x.operands, found o = none) ∨ x.Blocks w found := by
  obtain ⟨y, hyx, hfound⟩ := h.computed hx
  rw [hfound, ← mapM_eq_none_iff, h.mapM_operands hyx]
  cases hds : x.operands.mapM found with
  | none => exact ⟨fun _ => .inl rfl, fun _ => rfl⟩
  | some ds =>
    rw [Option.bind_some, Expr.step_eq_none_iff ((h.mapM_operands hyx).trans hds)]
    constructor
    · exact fun hblocks => .inr (h.blocks hyx hblocks)
    · rintro (hnone | hblocks)
      · cases hnone
      · exact h.blocks hyx.symm hblocks

/-- **A known tree has no derivatives if it comes to a part that blocks.** -/
theorem eq_none_iff (h : Table w wanted known found) {x : Expr ρ} (hx : known x) :
    found x = none ↔ ∃ y, x.Active y ∧ y.Blocks w found := by
  induction x using Expr.childrenInduction with
  | step x ih =>
    rw [h.eq_none_iff_operand hx]
    constructor
    · rintro (⟨o, ho, hnone⟩ | hblocks)
      · obtain ⟨y, hy, hblocks⟩ :=
          (ih o (Expr.mem_children_of_mem_operands ho) (h.operand hx ho)).mp hnone
        exact ⟨y, .operand ho hy, hblocks⟩
      · exact ⟨x, .root x, hblocks⟩
    · rintro ⟨y, _ | ⟨ho, hy⟩, hblocks⟩
      · exact .inr hblocks
      · refine .inl ⟨_, ho, ?_⟩
        exact (ih _ (Expr.mem_children_of_mem_operands ho) (h.operand hx ho)).mpr ⟨y, hy, hblocks⟩

end Table

/-! ### The table of the walk -/

variable [Scalar ρ] {w : Vocabulary ρ} {wanted : List Variable} {mix : Hasher ρ}

/-- The walk, under the hashes of `mix`, knows derivatives as a table. -/
structure Tabulates (mix : Hasher ρ) (w : Vocabulary ρ) (wanted : List Variable)
    (st : State ρ) : Prop where
  /-- The parts on the stack are hashed trees. -/
  hashed : ∀ v ∈ st.pending, ∃ x : Expr ρ, v.part = x.hashed mix
  /-- What is known is a table. -/
  table : Table w wanted (fun x => st.memo.contains (x.hashed mix) = true)
    fun x => st.memo.lookup (x.hashed mix)

/-- At the start the table is empty. -/
theorem tabulates_start (e : Expr ρ) :
    Tabulates mix w wanted ⟨[.enter (e.hashed mix)], .empty⟩ := by
  have hempty (s : Subtree ρ) : (Memo.empty : Memo ρ).find? s = none := by
    simp [Memo.find?, Memo.bucket, Memo.empty]
  refine ⟨List.forall_mem_singleton.mpr ⟨e, rfl⟩, ?_, ?_, ?_⟩
  · intro x y _
    simp only [Memo.lookup, hempty]
  · intro x o hx
    rw [Memo.contains, hempty] at hx
    cases hx
  · intro x hx
    rw [Memo.contains, hempty] at hx
    cases hx

/-- Remembering what was computed for a tree keeps the table. -/
theorem Table.insert {m : Memo ρ}
    (h : Table w wanted (fun x => m.contains (x.hashed mix) = true)
      fun x => m.lookup (x.hashed mix)) {x : Expr ρ} (hx : m.contains (x.hashed mix) = false)
    (hoperands : ∀ o ∈ x.operands, m.contains (o.hashed mix) = true) :
    Table w wanted
      (fun y => (m.insert (x.hashed mix) (compute w wanted m (x.hashed mix))).contains
        (y.hashed mix) = true)
      fun y => (m.insert (x.hashed mix) (compute w wanted m (x.hashed mix))).lookup
        (y.hashed mix) := by
  have hcongr (m : Memo ρ) {y z : Expr ρ} (hyz : Alike y z) :
      m.find? (y.hashed mix) = m.find? (z.hashed mix) :=
    Memo.find?_congr ((Expr.same_hashed_iff mix).mpr hyz) m
  have hstays {y : Expr ρ} (hy : ∀ o ∈ y.operands, m.contains (o.hashed mix) = true)
      (ds : Option (Derivatives ρ)) :
      (y.operands.mapM fun o => (m.insert (x.hashed mix) ds).lookup (o.hashed mix)) =
        y.operands.mapM fun o => m.lookup (o.hashed mix) :=
    Derivative.mapM_eq_mapM_of_forall₂ (List.forall₂_same.mpr fun o ho =>
      Memo.lookup_insert_of_contains hx (hy o ho) ds)
  have hcases {y : Expr ρ} {ds : Option (Derivatives ρ)}
      (hy : (m.insert (x.hashed mix) ds).contains (y.hashed mix) = true) :
      Alike x y ∨ m.contains (y.hashed mix) = true := by
    rwa [Memo.contains_insert_eq, Bool.or_eq_true, Expr.same_hashed_iff] at hy
  refine ⟨fun hyz => ?_, fun {y o} hy ho => ?_, fun {y} hy => ?_⟩
  · rw [Memo.lookup, Memo.lookup, hcongr _ hyz]
  · refine Memo.contains_insert (.inl ?_)
    obtain hxy | hy := hcases hy
    · obtain ⟨o', ho', halike⟩ := exists_left_of_mem (operands_alike hxy) ho
      rw [Memo.contains, ← hcongr m halike]
      exact hoperands o' ho'
    · exact h.operand hy ho
  · -- `x` is computed from operands that are in the table, and its own entry changes none of them;
    -- what was computed before still has its operands
    by_cases hxy : Alike x y
    · refine ⟨x, hxy, ?_⟩
      rw [Memo.lookup_insert, if_pos ((Expr.same_hashed_iff mix).mpr hxy), hstays hoperands,
        compute, Expr.operands_hashed, List.mapM_map, Expr.tree_hashed]
      rfl
    · have hy := (hcases hy).resolve_left hxy
      obtain ⟨z, hzy, hfound⟩ := h.computed hy
      refine ⟨z, hzy, ?_⟩
      rw [hstays fun o ho => ?_, Memo.lookup_insert_of_contains hx hy]
      · exact hfound
      · refine h.operand ?_ ho
        rw [Memo.contains, hcongr m hzy]
        exact hy

/-- **A turn of the walk keeps the table.** -/
theorem Tabulates.advance {root : Subtree ρ} {st st' : State ρ} (h : Tabulates mix w wanted st)
    (horderly : Orderly root st) (hst : advance w wanted st = some st') :
    Tabulates mix w wanted st' := by
  have hoperands (s : Subtree ρ) (hs : ∃ x : Expr ρ, s = x.hashed mix) (t : Subtree ρ)
      (ht : t ∈ operands s) : ∃ x : Expr ρ, t = x.hashed mix := by
    obtain ⟨x, rfl⟩ := hs
    rw [Expr.operands_hashed] at ht
    obtain ⟨y, -, rfl⟩ := List.mem_map.mp ht
    exact ⟨y, rfl⟩
  refine ⟨forall_pending_advance hoperands h.hashed hst, ?_⟩
  obtain hmemo | ⟨s, rest, hpending, hnew, hmemo⟩ := memo_advance hst
  · rw [hmemo]
    exact h.table
  · obtain ⟨x, rfl⟩ : ∃ x : Expr ρ, s = x.hashed mix :=
      h.hashed (.leave s) (hpending ▸ List.mem_cons_self)
    rw [hmemo]
    refine h.table.insert hnew fun o ho => (hpending ▸ horderly.prepared).1 _ rfl _ ?_
    rw [Expr.operands_hashed]
    exact List.mem_map_of_mem ho

/-- **A run of the walk keeps the table.** -/
theorem Tabulates.runs {root : Subtree ρ} {st st' : State ρ} (h : Tabulates mix w wanted st)
    (horderly : Orderly root st) (hruns : Runs w wanted st st') : Tabulates mix w wanted st' := by
  induction hruns with
  | refl => exact h
  | tail hfirst hlast ih => exact ih.advance (horderly.runs hfirst) hlast

end Derivative

/-! ### Failures -/

namespace Expr

section Walk

variable [Scalar ρ]

/-- What is known at the end of the walk from the tree. -/
def known (e : Expr ρ) (w : Vocabulary ρ) (wanted : List Variable) : Derivative.Memo ρ :=
  Derivative.walk w wanted [.enter (e.hashed Label.mix)] .empty

/-- The derivatives that the walk from the tree has found for an expression. -/
def found (e : Expr ρ) (w : Vocabulary ρ) (wanted : List Variable) (x : Expr ρ) :
    Option (Derivatives ρ) :=
  (e.known w wanted).lookup (x.hashed Label.mix)

/-- What differentiation yields is what the walk has found for the tree. -/
theorem derive_eq_found (w : Vocabulary ρ) (wanted : List Variable) (e : Expr ρ) :
    e.derive w wanted = e.found w wanted e :=
  deriveWith_eq_ofSubtree Label.mix w wanted e

/-- What the walk has found is a table. -/
theorem table_found (w : Vocabulary ρ) (wanted : List Variable) (e : Expr ρ) :
    Derivative.Table w wanted (fun x => (e.known w wanted).contains (x.hashed Label.mix) = true)
      (e.found w wanted) :=
  ((Derivative.tabulates_start e).runs (Derivative.orderly_start (e.faithful_hashed Label.mix))
    (Derivative.runs_walk _ _)).table

/-- The walk finds out about every part that it comes to. -/
theorem known_of_active (w : Vocabulary ρ) (wanted : List Variable) {e x : Expr ρ}
    (h : e.Active x) : (e.known w wanted).contains (x.hashed Label.mix) = true :=
  (table_found w wanted e).active (Derivative.contains_walk (e.faithful_hashed Label.mix)) h

/-- A wanted variable has derivative one by itself, and another has none. -/
theorem derive_var (w : Vocabulary ρ) (wanted : List Variable) (v : Variable) :
    (Expr.var v : Expr ρ).derive w wanted =
      some (if v ∈ wanted then .single v Expr.one else .empty) := by
  obtain ⟨y, ⟨⟩, hfound⟩ :=
    (table_found w wanted (.var v)).computed (known_of_active w wanted (.root (.var v)))
  rw [derive_eq_found, hfound]
  rfl

end Walk

variable {w : Vocabulary Double} {wanted : List Variable} {e x : Expr Double}

/-- Under rules that do not tell apart what counts as the same, the walk has found a derivative
for a part if a walk of its own would find one. -/
theorem depends_found_iff (hw : w.RespectsKeys) (h : e.Active x) :
    x.Depends (e.found w wanted) ↔ x.Depends (derive w wanted) := by
  have hstable : Derivative.Stable w wanted :=
    fun he hds hflat => Derivative.step_alike hw wanted he hds hflat
  have hend := (Derivative.consistent_start (e.faithful_hashed Label.mix)).runs hstable
    (Derivative.runs_walk _ _)
  have hfound := hend.sound.lookup (known_of_active w wanted h)
  rw [tree_hashed] at hfound
  exact (depends_congr hfound).symm.trans (depends_congr (derivatives_alike_derive hw wanted x))

/-- **What has no derivatives.** -/
theorem derive_eq_none_iff (w : Vocabulary Double) (wanted : List Variable) (e : Expr Double) :
    (e.derive w wanted = none ↔ ∃ x, e.Active x ∧ x.Blocks w (e.found w wanted)) ∧
    (w.RespectsKeys →
      (e.derive w wanted = none ↔ ∃ x, e.Active x ∧ x.Blocks w (derive w wanted))) := by
  have hfound : e.derive w wanted = none ↔ ∃ x, e.Active x ∧ x.Blocks w (e.found w wanted) := by
    rw [derive_eq_found]
    exact (table_found w wanted e).eq_none_iff (known_of_active w wanted (.root e))
  refine ⟨hfound, fun hw => hfound.trans (exists_congr fun x => and_congr_right fun hx => ?_)⟩
  have hargs {y : Expr Double} {name : String} {args : List (Expr Double)}
      (hcall : x = .call name args) (hy : y ∈ args) :
      y.Depends (e.found w wanted) ↔ y.Depends (derive w wanted) :=
    depends_found_iff hw ((hcall ▸ hx).arg hy)
  exact ⟨.congr fun _ _ hcall _ hy => (hargs hcall hy).mp,
    .congr fun _ _ hcall _ hy => (hargs hcall hy).mpr⟩

/-- A branch that is never taken, with a function that is not known. -/
theorem derive_untakenBranch_eq_none :
    (Vocabulary.builtin : Vocabulary Double).RespectsKeys ∧
      (conditional (.binary .lt .zero .one) (.var (.named "x"))
        (.call "mystery" [.var (.named "y")]) : Expr Double).derive .builtin [.named "y"] = none := by
  have hrule : ((Vocabulary.builtin : Vocabulary Double).functionOf? "mystery" 1).bind
      (·.derivative) = none := by
    rw [Option.bind_eq_none_iff]
    intro f hf
    obtain ⟨hmem, hname, -⟩ := Vocabulary.builtin_functionOf?_eq_some.mp hf
    have hnames : Text.lowercase "mystery" ∉
        (Vocabulary.builtinFunctions : List (NamedFunction Double)).map (·.name) := by
      rw [Vocabulary.names_builtinFunctions]
      decide +kernel
    exact absurd (hname ▸ List.mem_map_of_mem hmem) hnames
  refine ⟨Vocabulary.respectsKeys_builtin,
    ((derive_eq_none_iff _ _ _).2 Vocabulary.respectsKeys_builtin).mpr
      ⟨_, .operand (List.mem_cons_of_mem _ List.mem_cons_self) (.root _),
        .noRule hrule List.mem_cons_self ⟨_, derive_var _ _ _, rfl⟩⟩⟩

end Expr
end CircuitExpr
