/-
# Maps of derivatives, variable by variable

Derivatives by several variables are computed together, in maps.  What such a map says of
one variable comes from what its operands say of the same variable: `get?_plus`,
`get?_ofKeys` and `OrderedMap.get?_map` are all that is needed to know of maps.

A variable without an entry has derivative zero.  `Slope` says what the derivative by a
variable is worth in a valuation, an entry or not, and each way to combine maps combines
the slopes; `HasSlope` is the slope at a point.
-/

import Mathlib
import CircuitExpr.Derivative.Rules
import CircuitExpr.Proofs.FoldedValues
import CircuitExpr.Proofs.OrderedKeys

namespace CircuitExpr

/-! ### Entries -/

namespace OrderedMap

variable {κ ν μ : Type} [DecidableEq κ]

/-- Mapping the values maps what is found. -/
@[simp]
theorem get?_map (f : ν → μ) (m : OrderedMap κ ν) (k : κ) :
    (m.map f).get? k = (m.get? k).map f := by
  have h (es : List (κ × ν)) :
      lookup? k (es.map fun e => (e.1, f e.2)) = (lookup? k es).map f := by
    induction es with
    | nil => rfl
    | cons e es ih =>
      simp only [List.map_cons, lookup?, ih]
      split <;> rfl
  exact h m.entries

/-- One entry is found under its own key. -/
theorem get?_single (k k' : κ) (x : ν) :
    (single k x).get? k' = if k = k' then some x else none := rfl

/-- Nothing is found under what is no key. -/
theorem get?_eq_none {m : OrderedMap κ ν} {k : κ} (h : k ∉ m.keys) : m.get? k = none := by
  have hcontains := mt (contains_iff m k).mp h
  rwa [contains, Bool.not_eq_true, Option.isSome_eq_false_iff, Option.isNone_iff_eq_none]
    at hcontains

/-- What an entry holds is found at its key. -/
theorem get?_of_mem_entries {m : OrderedMap κ ν} {entry : κ × ν} (h : entry ∈ m.entries) :
    m.get? entry.1 = some entry.2 := by
  obtain ⟨entries, hnodup⟩ := m
  change entry ∈ entries at h
  change lookup? entry.1 entries = some entry.2
  induction entries with
  | nil => cases h
  | cons e es ih =>
    obtain ⟨hne, hnodup⟩ := List.nodup_cons.mp hnodup
    obtain rfl | h := List.mem_cons.mp h
    · exact if_pos rfl
    · have hkey : ¬e.1 = entry.1 := fun heq => hne (heq ▸ List.mem_map_of_mem h)
      rw [lookup?, if_neg hkey, ih hnodup h]

/-- Keeping the value of a key changes what is found at this key only. -/
theorem get?_keep (f : κ → Option ν) (m : OrderedMap κ ν) (k k' : κ) :
    (match f k' with
      | some x => m.insert k' x
      | none => m : OrderedMap κ ν).get? k =
      if k' = k then (f k).or (m.get? k) else m.get? k := by
  split
  · rename_i x hx
    rw [get?_insert]
    split
    · rename_i h
      rw [← h, hx, Option.some_or]
    · rfl
  · rename_i hx
    split
    · rename_i h
      rw [← h, hx, Option.none_or]
    · rfl

/-- The map of a function holds its values at the keys. -/
theorem get?_ofKeys (f : κ → Option ν) (ks : List κ) (k : κ) :
    (ofKeys f ks).get? k = if k ∈ ks then f k else none := by
  have h (m : OrderedMap κ ν) (hm : (f k).or (m.get? k) = f k) :
      (ks.foldl (fun m k => match f k with
        | some x => m.insert k x
        | none => m) m).get? k = if k ∈ ks then f k else m.get? k := by
    induction ks generalizing m with
    | nil => rfl
    | cons k' ks ih =>
      have hkeep := get?_keep f m k k'
      by_cases hk : k' = k
      · rw [if_pos hk, hm] at hkeep
        rw [List.foldl_cons, ih _ (by rw [hkeep]; exact Option.or_self), hkeep, ite_self,
          if_pos (hk ▸ List.mem_cons_self)]
      · rw [if_neg hk] at hkeep
        rw [List.foldl_cons, ih _ (by rw [hkeep, hm]), hkeep]
        simp [List.mem_cons, Ne.symm hk]
  exact h empty (Option.or_none)

end OrderedMap

namespace Derivatives

section Entries

variable {ρ : Type} [Scalar ρ]

/-- A term is added to what the map has for its variable. -/
theorem get?_addTerm (ds : Derivatives ρ) (v v' : Variable) (term : Expr ρ) :
    (ds.addTerm v term).get? v' =
      if v = v' then Option.merge (· + ·) (ds.get? v') (some term) else ds.get? v' := by
  unfold addTerm
  split
  · rename_i current hcurrent
    rw [OrderedMap.get?_insert]
    split
    · rename_i h
      rw [← h, hcurrent]
      rfl
    · rfl
  · rename_i hnone
    rw [OrderedMap.get?_insert]
    split
    · rename_i h
      rw [← h, hnone]
      rfl
    · rfl

/-- **Maps are added entry by entry.** -/
theorem get?_plus (ds es : Derivatives ρ) (v : Variable) :
    (plus ds es).get? v = Option.merge (· + ·) (ds.get? v) (es.get? v) := by
  have h (l : List (Variable × Expr ρ)) (hl : (l.map Prod.fst).Nodup) (ds : Derivatives ρ) :
      (l.foldl (fun acc e => acc.addTerm e.1 e.2) ds).get? v =
        Option.merge (· + ·) (ds.get? v) (OrderedMap.lookup? v l) := by
    induction l generalizing ds with
    | nil => exact Option.merge_none_right.symm
    | cons e l ih =>
      rw [List.map_cons, List.nodup_cons] at hl
      rw [List.foldl_cons, ih hl.2, get?_addTerm, OrderedMap.lookup?]
      split
      · rename_i he
        have hnone : OrderedMap.lookup? v l = none := by
          have hnot := mt (OrderedMap.lookup?_isSome_iff v l).mp (he ▸ hl.1)
          simpa using hnot
        rw [hnone, Option.merge_none_right]
      · rfl
  exact h es.entries es.nodup_keys ds

/-- The derivatives with those of one argument, times the partial derivative by it, if
there is one. -/
def addScaled (ds : Derivatives ρ) (t : Option (Expr ρ) × Derivatives ρ) : Derivatives ρ :=
  match t.1 with
  | some partialBy => ds.plus (t.2.map fun d => partialBy * d)
  | none => ds

/-- The chain rule takes in one argument after the other. -/
theorem chain_eq_foldl (terms : List (Option (Expr ρ) × Derivatives ρ)) :
    chain terms = terms.foldl addScaled .empty := by
  rw [chain, sum, List.foldl_filterMap]
  congr 1
  funext ds t
  unfold addScaled
  cases t.1 <;> rfl

/-- An argument without derivatives adds nothing. -/
theorem addScaled_empty (ds : Derivatives ρ) (partialBy : Option (Expr ρ)) :
    ds.addScaled (partialBy, .empty) = ds := by
  cases partialBy <;> rfl

omit [Scalar ρ] in
/-- A variable that is not among those of some maps has no entry in them. -/
theorem get?_eq_none_of_not_mem_vars {maps : List (Derivatives ρ)} {v : Variable}
    (hv : v ∉ vars maps) {m : Derivatives ρ} (hm : m ∈ maps) : m.get? v = none := by
  refine OrderedMap.get?_eq_none fun hkey => hv ?_
  exact OrderedMap.mem_distinct.mpr (List.mem_flatMap.mpr ⟨m, hm, hkey⟩)

end Entries

/-! ### Slopes -/

section Slopes

open Vocabulary (orZero)
open CircuitExpr.Expr (HasValue)

variable {K S : Type} [Field K] [LinearOrder K] [FloorRing K] [AnalyticFunctions K]

/-- The derivative by the variable is worth `a`; without an entry it is zero. -/
def Slope (V : Expr K → K → Prop) (m : Derivatives K) (v : Variable) (a : K) : Prop :=
  V (orZero (m.get? v)) a

namespace Slope

variable {V : Expr K → K → Prop} {m n : Derivatives K} {v : Variable} {a b : K}

/-- The empty map has slope zero. -/
theorem empty (hV : Expr.Valuation V) : Slope V .empty v 0 := hV.zero

/-- The slope by a variable without an entry stands for zero. -/
theorem unique (hV : Expr.Valuation V) (hm : Slope V m v a) (hnone : m.get? v = none)
    (φ : K → K) {x : Expr K} (hx : V x (φ 0)) : V x (φ a) := by
  rw [Slope, hnone] at hm
  exact hV.unique hm φ hx

/-- A map changed value by value, in a way that leaves zero alone. -/
theorem map (hV : Expr.Valuation V) (hm : Slope V m v a) {f : Expr K → Expr K} {φ : K → K}
    (hf : ∀ d, m.get? v = some d → V d a → V (f d) (φ a)) (hzero : V Expr.zero (φ 0)) :
    Slope V (m.map f) v (φ a) := by
  rw [Slope, OrderedMap.get?_map]
  cases h : m.get? v with
  | none => exact hm.unique hV h φ hzero
  | some d =>
    rw [Slope, h] at hm
    exact hf d h hm

/-- Slopes add up with the maps. -/
theorem plus (hV : Expr.Valuation V) (hm : Slope V m v a) (hn : Slope V n v b) :
    Slope V (Derivatives.plus m n) v (a + b) := by
  rw [Slope, get?_plus]
  cases h : m.get? v with
  | none =>
    rw [Option.merge_none_left]
    refine hm.unique hV h (· + b) ?_
    rwa [zero_add]
  | some d =>
    cases h' : n.get? v with
    | none =>
      rw [Option.merge_none_right, ← h]
      refine hn.unique hV h' (a + ·) ?_
      rwa [add_zero]
    | some d' =>
      rw [Slope, h] at hm
      rw [Slope, h'] at hn
      exact hV.add hm hn

/-- The slope of a sum is the sum of the slopes. -/
theorem sum (hV : Expr.Valuation V) {maps : List (Derivatives K)} {slopes : List K}
    (h : List.Forall₂ (Slope V · v) maps slopes) :
    Slope V (Derivatives.sum maps) v slopes.sum := by
  have hfoldl : ∀ {m : Derivatives K} {a : K}, Slope V m v a →
      Slope V (maps.foldl Derivatives.plus m) v (a + slopes.sum) := by
    induction h with
    | nil => exact fun hm => by rwa [List.sum_nil, add_zero]
    | cons hx _ ih =>
      intro m a hm
      rw [List.sum_cons, ← add_assoc]
      exact ih (hm.plus hV hx)
  have h0 := hfoldl (empty hV)
  rwa [zero_add] at h0

/-- Slopes of two maps add up. -/
theorem sum_two (hV : Expr.Valuation V) (hm : Slope V m v a) (hn : Slope V n v b) :
    Slope V (Derivatives.sum [m, n]) v (a + b) := by
  have h := sum hV (.cons hm (.cons hn .nil))
  rwa [List.sum_cons, List.sum_singleton] at h

/-- One argument counts for the slope with its partial derivative, if the others have
none or no derivatives. -/
theorem chain_one (hV : Expr.Valuation V) (hm : Slope V m v a) {partialBy : Expr K}
    (hpartial : ∀ d, m.get? v = some d → V partialBy b)
    {rest : List (Option (Expr K) × Derivatives K)}
    (hrest : ∀ t ∈ rest, t.1 = none ∨ t.2 = .empty) :
    Slope V (Derivatives.chain ((some partialBy, m) :: rest)) v (b * a) := by
  have hkeep (ds : Derivatives K) : rest.foldl addScaled ds = ds := by
    induction rest with
    | nil => rfl
    | cons t rest ih =>
      have ht : ds.addScaled t = ds := by
        obtain ⟨partialBy?, n⟩ := t
        rcases hrest _ List.mem_cons_self with h | h
        · obtain rfl : partialBy? = none := h
          rfl
        · obtain rfl : n = .empty := h
          exact addScaled_empty ds partialBy?
      rw [List.foldl_cons, ht, ih fun t ht => hrest t (List.mem_cons_of_mem _ ht)]
  have hterm : Slope V (m.map fun d => partialBy * d) v (b * a) :=
    hm.map hV (φ := fun a => b * a) (fun d hd h => hV.mul (hpartial d hd) h)
      (by rw [mul_zero]; exact hV.zero)
  rw [chain_eq_foldl, List.foldl_cons, hkeep, addScaled]
  have h := (empty hV).plus hV hterm
  rwa [zero_add] at h

end Slope

/-- The derivative by the variable has the value `a`; without an entry it is zero. -/
def HasSlope (p : Point S K) (reached : Prop) (m : Derivatives K) (v : Variable) (a : K) : Prop :=
  HasValue p reached (orZero (m.get? v)) a

variable {p : Point S K} {reached : Prop} {v : Variable} {a b : K}

/-- What a slope is said to be matters only where it is reached. -/
theorem HasSlope.congr {m : Derivatives K} (hm : HasSlope p reached m v a)
    (hab : reached → a = b) : HasSlope p reached m v b :=
  HasValue.congr hm hab

/-- A slope that is right where it is reached is right where less is. -/
theorem HasSlope.mono {m : Derivatives K} {reached' : Prop} (hm : HasSlope p reached m v a)
    (hr : reached' → reached) : HasSlope p reached' m v a :=
  HasValue.mono hm hr

/-- A variable without an entry has slope zero. -/
theorem HasSlope.eq_zero {m : Derivatives K} (hm : HasSlope p reached m v a)
    (hnone : m.get? v = none) (hr : reached) : a = 0 := by
  rw [HasSlope, hnone] at hm
  exact HasValue.eq_of_asConstant? hm rfl hr

/-- The empty map has slope zero. -/
theorem HasSlope.empty : HasSlope p reached .empty v 0 := HasValue.zero

/-- A variable by itself has slope one. -/
theorem HasSlope.single (v' : Variable) :
    HasSlope p reached (.single v' Expr.one) v (if v' = v then 1 else 0) := by
  unfold HasSlope
  rw [OrderedMap.get?_single]
  split
  · exact HasValue.one
  · exact HasValue.zero

/-- A map changed value by value, in a way that leaves zero alone. -/
theorem HasSlope.map {m : Derivatives K} (hm : HasSlope p reached m v a) {f : Expr K → Expr K}
    {φ : K → K} (hf : ∀ d, HasValue p reached d a → HasValue p reached (f d) (φ a))
    (hzero : reached → φ 0 = 0) : HasSlope p reached (m.map f) v (φ a) :=
  Slope.map HasValue.valuation hm (fun d _ => hf d)
    (HasValue.zero.congr fun hr => (hzero hr).symm)

/-- Slopes of two maps add up. -/
theorem HasSlope.sum_two {m n : Derivatives K} (hm : HasSlope p reached m v a)
    (hn : HasSlope p reached n v b) : HasSlope p reached (Derivatives.sum [m, n]) v (a + b) :=
  Slope.sum_two HasValue.valuation hm hn

/-- One argument counts for the slope with its partial derivative. -/
theorem HasSlope.chain_one {m : Derivatives K} (hm : HasSlope p reached m v a) {partialBy : Expr K}
    (hpartial : HasValue p reached partialBy b) (rest : List (Option (Expr K) × Derivatives K))
    (hrest : ∀ t ∈ rest, t.1 = none) :
    HasSlope p reached (Derivatives.chain ((some partialBy, m) :: rest)) v (b * a) :=
  Slope.chain_one HasValue.valuation hm (fun _ _ => hpartial) fun t ht => .inl (hrest t ht)

/-- The slope by a rule for one variable at a time, where the rule gives zero for a
variable without derivatives. -/
theorem HasSlope.ofKeys {f : Variable → Option (Expr K)} {maps : List (Derivatives K)}
    (hf : HasValue p reached (orZero (f v)) a)
    (hzero : (∀ m ∈ maps, m.get? v = none) → reached → a = 0) :
    HasSlope p reached (.ofKeys f (Derivatives.vars maps)) v a := by
  unfold HasSlope
  rw [OrderedMap.get?_ofKeys]
  split
  · exact hf
  · rename_i hv
    exact HasValue.zero.congr fun hr =>
      (hzero (fun m hm => get?_eq_none_of_not_mem_vars hv hm) hr).symm

/-- The slope of a choice is that of the branch that the condition selects. -/
theorem HasSlope.select {c : Expr K} {r : K} (hc : HasValue p reached c r) {m n : Derivatives K}
    (hm : HasSlope p (reached ∧ r ≠ 0) m v a) (hn : HasSlope p (reached ∧ r = 0) n v a) :
    HasSlope p reached (Derivative.ofConditional c m n) v a := by
  refine HasSlope.ofKeys (hc.select hm hn) fun hnone hr => ?_
  by_cases h0 : r = 0
  · exact hn.eq_zero (hnone n (by simp)) ⟨hr, h0⟩
  · exact hm.eq_zero (hnone m (by simp)) ⟨hr, h0⟩

/-- The slope of a choice on a comparison, both branches reached. -/
theorem HasSlope.select_ite {c : Expr K} {P : Prop} [Decidable P]
    (hc : HasValue p reached c (if P then 1 else 0)) {m n : Derivatives K}
    (hm : HasSlope p reached m v a) (hn : HasSlope p reached n v b) :
    HasSlope p reached (Derivative.ofConditional c m n) v (if P then a else b) := by
  refine HasSlope.ofKeys (hc.select_ite hm hn) fun hnone hr => ?_
  rw [hm.eq_zero (hnone m (by simp)) hr, hn.eq_zero (hnone n (by simp)) hr, ite_self]

end Slopes
end Derivatives
end CircuitExpr
