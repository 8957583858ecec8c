/-
# Maps restricted to some of their keys

`OrderedMap.keep` drops the entries whose keys fail a test and leaves the others in their
order.  Each way to combine maps of derivatives treats every variable by itself and takes
the variables in the order in which they are met, so dropping variables afterwards is the
same as dropping them in the operands.
-/

import Mathlib
import CircuitExpr.Proofs.DerivativeMaps

namespace CircuitExpr

namespace OrderedMap

variable {κ ν μ : Type}

/-- Maps with the same entries are equal. -/
theorem ext_entries {m n : OrderedMap κ ν} (h : m.entries = n.entries) : m = n := by
  cases m
  cases n
  subst h
  rfl

/-- The entries whose keys pass a test. -/
def keep (p : κ → Bool) (m : OrderedMap κ ν) : OrderedMap κ ν :=
  ⟨m.entries.filter fun e => p e.1, (List.filter_sublist.map _).nodup m.nodup_keys⟩

/-- Of the keys those stay that are kept. -/
theorem keys_keep (p : κ → Bool) (m : OrderedMap κ ν) : (m.keep p).keys = m.keys.filter p :=
  List.filter_map.symm

/-- What is kept may be mapped before or after. -/
theorem keep_map (p : κ → Bool) (f : ν → μ) (m : OrderedMap κ ν) :
    (m.map f).keep p = (m.keep p).map f :=
  ext_entries List.filter_map

/-- Nothing is kept of an empty map. -/
theorem isEmpty_keep {p : κ → Bool} {m : OrderedMap κ ν} (h : m.isEmpty = true) :
    (m.keep p).isEmpty = true := by
  rw [isEmpty, List.isEmpty_iff] at h
  change (m.entries.filter fun e => p e.1).isEmpty = true
  rw [h]
  rfl

variable [DecidableEq κ]

/-- A key that passes the test keeps its value; any other has none. -/
theorem get?_keep_of (p : κ → Bool) (m : OrderedMap κ ν) (k : κ) :
    (m.keep p).get? k = if p k then m.get? k else none := by
  have h (es : List (κ × ν)) :
      lookup? k (es.filter fun e => p e.1) = if p k then lookup? k es else none := by
    induction es with
    | nil => simp [lookup?]
    | cons e es ih =>
      rw [List.filter_cons]
      by_cases hk : e.1 = k
      · subst hk
        cases hp : p e.1 <;> simp [lookup?, ih, hp]
      · cases hp : p e.1 <;> simp [lookup?, ih, hk]
  exact h m.entries

/-- Inserting matters for a key that is kept. -/
theorem keep_insert (p : κ → Bool) (m : OrderedMap κ ν) (k : κ) (x : ν) :
    (m.insert k x).keep p = if p k then (m.keep p).insert k x else m.keep p := by
  have h (es : List (κ × ν)) : (put k x es).filter (fun e => p e.1) =
      if p k then put k x (es.filter fun e => p e.1) else es.filter fun e => p e.1 := by
    induction es with
    | nil => cases hp : p k <;> simp [put, hp]
    | cons e es ih =>
      rw [put, List.filter_cons]
      by_cases hk : e.1 = k
      · subst hk
        cases hp : p e.1 <;> simp [put, hp]
      · rw [if_neg hk, List.filter_cons, ih]
        cases hp : p e.1 <;> cases hp' : p k <;> simp [put, hk]
  split
  · rename_i hp
    exact ext_entries ((h m.entries).trans (if_pos hp))
  · rename_i hp
    exact ext_entries ((h m.entries).trans (if_neg hp))

/-- A map is made key by key. -/
theorem ofKeys_eq_foldl (f : κ → Option ν) (ks : List κ) :
    ofKeys f ks = ks.foldl (fun m k => (f k).elim m (m.insert k)) empty := by
  refine congrArg (fun step => ks.foldl step empty) (funext fun m => funext fun k => ?_)
  cases f k <;> rfl

/-- The map of a function, restricted, is that at the keys that pass. -/
theorem keep_ofKeys (p : κ → Bool) {f g : κ → Option ν} (hfg : ∀ k, p k = true → f k = g k)
    (ks : List κ) : (ofKeys f ks).keep p = ofKeys g (ks.filter p) := by
  have h (m : OrderedMap κ ν) :
      (ks.foldl (fun m k => (f k).elim m (m.insert k)) m).keep p =
        (ks.filter p).foldl (fun m k => (g k).elim m (m.insert k)) (m.keep p) := by
    induction ks generalizing m with
    | nil => rfl
    | cons k ks ih =>
      rw [List.foldl_cons, ih, List.filter_cons]
      cases hp : p k with
      | true =>
        rw [if_pos rfl, List.foldl_cons, ← hfg k hp]
        cases f k with
        | none => rfl
        | some x => simp only [Option.elim_some, keep_insert, hp, if_true]
      | false =>
        cases f k with
        | none => rfl
        | some x => simp [keep_insert, hp]
  rw [ofKeys_eq_foldl, ofKeys_eq_foldl]
  exact h empty

end OrderedMap

namespace Derivatives

variable {ρ : Type} (p : Variable → Bool)

/-- Of the variables of some maps those stay that are kept. -/
theorem vars_keep (maps : List (Derivatives ρ)) :
    vars (maps.map (OrderedMap.keep p)) = (vars maps).filter p := by
  rw [vars, vars, ← OrderedMap.distinct_filter, List.filter_flatMap, List.flatMap_map]
  congr 1
  exact List.flatMap_congr fun m _ => OrderedMap.keys_keep p m

variable [Scalar ρ]

/-- Adding a term matters for a variable that is kept. -/
theorem keep_addTerm (ds : Derivatives ρ) (v : Variable) (term : Expr ρ) :
    (ds.addTerm v term).keep p = if p v then addTerm (ds.keep p) v term else ds.keep p := by
  rw [addTerm, addTerm, OrderedMap.get?_keep_of]
  cases hp : p v <;> cases ds.get? v <;> simp [OrderedMap.keep_insert, hp]

/-- What is kept of two maps may be added before or after. -/
theorem keep_plus (ds es : Derivatives ρ) :
    (ds.plus es).keep p = plus (ds.keep p) (es.keep p) := by
  have h (l : List (Variable × Expr ρ)) (ds : Derivatives ρ) :
      (l.foldl (fun acc e => acc.addTerm e.1 e.2) ds).keep p =
        (l.filter fun e => p e.1).foldl (fun acc e => addTerm acc e.1 e.2) (ds.keep p) := by
    induction l generalizing ds with
    | nil => rfl
    | cons e l ih =>
      rw [List.foldl_cons, ih, keep_addTerm, List.filter_cons]
      cases hp : p e.1 <;> simp
  exact h es.entries ds

/-- What is kept of any number of maps may be added before or after. -/
theorem keep_sum (maps : List (Derivatives ρ)) :
    (sum maps).keep p = sum (maps.map (OrderedMap.keep p)) := by
  have h (acc : Derivatives ρ) :
      (maps.foldl plus acc).keep p = (maps.map (OrderedMap.keep p)).foldl plus (acc.keep p) := by
    induction maps generalizing acc with
    | nil => rfl
    | cons m maps ih => rw [List.foldl_cons, ih, keep_plus, List.map_cons, List.foldl_cons]
  exact h .empty

/-- What is kept may be left out before the chain rule is applied or after. -/
theorem keep_chain (terms : List (Option (Expr ρ) × Derivatives ρ)) :
    (chain terms).keep p = chain (terms.map fun t => (t.1, t.2.keep p)) := by
  have h (acc : Derivatives ρ) :
      (terms.foldl addScaled acc).keep p =
        (terms.map fun t => (t.1, t.2.keep p)).foldl addScaled (acc.keep p) := by
    induction terms generalizing acc with
    | nil => rfl
    | cons t terms ih =>
      rw [List.foldl_cons, ih, List.map_cons, List.foldl_cons]
      congr 1
      unfold addScaled
      cases t.1 with
      | none => rfl
      | some partialBy => simp only [keep_plus, OrderedMap.keep_map]
  rw [chain_eq_foldl, h, chain_eq_foldl]
  rfl

end Derivatives
end CircuitExpr
