/-
# Keys in the order of their first insertion

`OrderedMap.distinct` leaves of each element of a list the first occurrence.  A list grows
by an element at its end if that is new (`distinct_concat`), and all else follows by
induction from the end of the list: the elements stay (`mem_distinct`), none stays twice,
and they stay in the order in which they stood first (`pairwise_idxOf_distinct`).
-/

import Mathlib
import CircuitExpr.OrderedMap

namespace CircuitExpr
namespace OrderedMap

variable {κ ν μ α : Type} [DecidableEq κ]

/-! ### Lists without repetitions -/

/-- A list grows by an element that is not yet in it. -/
theorem distinct_concat (ks : List κ) (k : κ) :
    distinct (ks ++ [k]) =
      if k ∈ distinct ks then distinct ks else distinct ks ++ [k] := by
  rw [distinct, List.foldl_append]
  rfl

/-- No element is lost or added. -/
theorem mem_distinct {ks : List κ} {k : κ} : k ∈ distinct ks ↔ k ∈ ks := by
  induction ks using List.reverseRecOn with
  | nil => rfl
  | append_singleton ks k' ih =>
    rw [distinct_concat, List.mem_append, List.mem_singleton, ← ih]
    split
    · rename_i hmem
      refine ⟨.inl, ?_⟩
      rintro (h | rfl)
      · exact h
      · exact hmem
    · rw [List.mem_append, List.mem_singleton]

/-- No element stands twice. -/
theorem nodup_distinct (ks : List κ) : (distinct ks).Nodup := by
  induction ks using List.reverseRecOn with
  | nil => exact List.nodup_nil
  | append_singleton ks k ih =>
    rw [distinct_concat]
    split
    · exact ih
    · rename_i hk
      rw [← List.concat_eq_append]
      exact ih.concat hk

/-- A list without repetitions is left as it is. -/
theorem distinct_of_nodup {ks : List κ} (h : ks.Nodup) : distinct ks = ks := by
  induction ks using List.reverseRecOn with
  | nil => rfl
  | append_singleton ks k ih =>
    obtain ⟨hks, -, hdisjoint⟩ := List.nodup_append.mp h
    have hk : k ∉ ks := fun hmem => hdisjoint k hmem k (List.mem_singleton_self k) rfl
    rw [distinct_concat, ih hks, if_neg hk]

/-- Elements may be left out before repetitions or after. -/
theorem distinct_filter (p : κ → Bool) (ks : List κ) :
    distinct (ks.filter p) = (distinct ks).filter p := by
  induction ks using List.reverseRecOn with
  | nil => rfl
  | append_singleton ks k ih =>
    rw [List.filter_append, distinct_concat]
    cases hp : p k with
    | true =>
      rw [List.filter_singleton, hp, cond_true, distinct_concat, ih]
      by_cases hk : k ∈ distinct ks <;> simp [hk, hp]
    | false =>
      rw [List.filter_singleton, hp, cond_false, List.append_nil, ih]
      by_cases hk : k ∈ distinct ks <;> simp [hk, hp]

/-- Only where an element stands first matters. -/
theorem distinct_distinct_append (ks ls : List κ) :
    distinct (distinct ks ++ ls) = distinct (ks ++ ls) := by
  have h (ms : List κ) : distinct (ms ++ ls) =
      ls.foldl (fun seen k => if k ∈ seen then seen else seen ++ [k]) (distinct ms) := by
    rw [distinct, List.foldl_append, distinct]
  rw [h, h, distinct_of_nodup (nodup_distinct ks)]

/-- Of what comes later, too, only where it stands first matters. -/
theorem distinct_append_distinct (ks ls : List κ) :
    distinct (ks ++ distinct ls) = distinct (ks ++ ls) := by
  induction ls using List.reverseRecOn with
  | nil => rfl
  | append_singleton ls k ih =>
    rw [distinct_concat, ← List.append_assoc ks, distinct_concat, ← ih]
    split
    · rename_i hk
      rw [if_pos (mem_distinct.mpr (List.mem_append_right ks hk))]
    · rw [← List.append_assoc, distinct_concat]

/-- Repetitions may be removed from each part beforehand. -/
theorem distinct_flatMap_distinct (g : α → List κ) (xs : List α) :
    distinct (xs.flatMap fun x => distinct (g x)) = distinct (xs.flatMap g) := by
  induction xs with
  | nil => rfl
  | cons x xs ih =>
    rw [List.flatMap_cons, List.flatMap_cons, distinct_distinct_append, ← distinct_append_distinct,
      ih, distinct_append_distinct]

/-- The elements stay in the order in which they stand first. -/
theorem pairwise_idxOf_distinct (ks : List κ) :
    (distinct ks).Pairwise fun k l => ks.idxOf k < ks.idxOf l := by
  induction ks using List.reverseRecOn with
  | nil => exact .nil
  | append_singleton ks k ih =>
    have hidx {l : κ} (hl : l ∈ distinct ks) : (ks ++ [k]).idxOf l = ks.idxOf l :=
      List.idxOf_append_of_mem (mem_distinct.mp hl)
    have hfirst : (distinct ks).Pairwise fun l l' => (ks ++ [k]).idxOf l < (ks ++ [k]).idxOf l' :=
      ih.imp_of_mem fun hl hl' h => by rwa [hidx hl, hidx hl']
    rw [distinct_concat]
    split
    · exact hfirst
    · rename_i hk
      refine List.pairwise_append.mpr ⟨hfirst, List.pairwise_singleton _ _, fun l hl l' hl' => ?_⟩
      obtain rfl := List.mem_singleton.mp hl'
      rw [hidx hl, List.idxOf_append_of_notMem (mt mem_distinct.mpr hk), List.idxOf_cons_self,
        Nat.add_zero]
      exact List.idxOf_lt_length_of_mem (mem_distinct.mp hl)

/-- A list has the elements of another one once each, in the order in which they stand
first there. -/
structure FirstOccurrences (ks all : List κ) : Prop where
  /-- Nothing stands twice. -/
  nodup : ks.Nodup
  /-- Nothing is left out or added. -/
  mem_iff : ∀ k, k ∈ ks ↔ k ∈ all
  /-- What comes first comes first. -/
  order : ks.Pairwise fun k l => all.idxOf k < all.idxOf l

/-- This is what `distinct` leaves. -/
theorem firstOccurrences_distinct (ks : List κ) : FirstOccurrences (distinct ks) ks where
  nodup := nodup_distinct ks
  mem_iff := fun _ => mem_distinct
  order := pairwise_idxOf_distinct ks

/-- What stays keeps its order. -/
theorem distinct_sublist (ks : List κ) : (distinct ks).Sublist ks := by
  induction ks using List.reverseRecOn with
  | nil => exact List.Sublist.refl _
  | append_singleton ks k ih =>
    rw [distinct_concat]
    split
    · exact ih.trans (List.sublist_append_left ks [k])
    · exact ih.append (List.Sublist.refl [k])

/-- Nothing is left out of a list without repetitions, and of no other. -/
theorem length_distinct_eq_iff {ks : List κ} : (distinct ks).length = ks.length ↔ ks.Nodup := by
  constructor
  · intro h
    rw [← (distinct_sublist ks).eq_of_length h]
    exact nodup_distinct ks
  · intro h
    rw [distinct_of_nodup h]

/-- What stands at the beginning stays there. -/
theorem distinct_prefix_append (ks ls : List κ) : distinct ks <+: distinct (ks ++ ls) := by
  induction ls using List.reverseRecOn with
  | nil =>
    rw [List.append_nil]
  | append_singleton ls k ih =>
    rw [← List.append_assoc, distinct_concat]
    split
    · exact ih
    · exact ih.trans (List.prefix_append _ _)

/-! ### Keys -/

omit [DecidableEq κ] in
/-- Mapping the values changes no key. -/
@[simp]
theorem keys_map (f : ν → μ) (m : OrderedMap κ ν) : (m.map f).keys = m.keys := by
  rw [keys, keys, map, List.map_map]
  rfl

/-- The keys of a map stand once each. -/
theorem distinct_keys (m : OrderedMap κ ν) : distinct m.keys = m.keys :=
  distinct_of_nodup m.nodup_keys

/-- A key that is inserted is the last, unless it is there already. -/
theorem keys_insert_eq_distinct (m : OrderedMap κ ν) (k : κ) (x : ν) :
    (m.insert k x).keys = distinct (m.keys ++ [k]) := by
  rw [keys_insert, distinct_concat, distinct_keys]

/-- The map of a function that has a value at every key. -/
theorem keys_ofKeys {f : κ → Option ν} {ks : List κ} (hf : ∀ k ∈ ks, f k ≠ none) :
    (ofKeys f ks).keys = distinct ks := by
  induction ks using List.reverseRecOn with
  | nil => rfl
  | append_singleton ks k ih =>
    obtain ⟨x, hx⟩ :=
      Option.ne_none_iff_exists'.mp (hf k (List.mem_append_right _ List.mem_cons_self))
    have hlast : ofKeys f (ks ++ [k]) = (ofKeys f ks).insert k x := by
      rw [ofKeys, List.foldl_append, List.foldl_cons, List.foldl_nil, hx]
      rfl
    rw [hlast, keys_insert_eq_distinct, ih fun l hl => hf l (List.mem_append_left _ hl),
      distinct_distinct_append]

end OrderedMap
end CircuitExpr
