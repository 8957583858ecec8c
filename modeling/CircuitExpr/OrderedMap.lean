/-
# Maps that remember the order of their keys

An `OrderedMap` lists its entries in the order in which their keys were first
inserted; inserting a key again replaces its value and keeps its place.  No key
occurs twice, which the map carries as a proof.

Two statements describe `insert` completely: `get?_insert` says what is found
afterwards, and `keys_insert` in which order the keys then stand.
-/

namespace CircuitExpr

/-- Entries in the order in which their keys were first inserted. -/
structure OrderedMap (κ ν : Type) where
  /-- The entries, the oldest key first. -/
  entries : List (κ × ν)
  /-- No key occurs twice. -/
  nodup_keys : (entries.map Prod.fst).Nodup

namespace OrderedMap

variable {κ ν μ : Type}

/-- The map without entries. -/
def empty : OrderedMap κ ν := ⟨[], List.nodup_nil⟩

instance : EmptyCollection (OrderedMap κ ν) := ⟨empty⟩
instance : Inhabited (OrderedMap κ ν) := ⟨empty⟩

/-- The keys in the order of their first insertion. -/
def keys (m : OrderedMap κ ν) : List κ := m.entries.map Prod.fst

/-- The values in the order of their keys. -/
def values (m : OrderedMap κ ν) : List ν := m.entries.map Prod.snd

/-- How many keys there are. -/
def size (m : OrderedMap κ ν) : Nat := m.entries.length

/-- Are there no keys? -/
def isEmpty (m : OrderedMap κ ν) : Bool := m.entries.isEmpty

/-- The map with one entry. -/
def single (k : κ) (v : ν) : OrderedMap κ ν := ⟨[(k, v)], by simp⟩

/-- The map with every value changed. -/
def map (f : ν → μ) (m : OrderedMap κ ν) : OrderedMap κ μ :=
  ⟨m.entries.map fun e => (e.1, f e.2), by
    have h := m.nodup_keys
    rwa [List.map_map, show (Prod.fst ∘ fun e : κ × ν => (e.1, f e.2)) = Prod.fst from rfl]⟩

section Lookup

variable [DecidableEq κ]

/-- The value of the first entry with the given key. -/
def lookup? (k : κ) : List (κ × ν) → Option ν
  | [] => none
  | e :: es => if e.1 = k then some e.2 else lookup? k es

/-- The value of a key. -/
def get? (m : OrderedMap κ ν) (k : κ) : Option ν := lookup? k m.entries

/-- Is this one of the keys? -/
def contains (m : OrderedMap κ ν) (k : κ) : Bool := (m.get? k).isSome

/-- The entries after a value is given to a key: in its place, or else at the end. -/
def put (k : κ) (v : ν) : List (κ × ν) → List (κ × ν)
  | [] => [(k, v)]
  | e :: es => if e.1 = k then (k, v) :: es else e :: put k v es

/-- A key that is there keeps its place, and a new one goes to the end. -/
theorem map_fst_put (k : κ) (v : ν) (es : List (κ × ν)) :
    (put k v es).map Prod.fst =
      if k ∈ es.map Prod.fst then es.map Prod.fst else es.map Prod.fst ++ [k] := by
  induction es with
  | nil => simp [put]
  | cons e es ih =>
    by_cases h : e.1 = k
    · simp [put, h]
    · have h' : ¬k = e.1 := fun hk => h hk.symm
      simp only [put, h, if_false, List.map_cons, List.mem_cons, h', false_or, ih]
      split <;> simp

/-- The map with a value given to a key. -/
def insert (m : OrderedMap κ ν) (k : κ) (v : ν) : OrderedMap κ ν :=
  ⟨put k v m.entries, by
    rw [map_fst_put]
    split
    · exact m.nodup_keys
    · rename_i h
      exact List.nodup_append.mpr ⟨m.nodup_keys, by simp, fun a ha b hb hab => by
        rw [List.mem_singleton] at hb
        exact h (hb ▸ hab ▸ ha)⟩⟩

/-- **A key inserted again keeps its place;** a new one goes to the end. -/
theorem keys_insert (m : OrderedMap κ ν) (k : κ) (v : ν) :
    (m.insert k v).keys = if k ∈ m.keys then m.keys else m.keys ++ [k] :=
  map_fst_put k v m.entries

/-- The value that was put is found under its key, and what was there under every other. -/
theorem lookup?_put (k k' : κ) (v : ν) (es : List (κ × ν)) :
    lookup? k' (put k v es) = if k = k' then some v else lookup? k' es := by
  induction es with
  | nil => simp [put, lookup?]
  | cons e es ih =>
    by_cases h : e.1 = k
    · subst h
      by_cases h' : e.1 = k' <;> simp [put, lookup?, h']
    · by_cases h' : e.1 = k'
      · subst h'
        have h' : ¬k = e.1 := fun hk => h hk.symm
        simp [put, lookup?, h, h']
      · simp [put, lookup?, h, h', ih]

/-- **The last value given to a key is the one that is found.** -/
theorem get?_insert (m : OrderedMap κ ν) (k k' : κ) (v : ν) :
    (m.insert k v).get? k' = if k = k' then some v else m.get? k' :=
  lookup?_put k k' v m.entries

/-- Nothing is found in an empty map. -/
theorem get?_empty (k : κ) : (empty : OrderedMap κ ν).get? k = none := rfl

/-- A value is found under the keys of the entries. -/
theorem lookup?_isSome_iff (k : κ) (es : List (κ × ν)) :
    (lookup? k es).isSome = true ↔ k ∈ es.map Prod.fst := by
  induction es with
  | nil => simp [lookup?]
  | cons e es ih =>
    by_cases h : e.1 = k
    · simp [lookup?, h]
    · have h' : ¬k = e.1 := fun hk => h hk.symm
      simp only [lookup?, h, if_false, List.map_cons, List.mem_cons, h', false_or, ih]

/-- A map contains its keys. -/
theorem contains_iff (m : OrderedMap κ ν) (k : κ) : m.contains k = true ↔ k ∈ m.keys :=
  lookup?_isSome_iff k m.entries

/-- The map of the keys that a function gives a value, in their order. -/
def ofKeys (f : κ → Option ν) (ks : List κ) : OrderedMap κ ν :=
  ks.foldl (fun m k => match f k with
    | some v => m.insert k v
    | none => m) empty

/-- A list without its repetitions, each element where it stands first. -/
def distinct (ks : List κ) : List κ :=
  ks.foldl (fun seen k => if k ∈ seen then seen else seen ++ [k]) []

end Lookup

end OrderedMap
end CircuitExpr
