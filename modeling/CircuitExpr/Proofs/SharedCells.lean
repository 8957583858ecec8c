/-
# Cells are one memory

Whatever a host does in a session, a name of a cell keeps it, and a read by any name gives
what was written to the cell last, by whatever name.  The invariant (`Sound`) says that the
store holds what was written last, that every cell with a name is in the store, and that
variables of the same bindings have cells of their own; each change that an operation can
make keeps it.

Two bindings share cells only through copying: at the copy they share all, and a cell that
is made later goes to one of them.
-/

import Mathlib
import CircuitExpr.Proofs.DerivativeMaps
import CircuitExpr.Proofs.Sessions

namespace CircuitExpr

namespace Store

variable {α : Type} {s : Store α} {c : Cell}

/-- A write makes no cell. -/
theorem size_set (c : Cell) (x : α) : (s.set c x).size = s.size := Array.size_setIfInBounds

/-- A new cell is one more. -/
theorem size_add (x : α) : (s.add x).size = s.size + 1 := Array.size_push x

/-- A cell of the store holds a value. -/
theorem exists_get? (hc : c.index < s.size) : ∃ x, s.get? c = some x :=
  ⟨s.values[c.index], Array.getElem?_eq_getElem hc⟩

/-- A cell of the store is not the next one. -/
theorem ne_nextCell (hc : c.index < s.size) : c ≠ s.nextCell := by
  rintro rfl
  exact Nat.lt_irrefl _ hc

end Store

namespace Session

variable {α : Type} {s s' : Session α} {write : Option (Cell × α)} {ws : List (Cell × α)}
  {maps : List Bindings} {b : Bindings} {c : Cell} {v w : Variable} {m n : Nat} {r : Name}

/-! ### The last write -/

/-- What is written last counts for its cell, and what was written before for the others. -/
theorem latest_append (c d : Cell) (x : α) :
    latest c (ws ++ [(d, x)]) = if d = c then some x else latest c ws := by
  by_cases h : d = c <;> simp [latest, List.filter_append, h]

/-! ### Entries -/

/-- Cells are found in bindings that there are. -/
theorem lt_of_cellIn? (h : cellIn? maps m v = some c) : m < maps.length := by
  obtain ⟨b, hb, -⟩ := Option.bind_eq_some_iff.mp h
  exact (List.getElem?_eq_some_iff.mp hb).1

/-- New bindings come last and change no others. -/
theorem cellIn?_append (maps : List Bindings) (b : Bindings) (m : Nat) (v : Variable) :
    cellIn? (maps ++ [b]) m v = if m = maps.length then b.cell? v else cellIn? maps m v := by
  by_cases h : m = maps.length
  · rw [if_pos h, h, cellIn?, List.getElem?_concat_length, Option.bind_some]
  · rw [if_neg h, cellIn?, cellIn?]
    rcases Nat.lt_or_gt_of_ne h with hlt | hgt
    · rw [List.getElem?_append_left hlt]
    · rw [List.getElem?_eq_none (by simpa using hgt), List.getElem?_eq_none (Nat.le_of_lt hgt)]

/-- A variable that is bound gets its cell in these bindings, and nothing else changes. -/
theorem cellIn?_set (hb : maps[m]? = some b) (v : Variable) (c : Cell) (n : Nat) (w : Variable) :
    cellIn? (maps.set m ⟨b.cells.insert v c⟩) n w =
      if m = n ∧ v = w then some c else cellIn? maps n w := by
  have hm : m < maps.length := (List.getElem?_eq_some_iff.mp hb).1
  by_cases h : m = n
  · subst h
    rw [cellIn?, List.getElem?_set_self hm, Option.bind_some, Bindings.cell?,
      OrderedMap.get?_insert, cellIn?_eq hb]
    simp only [true_and]
    rfl
  · rw [if_neg fun h' => h h'.1, cellIn?, List.getElem?_set_ne h, cellIn?]

/-! ### What a change does to names -/

/-- A handle is a name of its cell. -/
theorem has_of_mem_handles (h : c ∈ s.handles) : s.Has c := by
  obtain ⟨i, hi⟩ := List.mem_iff_getElem?.mp h
  exact ⟨.handle i, hi⟩

/-- A source is a name of its cell. -/
theorem has_of_mem_sources (h : c ∈ s.sources) : s.Has c := by
  obtain ⟨i, hi⟩ := List.mem_iff_getElem?.mp h
  exact ⟨.source i, hi⟩

/-- A variable in bindings is a name of its cell. -/
theorem has_of_mem_maps (hb : b ∈ s.maps) (hv : b.cell? v = some c) : s.Has c := by
  obtain ⟨m, hm⟩ := List.mem_iff_getElem?.mp hb
  exact ⟨.entry m v, (cellIn?_eq hm v).trans hv⟩

/-- The cell has a name already, or it is made by the change. -/
def HasOrMakes (s s' : Session α) (c : Cell) : Prop :=
  s.Has c ∨ c = s.store.nextCell ∧ s'.store.size = s.store.size + 1

/-- Handles come after those that there are. -/
theorem Change.handles (h : Change s write s') :
    ∃ hs, s'.handles = s.handles ++ hs ∧ ∀ c ∈ hs, HasOrMakes s s' c := by
  cases h with
  | same | map => exact ⟨[], (List.append_nil _).symm, List.forall_mem_nil _⟩
  | write d x hs hd hhs => exact ⟨hs, rfl, fun c hc => .inl (hhs c hc ▸ hd)⟩
  | refer hs cs hnames => exact ⟨hs, rfl, fun c hc => .inl (hnames c (List.mem_append_left _ hc))⟩
  | make x | bind _ _ _ x =>
    refine ⟨[_], rfl, fun c hc => .inr ⟨List.mem_singleton.mp hc, Store.size_add x⟩⟩

/-- Sources come after those that there are. -/
theorem Change.sources (h : Change s write s') :
    ∃ cs, s'.sources = s.sources ++ cs ∧ ∀ c ∈ cs, s.Has c := by
  cases h with
  | refer hs cs hnames => exact ⟨cs, rfl, fun c hc => hnames c (List.mem_append_right _ hc)⟩
  | _ => exact ⟨[], (List.append_nil _).symm, List.forall_mem_nil _⟩

/-- Variables keep their cells. -/
theorem Change.entry_keeps (h : Change s write s') (hv : cellIn? s.maps m v = some c) :
    cellIn? s'.maps m v = some c := by
  cases h with
  | map b hb => rwa [cellIn?_append, if_neg (Nat.ne_of_lt (lt_of_cellIn? hv))]
  | bind n b u x hb hu =>
    rw [cellIn?_set hb, if_neg]
    · exact hv
    · rintro ⟨rfl, rfl⟩
      rw [cellIn?_eq hb, hu] at hv
      cases hv
  | _ => exact hv

/-- A variable has a cell that something had, or a new one. -/
theorem Change.entry_has (h : Change s write s') (hv : cellIn? s'.maps m v = some c) :
    HasOrMakes s s' c := by
  cases h with
  | map b hb =>
    rw [cellIn?_append] at hv
    split at hv
    · rcases hb with rfl | hb
      · cases hv
      · exact .inl (has_of_mem_maps hb hv)
    · exact .inl ⟨.entry m v, hv⟩
  | bind n b u x hb hu =>
    rw [cellIn?_set hb] at hv
    split at hv
    · cases hv
      exact .inr ⟨rfl, Store.size_add x⟩
    · exact .inl ⟨.entry m v, hv⟩
  | _ => exact .inl ⟨.entry m v, hv⟩

/-- What stands in a list stays where it is when more is put behind it. -/
theorem getElem?_append_of_some {l l' : List Cell} {i : Nat} (h : l[i]? = some c) :
    (l ++ l')[i]? = some c := by
  rw [List.getElem?_append_left (List.getElem?_eq_some_iff.mp h).1, h]

/-- **A name keeps its cell** whatever an operation does. -/
theorem Change.keeps (h : Change s write s') (hr : s.cell? r = some c) : s'.cell? r = some c := by
  cases r with
  | entry m v => exact h.entry_keeps hr
  | handle i =>
    obtain ⟨hs, hhs, -⟩ := h.handles
    rw [cell?, hhs]
    exact getElem?_append_of_some hr
  | source i =>
    obtain ⟨cs, hcs, -⟩ := h.sources
    rw [cell?, hcs]
    exact getElem?_append_of_some hr

/-- A cell with a name had one before, or is the new one. -/
theorem Change.has (h : Change s write s') (hc : s'.Has c) : HasOrMakes s s' c := by
  obtain ⟨r, hr⟩ := hc
  cases r with
  | entry m v => exact h.entry_has hr
  | handle i =>
    obtain ⟨hs, hhs, hnames⟩ := h.handles
    rw [cell?, hhs] at hr
    rcases List.mem_append.mp (List.mem_of_getElem? hr) with hmem | hmem
    · exact .inl (has_of_mem_handles hmem)
    · exact hnames c hmem
  | source i =>
    obtain ⟨cs, hcs, hnames⟩ := h.sources
    rw [cell?, hcs] at hr
    rcases List.mem_append.mp (List.mem_of_getElem? hr) with hmem | hmem
    · exact .inl (has_of_mem_sources hmem)
    · exact .inl (hnames c hmem)

/-- Bindings never go away. -/
theorem Change.length_le (h : Change s write s') : s.maps.length ≤ s'.maps.length := by
  cases h with
  | map b hb => simp
  | bind n b u x hb hu => simp
  | _ => exact Nat.le_refl _

/-- Cells never go away. -/
theorem Change.size_le (h : Change s write s') : s.store.size ≤ s'.store.size := by
  cases h with
  | write d x hs hd hhs => exact Nat.le_of_eq (Store.size_set d x).symm
  | make x | bind _ _ _ x => exact Nat.le_of_lt (by rw [Store.size_add]; exact Nat.lt_succ_self _)
  | _ => exact Nat.le_refl _

/-! ### The invariant -/

/-- What holds in a session that wrote `ws`. -/
structure Sound (s : Session α) (ws : List (Cell × α)) : Prop where
  /-- The store holds what was written last. -/
  stored (c : Cell) : s.store.get? c = latest c ws
  /-- A cell with a name is in the store. -/
  denoted (c : Cell) : s.Has c → c.index < s.store.size
  /-- Variables of the same bindings have cells of their own. -/
  apart (m : Nat) (v w : Variable) (c : Cell) :
    cellIn? s.maps m v = some c → cellIn? s.maps m w = some c → v = w

/-- The invariant holds at the start. -/
theorem Sound.start : Sound (start : Session α) [] where
  stored _ := rfl
  denoted := by
    rintro c ⟨⟨⟩, ⟨⟩⟩
  apart := by
    rintro m v w c ⟨⟩

/-- The new cell has no name yet. -/
theorem Sound.not_has_nextCell (hs : Sound s ws) : ¬s.Has s.store.nextCell :=
  fun h => Store.ne_nextCell (hs.denoted _ h) rfl

/-- **The store holds what was written last.** -/
theorem Change.stored (h : Change s write s') (hs : Sound s ws) (c : Cell) :
    s'.store.get? c = latest c (ws ++ write.toList) := by
  cases h with
  | write d x _ hd _ =>
    rw [Store.get?_set, Option.toList_some, latest_append, ← hs.stored c]
    split
    · rename_i hdc
      subst hdc
      obtain ⟨y, hy⟩ := Store.exists_get? (hs.denoted d hd)
      rw [hy, Option.map_some]
    · rfl
  | make x | bind _ _ _ x =>
    rw [Store.get?_add, Option.toList_some, latest_append, ← hs.stored c]
    simp only [eq_comm]
  | same | map | refer =>
    rw [Option.toList_none, List.append_nil]
    exact hs.stored c

/-- **Variables of the same bindings have cells of their own.** -/
theorem Change.apart (h : Change s write s') (hs : Sound s ws)
    (hv : cellIn? s'.maps m v = some c) (hw : cellIn? s'.maps m w = some c) : v = w := by
  cases h with
  | map b hb =>
    rw [cellIn?_append] at hv hw
    split at hv
    · rename_i hm
      rw [if_pos hm] at hw
      rcases hb with rfl | hb
      · cases hv
      · obtain ⟨k, hk⟩ := List.mem_iff_getElem?.mp hb
        exact hs.apart k v w c ((cellIn?_eq hk v).trans hv) ((cellIn?_eq hk w).trans hw)
    · rename_i hm
      rw [if_neg hm] at hw
      exact hs.apart m v w c hv hw
  | bind n b u x hb hu =>
    rw [cellIn?_set hb] at hv hw
    split at hv
    · rename_i hnv
      split at hw
      · rename_i hnw
        exact hnv.2.symm.trans hnw.2
      · cases hv
        exact absurd ⟨.entry m w, hw⟩ hs.not_has_nextCell
    · split at hw
      · cases hw
        exact absurd ⟨.entry m v, hv⟩ hs.not_has_nextCell
      · exact hs.apart m v w c hv hw
  | _ => exact hs.apart m v w c hv hw

/-- A change keeps the invariant. -/
theorem Change.sound (h : Change s write s') (hs : Sound s ws) :
    Sound s' (ws ++ write.toList) where
  stored := h.stored hs
  denoted c hc := by
    rcases h.has hc with hc | ⟨rfl, hsize⟩
    · exact Nat.lt_of_lt_of_le (hs.denoted c hc) h.size_le
    · rw [hsize]
      exact Nat.lt_succ_self _
  apart _ _ _ _ := h.apart hs

/-! ### Whole sessions -/

/-- Names keep their cells along a session. -/
theorem run_keeps (ops : List (Op α)) (hr : s.cell? r = some c) : (s.run ops).cell? r = some c := by
  induction ops generalizing s with
  | nil => exact hr
  | cons op ops ih => exact ih ((change_step s op).keeps hr)

/-- **The invariant holds along a session.** -/
theorem run_sound (ops : List (Op α)) (hs : Sound s ws) :
    Sound (s.run ops) (ws ++ s.writes ops) := by
  induction ops generalizing s ws with
  | nil => rwa [writes, List.append_nil]
  | cons op ops ih =>
    rw [writes, ← List.append_assoc]
    exact ih ((change_step s op).sound hs)

/-! ### Bindings with common cells -/

/-- What two of the bindings share is what one variable had at some time. -/
def SharesOnly (maps : List Bindings) (m n : Nat) (before : Variable → Option Cell) : Prop :=
  ∀ v w c, cellIn? maps m v = some c → cellIn? maps n w = some c → v = w ∧ before v = some c

/-- **A cell that is made goes to one of the bindings,** so nothing more is shared. -/
theorem Change.sharesOnly {before : Variable → Option Cell} (h : Change s write s')
    (hs : Sound s ws) (hm : m < s.maps.length) (hn : n < s.maps.length) (hmn : m ≠ n)
    (hshares : SharesOnly s.maps m n before) : SharesOnly s'.maps m n before := by
  intro v w c hv hw
  cases h with
  | map b hb =>
    rw [cellIn?_append, if_neg (Nat.ne_of_lt hm)] at hv
    rw [cellIn?_append, if_neg (Nat.ne_of_lt hn)] at hw
    exact hshares v w c hv hw
  | bind k b u x hb hu =>
    rw [cellIn?_set hb] at hv hw
    split at hv
    · rename_i hkm
      rw [if_neg fun hkn => hmn (hkm.1.symm.trans hkn.1)] at hw
      cases hv
      exact absurd ⟨.entry n w, hw⟩ hs.not_has_nextCell
    · split at hw
      · cases hw
        exact absurd ⟨.entry m v, hv⟩ hs.not_has_nextCell
      · exact hshares v w c hv hw
  | _ => exact hshares v w c hv hw

/-- What two of the bindings share stays all that they share. -/
theorem run_sharesOnly {before : Variable → Option Cell} (ops : List (Op α)) (hs : Sound s ws)
    (hm : m < s.maps.length) (hn : n < s.maps.length) (hmn : m ≠ n)
    (hshares : SharesOnly s.maps m n before) : SharesOnly (s.run ops).maps m n before := by
  induction ops generalizing s ws with
  | nil => exact hshares
  | cons op ops ih =>
    have h := change_step s op
    exact ih (h.sound hs) (Nat.lt_of_lt_of_le hm h.length_le) (Nat.lt_of_lt_of_le hn h.length_le)
      (h.sharesOnly hs hm hn hmn hshares)

/-! ### Variables of bindings -/

/-- What an operation does to the bindings. -/
theorem maps_step_insert (s : Session α) (m : Nat) (v : Variable) (x : α) :
    (s.step (.insert m v x)).2.maps =
      s.maps[m]?.elim s.maps fun b => s.maps.set m (b.insert s.store v x).2.1 := by
  rw [step]
  cases s.maps[m]? <;> rfl

/-- A copy is put behind the bindings that there are. -/
theorem maps_step_copyMap (s : Session α) (m : Nat) :
    (s.step (.copyMap m)).2.maps = s.maps ++ s.maps[m]?.toList := by
  rw [step]
  cases s.maps[m]? with
  | none => exact (List.append_nil _).symm
  | some b => rfl

/-- The operation makes no bindings and inserts nothing. -/
def Op.KeepsMaps : Op α → Prop
  | .newMap | .copyMap _ | .insert _ _ _ => False
  | _ => True

/-- Operations that neither make bindings nor insert leave all as they are. -/
theorem maps_step_of_keepsMaps {op : Op α} (hop : op.KeepsMaps) : (s.step op).2.maps = s.maps := by
  cases op with
  | newMap | copyMap | insert => exact hop.elim
  | make => rfl
  | resolve m v =>
    rw [step]
    cases s.maps[m]? with
    | none => rfl
    | some b =>
      rw [having_some]
      cases (b.resolver v ()).1 <;> rfl
  | set m | get m | contains m | vars m =>
    rw [step]
    cases s.maps[m]? <;> rfl
  | read h | write h | copy h | source h =>
    rw [step]
    cases s.handles[h]? <;> rfl
  | call i =>
    rw [step]
    cases s.sources[i]? <;> rfl

/-- Inserting leaves the other bindings and the other variables as they are. -/
theorem entry_step (hn : n < s.maps.length) {op : Op α} (hop : ∀ x, op ≠ .insert n w x) :
    cellIn? (s.step op).2.maps n w = cellIn? s.maps n w := by
  cases op with
  | newMap => exact (cellIn?_append ..).trans (if_neg (Nat.ne_of_lt hn))
  | copyMap m =>
    rw [maps_step_copyMap]
    cases s.maps[m]? with
    | none => rw [Option.toList_none, List.append_nil]
    | some b => exact (cellIn?_append ..).trans (if_neg (Nat.ne_of_lt hn))
  | insert m v x =>
    rw [maps_step_insert]
    cases hb : s.maps[m]? with
    | none => rfl
    | some b =>
      rw [Option.elim_some, Bindings.insert]
      cases hv : b.cell? v with
      | none =>
        refine (cellIn?_set hb ..).trans (if_neg ?_)
        rintro ⟨rfl, rfl⟩
        exact hop x rfl
      | some c =>
        obtain ⟨hm, rfl⟩ := List.getElem?_eq_some_iff.mp hb
        rw [List.set_getElem_self hm]
  | _ => rw [maps_step_of_keepsMaps (by trivial)]

/-- **What is inserted elsewhere is not seen.** -/
theorem run_entry (ops : List (Op α)) (hn : n < s.maps.length)
    (hops : ∀ x, .insert n w x ∉ ops) : cellIn? (s.run ops).maps n w = cellIn? s.maps n w := by
  induction ops generalizing s with
  | nil => rfl
  | cons op ops ih =>
    have hop : ∀ x, op ≠ .insert n w x := by
      rintro x rfl
      exact hops x List.mem_cons_self
    have hrun := ih (Nat.lt_of_lt_of_le hn (change_step s op).length_le)
      fun x hx => hops x (List.mem_cons_of_mem _ hx)
    exact hrun.trans (entry_step hn hop)

/-- A variable that is inserted again keeps its place, and a new one goes to the end. -/
theorem vars_insert (b : Bindings) (store : Store α) (v : Variable) (x : α) :
    (b.insert store v x).2.1.vars = if v ∈ b.vars then b.vars else b.vars ++ [v] := by
  have hmem : v ∈ b.vars ↔ (b.cell? v).isSome = true := (OrderedMap.contains_iff b.cells v).symm
  rw [Bindings.insert]
  cases hv : b.cell? v with
  | none => exact OrderedMap.keys_insert ..
  | some c => rw [if_pos (hmem.mpr (Option.isSome_of_eq_some hv))]

/-- **The variables are those that were inserted,** in this order, without repetitions. -/
theorem vars_step {hs : List (List Variable)} (op : Op α)
    (h : s.maps.map Bindings.vars = hs.map OrderedMap.distinct) :
    (s.step op).2.maps.map Bindings.vars = (insertedBy hs op).map OrderedMap.distinct := by
  have hget (m : Nat) : s.maps[m]?.map Bindings.vars = hs[m]?.map OrderedMap.distinct := by
    rw [← List.getElem?_map, ← List.getElem?_map, h]
  cases op with
  | newMap =>
    rw [insertedBy, step, List.map_append, List.map_append, h]
    rfl
  | copyMap m =>
    rw [insertedBy, maps_step_copyMap, List.map_append, List.map_append, h,
      ← Option.toList_map, ← Option.toList_map, hget]
  | insert m v x =>
    have hm := hget m
    rw [insertedBy, maps_step_insert]
    cases hb : s.maps[m]? with
    | none =>
      rw [hb] at hm
      rw [Option.map_eq_none_iff.mp hm.symm]
      exact h
    | some b =>
      rw [hb] at hm
      obtain ⟨vs, hvs, hdistinct⟩ := Option.map_eq_some_iff.mp hm.symm
      rw [hvs, Option.elim_some, Option.elim_some, List.map_set, List.map_set, h, vars_insert,
        OrderedMap.distinct_concat, hdistinct]
  | _ =>
    rw [maps_step_of_keepsMaps (by trivial)]
    exact h

/-- Along a session, the variables are those that were inserted. -/
theorem run_vars {hs : List (List Variable)} (ops : List (Op α))
    (h : s.maps.map Bindings.vars = hs.map OrderedMap.distinct) :
    (s.run ops).maps.map Bindings.vars = (ops.foldl insertedBy hs).map OrderedMap.distinct := by
  induction ops generalizing s hs with
  | nil => exact h
  | cons op ops ih => exact ih (vars_step op h)

/-! ### One memory -/

/-- A read by a name answers what the store has in the cell. -/
theorem step_reading (hr : s.cell? r = some c) :
    s.step r.reading = (.value (s.store.get? c), s) := by
  cases r with
  | entry m v =>
    obtain ⟨b, hb, hv⟩ := Option.bind_eq_some_iff.mp hr
    rw [Name.reading, step, hb, having_some, Bindings.get?, hv, Option.bind_some]
  | handle i =>
    rw [cell?] at hr
    rw [Name.reading, step, hr, having_some]
  | source i =>
    rw [cell?] at hr
    rw [Name.reading, step, hr, having_some]

/-- In a session that wrote `ws` and inserted the variables `hs` into its bindings, cells are one
memory. -/
structure Coherent (s : Session α) (ws : List (Cell × α)) (hs : List (List Variable)) : Prop where
  /-- A read by any name answers what was written last to the cell, and something was. -/
  read (r : Name) (c : Cell) : s.cell? r = some c →
    ∃ x, latest c ws = some x ∧ s.step r.reading = (.value (some x), s)
  /-- What an operation writes to a cell is read by every name that the cell had. -/
  seen (op : Op α) (c : Cell) (x : α) (r : Name) : s.written? op = some (c, x) →
    s.cell? r = some c → ((s.step op).2.step r.reading).1 = .value (some x)
  /-- A name keeps its cell, whatever is done later. -/
  keeps (r : Name) (c : Cell) (ops : List (Op α)) : s.cell? r = some c →
    (s.run ops).cell? r = some c
  /-- The cell that is made next has no name. -/
  fresh (r : Name) : s.cell? r ≠ some s.store.nextCell
  /-- It is what a new handle goes to. -/
  make (x : α) : (s.step (.make x)).2.cell? (.handle s.handles.length) = some s.store.nextCell
  /-- It is also what a variable gets that has no cell, with the handle. -/
  insert_new (m : Nat) (b : Bindings) (v : Variable) (x : α) : s.maps[m]? = some b →
    s.cell? (.entry m v) = none →
      (s.step (.insert m v x)).2.cell? (.entry m v) = some s.store.nextCell ∧
      (s.step (.insert m v x)).2.cell? (.handle s.handles.length) = some s.store.nextCell
  /-- A variable that has a cell is written to; the bindings stay as they are, and the new
  handle is one of this cell. -/
  insert_known (m : Nat) (v : Variable) (x : α) (c : Cell) : s.cell? (.entry m v) = some c →
    (s.step (.insert m v x)).2 = { s with store := s.store.set c x, handles := s.handles ++ [c] }
  /-- Setting a variable that has a cell writes to it. -/
  set_known (m : Nat) (v : Variable) (x : α) (c : Cell) : s.cell? (.entry m v) = some c →
    s.step (.set m v x) = (.flag true, { s with store := s.store.set c x })
  /-- Setting another one changes nothing, and answers so. -/
  set_unknown (m : Nat) (b : Bindings) (v : Variable) (x : α) : s.maps[m]? = some b →
    s.cell? (.entry m v) = none → s.step (.set m v x) = (.flag false, s)
  /-- Another handle or a source of a handle is one of its cell. -/
  handle (h : Nat) (c : Cell) : s.cell? (.handle h) = some c →
    (s.step (.copy h)).2.cell? (.handle s.handles.length) = some c ∧
    (s.step (.source h)).2.cell? (.source s.sources.length) = some c
  /-- The source of a variable is one of its cell. -/
  resolve (m : Nat) (v : Variable) (c : Cell) : s.cell? (.entry m v) = some c →
    (s.step (.resolve m v)).2.cell? (.source s.sources.length) = some c
  /-- New bindings come after those that there are, and no variable has a cell in them. -/
  newMap : (s.step .newMap).1 = .number s.maps.length ∧ ∃ b,
    (s.step .newMap).2.maps = s.maps ++ [b] ∧ b.vars = [] ∧ ∀ v, b.cell? v = none
  /-- A variable without a cell has no value and no source. -/
  unknown (m : Nat) (b : Bindings) (v : Variable) : s.maps[m]? = some b →
    s.cell? (.entry m v) = none →
      s.step (.get m v) = (.value none, s) ∧ s.step (.resolve m v) = (.missing, s)
  /-- A copy shares with the original the cells that there are when it is made, each under the
  same variable, and at no time any other. -/
  copied (m : Nat) (b : Bindings) (ops : List (Op α)) (v w : Variable) (c : Cell) :
    s.maps[m]? = some b →
      (((s.step (.copyMap m)).2.run ops).cell? (.entry m v) = some c ∧
        ((s.step (.copyMap m)).2.run ops).cell? (.entry s.maps.length w) = some c ↔
      v = w ∧ s.cell? (.entry m v) = some c)
  /-- What is not inserted into bindings does not come up in them. -/
  unseen (m : Nat) (v : Variable) (ops : List (Op α)) : m < s.maps.length →
    (∀ x, .insert m v x ∉ ops) → (s.run ops).cell? (.entry m v) = s.cell? (.entry m v)
  /-- The variables of bindings are those that were inserted, in the order in which they were
  inserted first. -/
  vars (m : Nat) (b : Bindings) : s.maps[m]? = some b → ∃ vs, hs[m]? = some vs ∧
    s.step (.vars m) = (.variables (OrderedMap.distinct vs), s) ∧
    ∀ v, s.step (.contains m v) = (.flag (decide (v ∈ vs)), s)

/-- At the copy, all cells of the original are shared, and later no others. -/
theorem copied_iff (hs : Sound s ws) (hb : s.maps[m]? = some b) (ops : List (Op α)) :
    ((s.step (.copyMap m)).2.run ops).cell? (.entry m v) = some c ∧
        ((s.step (.copyMap m)).2.run ops).cell? (.entry s.maps.length w) = some c ↔
      v = w ∧ s.cell? (.entry m v) = some c := by
  have hm : m < s.maps.length := (List.getElem?_eq_some_iff.mp hb).1
  have hchange := change_step s (.copyMap m)
  have hmaps : (s.step (.copyMap m)).2.maps = s.maps ++ [b] := by
    rw [maps_step_copyMap, hb, Option.toList_some]
  have hcopy (u : Variable) :
      cellIn? (s.step (.copyMap m)).2.maps s.maps.length u = cellIn? s.maps m u := by
    rw [hmaps, cellIn?_append, if_pos rfl, cellIn?_eq hb]
  have hold (u : Variable) : cellIn? (s.step (.copyMap m)).2.maps m u = cellIn? s.maps m u := by
    rw [hmaps, cellIn?_append, if_neg (Nat.ne_of_lt hm)]
  constructor
  · rintro ⟨hv, hw⟩
    have hshares : SharesOnly (s.step (.copyMap m)).2.maps m s.maps.length (cellIn? s.maps m) := by
      intro v w c hv hw
      rw [hold] at hv
      rw [hcopy] at hw
      exact ⟨hs.apart m v w c hv hw, hv⟩
    refine run_sharesOnly ops (hchange.sound hs) ?_ ?_ (Nat.ne_of_lt hm) hshares v w c hv hw
    · rw [hmaps, List.length_append]
      exact Nat.lt_add_right _ hm
    · rw [hmaps, List.length_append]
      exact Nat.lt_succ_self _
  · rintro ⟨rfl, hv⟩
    exact ⟨run_keeps ops ((hold v).trans hv), run_keeps ops ((hcopy v).trans hv)⟩

/-- A sound session is coherent. -/
theorem Sound.coherent {vss : List (List Variable)} (hs : Sound s ws)
    (hvars : s.maps.map Bindings.vars = vss.map OrderedMap.distinct) : Coherent s ws vss where
  read r c hr := by
    obtain ⟨x, hx⟩ := Store.exists_get? (hs.denoted c ⟨r, hr⟩)
    exact ⟨x, (hs.stored c).symm.trans hx, by rw [step_reading hr, hx]⟩
  seen op c x r hop hr := by
    have hchange := change_step s op
    have hstored := hchange.stored hs c
    rw [hop, Option.toList_some, latest_append, if_pos rfl] at hstored
    rw [step_reading (hchange.keeps hr), hstored]
  keeps _ _ ops := run_keeps ops
  fresh r hr := hs.not_has_nextCell ⟨r, hr⟩
  make x := List.getElem?_concat_length
  insert_new m b v x hb hv := by
    have hm : m < s.maps.length := (List.getElem?_eq_some_iff.mp hb).1
    have hnone : b.cell? v = none := (cellIn?_eq hb v).symm.trans hv
    have hstep : (s.step (.insert m v x)).2 =
        { s with
          store := s.store.add x
          maps := s.maps.set m ⟨b.cells.insert v s.store.nextCell⟩
          handles := s.handles ++ [s.store.nextCell] } := by
      simp only [step, hb, having_some, Bindings.insert, hnone]
    rw [hstep]
    exact ⟨(cellIn?_set hb ..).trans (if_pos ⟨rfl, rfl⟩), List.getElem?_concat_length⟩
  insert_known m v x c hv := by
    obtain ⟨b, hb, hcell⟩ := Option.bind_eq_some_iff.mp hv
    obtain ⟨hm, rfl⟩ := List.getElem?_eq_some_iff.mp hb
    simp only [step, hb, having_some, Bindings.insert, hcell, List.set_getElem_self]
  set_known m v x c hv := by
    obtain ⟨b, hb, hcell⟩ := Option.bind_eq_some_iff.mp hv
    simp only [step, hb, having_some, Bindings.set, hcell]
  set_unknown m b v x hb hv := by
    have hnone : b.cell? v = none := (cellIn?_eq hb v).symm.trans hv
    simp only [step, hb, having_some, Bindings.set, hnone]
  handle h c hc := by
    rw [cell?] at hc
    simp only [step, hc, having_some]
    exact ⟨List.getElem?_concat_length, List.getElem?_concat_length⟩
  resolve m v c hv := by
    obtain ⟨b, hb, hcell⟩ := Option.bind_eq_some_iff.mp hv
    simp only [step, hb, having_some, Bindings.resolver, hcell]
    exact List.getElem?_concat_length
  newMap := ⟨rfl, .empty, rfl, rfl, fun _ => rfl⟩
  unknown m b v hb hv := by
    have hnone : b.cell? v = none := (cellIn?_eq hb v).symm.trans hv
    constructor
    · simp only [step, hb, having_some, Bindings.get?, hnone, Option.bind_none]
    · simp only [step, hb, having_some, Bindings.resolver, hnone]
      rfl
  copied _ _ ops _ _ _ hb := copied_iff hs hb ops
  unseen _ _ ops := run_entry ops
  vars m b hb := by
    have hm : s.maps[m]?.map Bindings.vars = vss[m]?.map OrderedMap.distinct := by
      rw [← List.getElem?_map, ← List.getElem?_map, hvars]
    rw [hb] at hm
    obtain ⟨vs, hvs, hdistinct⟩ := Option.map_eq_some_iff.mp hm.symm
    refine ⟨vs, hvs, ?_, fun v => ?_⟩
    · rw [step, hb, having_some, hdistinct]
    · have hcontains : b.contains v = decide (v ∈ vs) := by
        rw [Bool.eq_iff_iff, decide_eq_true_iff, ← OrderedMap.mem_distinct, hdistinct]
        exact OrderedMap.contains_iff b.cells v
      rw [step, hb, having_some, hcontains]

/-- **Cells are one memory** in every session: for all that a host does from the start on, with
any number of bindings, handles and sources. -/
theorem cells_are_one_memory (ops : List (Op α)) :
    Coherent (start.run ops) (start.writes ops) (inserted ops) :=
  (run_sound ops .start).coherent (run_vars ops rfl)

/-- A variable is inserted, resolved and copied; a second one is then inserted into original and
copy, and the first is written to through the copy. -/
def sharedSession : List (Op Nat) :=
  [.newMap, .insert 0 (.named "a") 1, .resolve 0 (.named "a"), .copyMap 0,
    .insert 0 (.named "b") 2, .insert 1 (.named "b") 3, .insert 1 (.named "a") 4]

/-- The source, the handle and the original see the write to the first variable; the second
has cells of its own.  Bindings made after all this know neither. -/
theorem sharedSession_one_memory :
    Coherent (start.run sharedSession) (start.writes sharedSession) (inserted sharedSession) ∧
    [.call 0, .read 0, .get 0 (.named "a"), .get 0 (.named "b"), .get 1 (.named "b"), .vars 1,
        .set 0 (.named "c") 5].map (fun op => ((start.run sharedSession).step op).1) =
      [.value (some 4), .value (some 4), .value (some 4), .value (some 2), .value (some 3),
        .variables [.named "a", .named "b"], .flag false] ∧
    [.vars 2, .get 2 (.named "a")].map
        (fun op => ((start.run (sharedSession ++ [.newMap])).step op).1) =
      [.variables [], .value none] :=
  ⟨cells_are_one_memory sharedSession, by decide, by decide⟩

end Session
end CircuitExpr
