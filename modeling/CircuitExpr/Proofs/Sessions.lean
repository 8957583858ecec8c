/-
# Sessions of a host with cells

A host makes bindings and cells, copies them, and obtains sources, in any order.  What it
has at some time is its `Session`: the store, and the bindings, handles and sources
obtained so far, each known by its number.  `step` performs one operation by the functions
of `Bindings` and `Store`; an operation on something that is not there answers that it is
missing.

Entries of bindings, handles and sources are names of cells (`Name`, `cell?`).  What a
session writes is listed beside it, name by name resolved to the cell (`writes`), and so
is what is inserted into each of the bindings (`inserted`).

All that an operation can do to a session is one of six things (`Change`,
`change_step`).
-/

import CircuitExpr.Bindings

namespace CircuitExpr

/-- What a host has: a store, and what it obtained, in order. -/
structure Session (α : Type) where
  /-- The cells. -/
  store : Store α
  /-- The bindings. -/
  maps : List Bindings
  /-- The handles of cells. -/
  handles : List Cell
  /-- The sources, each of which reads a cell. -/
  sources : List Cell

namespace Session

variable {α β : Type}

/-- What a host can do; bindings, handles and sources go by their numbers. -/
inductive Op (α : Type) where
  /-- Makes bindings of no variable. -/
  | newMap
  /-- Copies bindings. -/
  | copyMap (m : Nat)
  /-- Inserts a variable with a value, and obtains the handle of its cell. -/
  | insert (m : Nat) (v : Variable) (x : α)
  /-- Writes to the cell of a variable. -/
  | set (m : Nat) (v : Variable) (x : α)
  /-- Reads the cell of a variable. -/
  | get (m : Nat) (v : Variable)
  /-- Asks whether a variable has a cell. -/
  | contains (m : Nat) (v : Variable)
  /-- Asks for the variables. -/
  | vars (m : Nat)
  /-- Obtains the source of a variable. -/
  | resolve (m : Nat) (v : Variable)
  /-- Makes a cell, and obtains its handle. -/
  | make (x : α)
  /-- Reads by a handle. -/
  | read (h : Nat)
  /-- Writes by a handle. -/
  | write (h : Nat) (x : α)
  /-- Copies a handle. -/
  | copy (h : Nat)
  /-- Obtains a source by a handle. -/
  | source (h : Nat)
  /-- Calls a source. -/
  | call (i : Nat)

/-- What a host is told. -/
inductive Answer (α : Type) where
  /-- It is done. -/
  | done
  /-- There is nothing of this number, or no cell of this variable. -/
  | missing
  /-- The number of what was obtained. -/
  | number (i : Nat)
  /-- A value, or none. -/
  | value (x : Option α)
  /-- Yes or no. -/
  | flag (b : Bool)
  /-- Some variables. -/
  | variables (vs : List Variable)
deriving DecidableEq

/-- Nothing is there yet. -/
def start : Session α := ⟨.empty, [], [], []⟩

/-- Goes on with something, if it is there. -/
def having (s : Session α) (x : Option β) (f : β → Answer α × Session α) :
    Answer α × Session α :=
  match x with
  | none => (.missing, s)
  | some b => f b

/-- The answer to an operation, and the session after it. -/
def step (s : Session α) : Op α → Answer α × Session α
  | .newMap => (.number s.maps.length, { s with maps := s.maps ++ [.empty] })
  | .copyMap m => s.having s.maps[m]? fun b =>
    (.number s.maps.length, { s with maps := s.maps ++ [b] })
  | .insert m v x => s.having s.maps[m]? fun b =>
    let (c, b', store) := b.insert s.store v x
    (.number s.handles.length,
      { s with store := store, maps := s.maps.set m b', handles := s.handles ++ [c] })
  | .set m v x => s.having s.maps[m]? fun b =>
    let (known, store) := b.set s.store v x
    (.flag known, { s with store := store })
  | .get m v => s.having s.maps[m]? fun b => (.value (b.get? s.store v), s)
  | .contains m v => s.having s.maps[m]? fun b => (.flag (b.contains v), s)
  | .vars m => s.having s.maps[m]? fun b => (.variables b.vars, s)
  | .resolve m v => s.having s.maps[m]? fun b => s.having (b.resolver v ()).1 fun c =>
    (.number s.sources.length, { s with sources := s.sources ++ [c] })
  | .make x =>
    (.number s.handles.length,
      { s with store := s.store.add x, handles := s.handles ++ [s.store.nextCell] })
  | .read h => s.having s.handles[h]? fun c => (.value (s.store.get? c), s)
  | .write h x => s.having s.handles[h]? fun c => (.done, { s with store := s.store.set c x })
  | .copy h => s.having s.handles[h]? fun c =>
    (.number s.handles.length, { s with handles := s.handles ++ [c] })
  | .source h => s.having s.handles[h]? fun c =>
    (.number s.sources.length, { s with sources := s.sources ++ [c] })
  | .call i => s.having s.sources[i]? fun c => (.value (s.store.get? c), s)

/-- The session after some operations. -/
def run (s : Session α) (ops : List (Op α)) : Session α := ops.foldl (fun s op => (s.step op).2) s

/-! ### Names of cells -/

/-- What a cell goes by. -/
inductive Name where
  /-- A variable in bindings. -/
  | entry (m : Nat) (v : Variable)
  /-- A handle. -/
  | handle (h : Nat)
  /-- A source. -/
  | source (i : Nat)

/-- The operation that reads by a name. -/
def Name.reading : Name → Op α
  | .entry m v => .get m v
  | .handle h => .read h
  | .source i => .call i

/-- The cell of a variable in one of some bindings. -/
def cellIn? (maps : List Bindings) (m : Nat) (v : Variable) : Option Cell :=
  maps[m]?.bind fun b => b.cell? v

/-- The cell that goes by a name. -/
def cell? (s : Session α) : Name → Option Cell
  | .entry m v => cellIn? s.maps m v
  | .handle h => s.handles[h]?
  | .source i => s.sources[i]?

/-- The cell goes by some name. -/
def Has (s : Session α) (c : Cell) : Prop := ∃ r, s.cell? r = some c

/-! ### What is written and inserted -/

/-- The cell that an operation writes to, and the value. -/
def written? (s : Session α) : Op α → Option (Cell × α)
  | .insert m v x => s.maps[m]?.map fun b => ((b.cell? v).getD s.store.nextCell, x)
  | .set m v x => (s.cell? (.entry m v)).map fun c => (c, x)
  | .make x => some (s.store.nextCell, x)
  | .write h x => (s.cell? (.handle h)).map fun c => (c, x)
  | _ => none

/-- All that some operations write, in order. -/
def writes (s : Session α) : List (Op α) → List (Cell × α)
  | [] => []
  | op :: ops => (s.written? op).toList ++ writes (s.step op).2 ops

/-- What was written to a cell last. -/
def latest (c : Cell) (ws : List (Cell × α)) : Option α :=
  ((ws.filter fun w => w.1 = c).map Prod.snd).getLast?

/-- What was inserted into each of the bindings, after one more operation; a copy has what
was inserted into the original. -/
def insertedBy (hs : List (List Variable)) : Op α → List (List Variable)
  | .newMap => hs ++ [[]]
  | .copyMap m => hs ++ hs[m]?.toList
  | .insert m v _ => hs[m]?.elim hs fun h => hs.set m (h ++ [v])
  | _ => hs

/-- What some operations insert into each of the bindings, in order and with repetitions. -/
def inserted (ops : List (Op α)) : List (List Variable) := ops.foldl insertedBy []

/-! ### What an operation can do -/

/-- What an operation does to a session, with what it writes. -/
inductive Change (s : Session α) : Option (Cell × α) → Session α → Prop
  /-- Nothing. -/
  | same : Change s none s
  /-- Bindings are made, or copied. -/
  | map (b) : (b = .empty ∨ b ∈ s.maps) → Change s none { s with maps := s.maps ++ [b] }
  /-- A cell is written to, by one of its names, and may get more handles. -/
  | write (c x hs) : s.Has c → (∀ d ∈ hs, d = c) →
    Change s (some (c, x)) { s with store := s.store.set c x, handles := s.handles ++ hs }
  /-- A cell gets more names. -/
  | refer (hs cs) : (∀ c ∈ hs ++ cs, s.Has c) →
    Change s none { s with handles := s.handles ++ hs, sources := s.sources ++ cs }
  /-- A cell is made. -/
  | make (x) : Change s (some (s.store.nextCell, x))
      { s with store := s.store.add x, handles := s.handles ++ [s.store.nextCell] }
  /-- A cell is made for a variable that has none. -/
  | bind (m b v x) : s.maps[m]? = some b → b.cell? v = none →
    Change s (some (s.store.nextCell, x))
      { s with
        store := s.store.add x
        maps := s.maps.set m ⟨b.cells.insert v s.store.nextCell⟩
        handles := s.handles ++ [s.store.nextCell] }

variable {s : Session α}

/-- What is there is gone on with. -/
theorem having_some (b : β) (f : β → Answer α × Session α) : s.having (some b) f = f b := rfl

/-- What only answers leaves everything as it is. -/
theorem having_answers (x : Option β) (f : β → Answer α) : (s.having x fun b => (f b, s)).2 = s := by
  cases x <;> rfl

/-- The cell of a variable is the one in its bindings. -/
theorem cellIn?_eq {maps : List Bindings} {m : Nat} {b : Bindings} (hb : maps[m]? = some b)
    (v : Variable) : cellIn? maps m v = b.cell? v := by
  rw [cellIn?, hb, Option.bind_some]

/-- Writing by a name changes only the cell. -/
theorem change_write {c : Cell} (hc : s.Has c) (x : α) :
    Change s (some (c, x)) { s with store := s.store.set c x } := by
  simpa only [List.append_nil] using Change.write c x [] hc (List.forall_mem_nil _)

/-- Another handle of a cell changes nothing else. -/
theorem change_handle {c : Cell} (hc : s.Has c) :
    Change s none { s with handles := s.handles ++ [c] } := by
  simpa only [List.append_nil] using Change.refer [c] [] (by simpa using hc)

/-- Another source of a cell changes nothing else. -/
theorem change_source {c : Cell} (hc : s.Has c) :
    Change s none { s with sources := s.sources ++ [c] } := by
  simpa only [List.append_nil] using Change.refer [] [c] (by simpa using hc)

/-- What is inserted gets a new cell, or is written to its cell. -/
theorem change_insert (s : Session α) (m : Nat) (v : Variable) (x : α) :
    Change s (s.written? (.insert m v x)) (s.step (.insert m v x)).2 := by
  cases hb : s.maps[m]? with
  | none =>
    simp only [written?, step, hb]
    exact .same
  | some b =>
    simp only [written?, step, hb, Option.map_some, having_some]
    cases hv : b.cell? v with
    | none =>
      simp only [Bindings.insert, hv]
      exact .bind m b v x hb hv
    | some c =>
      simp only [Bindings.insert, hv]
      obtain ⟨hm, rfl⟩ := List.getElem?_eq_some_iff.mp hb
      rw [List.set_getElem_self hm]
      exact .write c x [c] ⟨.entry m v, (cellIn?_eq hb v).trans hv⟩ (by simp)

/-- **What an operation can do.** -/
theorem change_step (s : Session α) (op : Op α) : Change s (s.written? op) (s.step op).2 := by
  cases op with
  | newMap => exact .map _ (.inl rfl)
  | copyMap m =>
    simp only [written?, step]
    cases hb : s.maps[m]? with
    | none => exact .same
    | some b => exact .map b (.inr (List.mem_of_getElem? hb))
  | insert m v x => exact change_insert s m v x
  | set m v x =>
    cases hb : s.maps[m]? with
    | none =>
      simp only [written?, cell?, cellIn?, step, hb]
      exact .same
    | some b =>
      have hentry := cellIn?_eq hb v
      simp only [written?, cell?, hentry, step, hb, having_some, Bindings.set]
      cases hv : b.cell? v with
      | none => exact .same
      | some c => exact change_write ⟨.entry m v, hentry.trans hv⟩ x
  | resolve m v =>
    simp only [written?, step]
    cases hb : s.maps[m]? with
    | none => exact .same
    | some b =>
      rw [having_some, Bindings.resolver]
      cases hv : b.cell? v with
      | none => exact .same
      | some c => exact change_source ⟨.entry m v, (cellIn?_eq hb v).trans hv⟩
  | make x => exact .make x
  | write h x =>
    simp only [written?, cell?, step]
    cases hc : s.handles[h]? with
    | none => exact .same
    | some c => exact change_write ⟨.handle h, hc⟩ x
  | copy h =>
    simp only [written?, step]
    cases hc : s.handles[h]? with
    | none => exact .same
    | some c => exact change_handle ⟨.handle h, hc⟩
  | source h =>
    simp only [written?, step]
    cases hc : s.handles[h]? with
    | none => exact .same
    | some c => exact change_source ⟨.handle h, hc⟩
  | get m v | contains m v | vars m | read h | call i =>
    rw [step, having_answers]
    exact .same

end Session
end CircuitExpr
