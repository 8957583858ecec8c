/-
# Subtrees and their hashes

`Expr.subtrees` lists every part of a tree, the parts of a part before it and from
left to right, each with a hash.  The hash of a part is computed from what stands
at its root, its `Label`, and the hashes of the parts below, so that each part is
looked at once.  The walk keeps its own stack of parts still to be visited and a
second stack of the parts that are done.

Hashes only speed up comparison.  `Subtree.same` compares hash first and tree
then, and all that is done with subtrees is done for any function in the place of
`Label.mix`.
-/

import CircuitExpr.Expr

namespace CircuitExpr

/-- What stands at the root of a tree. -/
inductive Label (ρ : Type) where
  /-- A number, as the key that it shares with the numbers that count as the same. -/
  | constant (key : ρ)
  /-- A quantity of the circuit. -/
  | var (v : Variable)
  /-- An operator before an operand. -/
  | unary (op : UnaryOp)
  /-- An operator between two operands. -/
  | binary (op : BinaryOp)
  /-- A function, by name. -/
  | call (name : String)
  /-- A choice. -/
  | conditional

/-- A hash from what stands at the root and the hashes of the parts below. -/
abbrev Hasher (ρ : Type) := Label ρ → List UInt64 → UInt64

/-- The hash of what stands at the root. -/
def Label.digest {ρ : Type} [Scalar ρ] : Label ρ → UInt64
  | .constant key => mixHash 1 (Scalar.digest key)
  | .var v => mixHash 2 v.digest
  | .unary op => mixHash 3 (hash op.name)
  | .binary op => mixHash 4 (hash op.name)
  | .call name => mixHash 5 (hash name)
  | .conditional => 6

/-- The hash that is used when nothing else is asked for. -/
def Label.mix {ρ : Type} [Scalar ρ] (label : Label ρ) (parts : List UInt64) : UInt64 :=
  parts.foldl mixHash label.digest

namespace Expr

variable {ρ : Type}

/-- What stands at the root. -/
def label [Scalar ρ] : Expr ρ → Label ρ
  | .constant c => .constant (Scalar.key c)
  | .var v => .var v
  | .unary op _ => .unary op
  | .binary op _ _ => .binary op
  | .call name _ => .call name
  | .conditional .. => .conditional

end Expr

/-- A part of a tree with its hash, and the same of the parts below it. -/
inductive Subtree (ρ : Type) where
  /-- A part, its hash and the parts below. -/
  | mk (tree : Expr ρ) (hash : UInt64) (parts : List (Subtree ρ))

namespace Subtree

variable {ρ : Type}

/-- The part itself. -/
def tree : Subtree ρ → Expr ρ
  | mk t _ _ => t

/-- The hash of the part. -/
def hash : Subtree ρ → UInt64
  | mk _ h _ => h

/-- The parts below, from left to right. -/
def parts : Subtree ρ → List (Subtree ρ)
  | mk _ _ ps => ps

/-- The part with the given parts below, its hash computed. -/
def build [Scalar ρ] (mix : Hasher ρ) (e : Expr ρ) (parts : List (Subtree ρ)) : Subtree ρ :=
  mk e (mix e.label (parts.map hash)) parts

/-- Are two subtrees the same?  Different hashes settle it. -/
def same [Scalar ρ] (s t : Subtree ρ) : Bool := s.hash == t.hash && Expr.same s.tree t.tree

mutual

/-- How many subtrees there are in all. -/
def size : Subtree ρ → Nat
  | mk _ _ ps => 1 + sizeList ps

/-- How many subtrees there are in some. -/
def sizeList : List (Subtree ρ) → Nat
  | [] => 0
  | s :: ss => size s + sizeList ss

end

/-- A subtree has its parts and one node more. -/
theorem size_eq (s : Subtree ρ) : s.size = 1 + sizeList s.parts := by
  cases s
  rw [size, parts]

end Subtree

namespace Expr

variable {ρ : Type}

/-- An entry of the stack of parts: one to visit, or one whose own parts are done. -/
inductive Visit (ρ : Type) where
  /-- The parts below have not been listed. -/
  | enter (e : Expr ρ)
  /-- The parts below have been listed, and lie on top of those that are done. -/
  | leave (e : Expr ρ)

/-- How much of the walk a stack entry stands for. -/
def Visit.weight : Visit ρ → Nat
  | .enter e => 2 * e.size
  | .leave _ => 1

/-- Takes the last `n` parts off the stack of parts that are done, the leftmost first
in the result. -/
def popParts (n : Nat) (done : List (Subtree ρ)) :
    Option (List (Subtree ρ) × List (Subtree ρ)) :=
  if n ≤ done.length then some ((done.take n).reverse, done.drop n) else none

/-- How much of the walk a stack stands for. -/
def Visit.weightList : List (Visit ρ) → Nat
  | [] => 0
  | v :: vs => v.weight + weightList vs

/-- What it takes to enter some trees, twice their sizes, comes on top of the rest. -/
theorem Visit.weightList_enter (es : List (Expr ρ)) (rest : List (Visit ρ)) :
    weightList (es.map enter ++ rest) = 2 * sizeList es + weightList rest := by
  induction es with
  | nil => simp [sizeList]
  | cons e es ih =>
    simp only [List.map_cons, List.cons_append, weightList, weight, sizeList, ih]
    omega

/-- The walk, given the stack of parts to visit, the stack of parts that are done and
the parts listed so far, the last one first.  It fails if the stack of parts that
are done runs short. -/
def walk [Scalar ρ] (mix : Hasher ρ) (pending : List (Visit ρ)) (done listed : List (Subtree ρ)) :
    Option (List (Subtree ρ)) :=
  match pending with
  | [] => some listed.reverse
  | .enter e :: rest => walk mix (e.children.map .enter ++ .leave e :: rest) done listed
  | .leave e :: rest =>
    match popParts e.children.length done with
    | none => none
    | some (parts, below) =>
      walk mix rest (Subtree.build mix e parts :: below) (Subtree.build mix e parts :: listed)
termination_by Visit.weightList pending
decreasing_by
  · have := e.size_eq
    rw [Visit.weightList_enter]
    simp only [Visit.weightList, Visit.weight]
    omega
  · simp [Visit.weightList, Visit.weight]

/-- The parts of a tree with their hashes, or nothing if the walk fails. -/
def subtrees? [Scalar ρ] (mix : Hasher ρ) (e : Expr ρ) : Option (List (Subtree ρ)) :=
  walk mix [.enter e] [] []

/-- The parts of a tree, those of a part before it and from left to right. -/
def subtrees [Scalar ρ] (mix : Hasher ρ) (e : Expr ρ) : List (Subtree ρ) :=
  (subtrees? mix e).getD []

/-- A tree with its hash, the last of its parts. -/
def subtree? [Scalar ρ] (mix : Hasher ρ) (e : Expr ρ) : Option (Subtree ρ) :=
  (subtrees? mix e).bind List.getLast?

end Expr
end CircuitExpr
