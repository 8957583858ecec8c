/-
# Differentiation

`Expr.derive` computes the derivatives of an expression by all variables of
interest in one walk.  The walk keeps its own stack and differentiates each part
after its operands, and parts that are the same only once.  It returns no
derivatives when a part that the expression is differentiated through has none.
-/

import CircuitExpr.Derivative.Rules
import CircuitExpr.Derivative.Memo

namespace CircuitExpr
namespace Derivative

variable {ρ : Type}

/-- The operands of a part: what it is differentiated through. -/
def operands (s : Subtree ρ) : List (Subtree ρ) :=
  match s.tree with
  | .constant _ | .var _ | .unary .not _ => []
  | .unary _ _ | .call _ _ => s.parts
  | .binary op _ _ => if op.isBoolean then [] else s.parts
  | .conditional .. => s.parts.drop 1

/-- The operands are parts below. -/
theorem sizeList_operands_le (s : Subtree ρ) :
    Subtree.sizeList (operands s) ≤ Subtree.sizeList s.parts := by
  unfold operands
  split
  · simp [Subtree.sizeList]
  · simp [Subtree.sizeList]
  · simp [Subtree.sizeList]
  · exact Nat.le_refl _
  · exact Nat.le_refl _
  · split
    · simp [Subtree.sizeList]
    · exact Nat.le_refl _
  · cases s.parts <;> simp [Subtree.sizeList]

/-- An entry of the stack of the walk. -/
inductive Visit (ρ : Type) where
  /-- The operands have not been differentiated. -/
  | enter (s : Subtree ρ)
  /-- The operands have been differentiated. -/
  | leave (s : Subtree ρ)

/-- The part that a stack entry is about. -/
def Visit.part : Visit ρ → Subtree ρ
  | .enter s | .leave s => s

/-- How much of the walk a stack entry stands for. -/
def Visit.weight : Visit ρ → Nat
  | .enter s => 2 * s.size
  | .leave _ => 1

/-- How much of the walk a stack stands for. -/
def Visit.weightList : List (Visit ρ) → Nat
  | [] => 0
  | v :: vs => v.weight + weightList vs

/-- What it takes to enter some parts, twice their sizes, comes on top of the rest. -/
theorem Visit.weightList_enter (ss : List (Subtree ρ)) (rest : List (Visit ρ)) :
    weightList (ss.map enter ++ rest) = 2 * Subtree.sizeList ss + weightList rest := by
  induction ss with
  | nil => simp [Subtree.sizeList]
  | cons s ss ih =>
    simp only [List.map_cons, List.cons_append, weightList, weight, Subtree.sizeList, ih]
    omega

/-- No visit is free, so each one that is made brings the walk nearer to its end. -/
theorem Visit.weight_pos (v : Visit ρ) : 0 < v.weight := by
  cases v with
  | enter s =>
    have := s.size_eq
    simp only [Visit.weight]
    omega
  | leave s => simp [Visit.weight]

variable [Scalar ρ]

/-- The derivatives of a part whose operands are known. -/
def compute (w : Vocabulary ρ) (wanted : List Variable) (memo : Memo ρ) (s : Subtree ρ) :
    Option (Derivatives ρ) :=
  ((operands s).mapM memo.lookup).bind (step w wanted s.tree)

/-- The walk, given its stack and what is known so far. -/
def walk (w : Vocabulary ρ) (wanted : List Variable) (pending : List (Visit ρ)) (memo : Memo ρ) :
    Memo ρ :=
  match pending with
  | [] => memo
  | visit :: rest =>
    if memo.contains visit.part then walk w wanted rest memo
    else match visit with
      | .leave s => walk w wanted rest (memo.insert s (compute w wanted memo s))
      | .enter s => walk w wanted ((operands s).map .enter ++ .leave s :: rest) memo
termination_by Visit.weightList pending
decreasing_by
  · have := visit.weight_pos
    simp only [Visit.weightList]
    omega
  · simp [Visit.weightList, Visit.weight]
  · have := sizeList_operands_le s
    have := s.size_eq
    rw [Visit.weightList_enter]
    simp only [Visit.weightList, Visit.weight]
    omega

/-- The derivatives of a part, by the walk. -/
def ofSubtree (w : Vocabulary ρ) (wanted : List Variable) (s : Subtree ρ) :
    Option (Derivatives ρ) :=
  (walk w wanted [.enter s] .empty).lookup s

end Derivative

namespace Expr

variable {ρ : Type} [Scalar ρ]

/-- The derivatives of an expression by the wanted variables, its parts hashed by
`mix`. -/
def deriveWith (mix : Hasher ρ) (w : Vocabulary ρ) (wanted : List Variable) (e : Expr ρ) :
    Option (Derivatives ρ) :=
  (e.subtree? mix).bind (Derivative.ofSubtree w wanted)

/-- The derivatives of an expression by the wanted variables. -/
def derive (w : Vocabulary ρ) (wanted : List Variable) (e : Expr ρ) : Option (Derivatives ρ) :=
  e.deriveWith Label.mix w wanted

end Expr
end CircuitExpr
