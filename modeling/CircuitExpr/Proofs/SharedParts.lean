/-
# Sharing parts that count as the same

The walk of differentiation computes the derivatives of a part once and uses them for
every part that counts as the same, also for one with a zero of the other sign or with
another undefined result.  On machine numbers this changes nothing: whatever the hashes,
the walk ends, looks up no operand that it does not know, and finds what the recursion
without a memory finds.
-/

import Mathlib
import CircuitExpr.Proofs.AlikeDerivatives
import CircuitExpr.Proofs.SignedZeros
import CircuitExpr.Proofs.WalkStates

namespace CircuitExpr

open CircuitExpr.Derivative

/-- **The walk with a memory is the recursion without one.**  For rules that give
derivatives that are alike for arguments that are, the walk from a tree under any hashes
comes to an end; when it leaves a part, it knows all operands of the part; and it finds
derivatives by the same variables, in the same order and alike, or none if the recursion
finds none. -/
theorem walk_finds_derivatives (w : Vocabulary Double) (hw : w.RespectsKeys)
    (wanted : List Variable) (e : Expr Double) :
    (∀ mix, ∃ s : Subtree Double, s.Faithful ∧ s.tree = e ∧
      e.deriveWith mix w wanted = ofSubtree w wanted s) ∧
    ∀ s : Subtree Double, s.Faithful → s.tree = e →
      (∃ m, Runs w wanted ⟨[.enter s], .empty⟩ ⟨[], m⟩ ∧ ofSubtree w wanted s = m.lookup s) ∧
      (∀ t rest m, Runs w wanted ⟨[.enter s], .empty⟩ ⟨.leave t :: rest, m⟩ →
        ∀ x ∈ operands t, m.contains x = true) ∧
      Option.Rel Derivatives.Alike (e.derivatives w wanted) (ofSubtree w wanted s) := by
  have hstable : Stable w wanted := fun he hds hflat => step_alike hw wanted he hds hflat
  constructor
  · intro mix
    exact ⟨e.hashed mix, e.faithful_hashed mix, Expr.tree_hashed mix e,
      Expr.deriveWith_eq_ofSubtree mix w wanted e⟩
  · rintro s hs rfl
    exact ⟨⟨_, runs_walk [.enter s] .empty, rfl⟩, fun t rest m hruns => operands_known hstable hs hruns,
      ofSubtree_alike hstable hs⟩

/-- The sum of two products with zeros of different signs, every part under the same
hash. -/
def zeroProducts : Subtree Double :=
  let x : Expr Double := .var (.named "x")
  let product (zero : Double) : Subtree Double :=
    .mk (.binary .mul (.constant zero) x) 0 [.mk (.constant zero) 0 [], .mk x 0 []]
  .mk (.binary .add (product 0).tree (product (-0)).tree) 0 [product 0, product (-0)]

/-- The hashes of the example are faithful. -/
theorem faithful_zeroProducts : zeroProducts.Faithful := by
  have hproduct (zero : Double) (x : Expr Double) (hx : x.children = []) :
      (Subtree.mk (.binary .mul (.constant zero) x) 0
        [.mk (.constant zero) 0 [], .mk x 0 []]).Faithful := by
    refine .mk rfl ?_
    rw [List.forall_mem_cons, List.forall_mem_singleton]
    exact ⟨.mk rfl (List.forall_mem_nil _), .mk hx.symm (List.forall_mem_nil _)⟩
  refine .mk rfl ?_
  rw [List.forall_mem_cons, List.forall_mem_singleton]
  exact ⟨hproduct _ _ rfl, hproduct _ _ rfl⟩

/-- The two products count as the same, so one of them is not differentiated. -/
theorem walk_finds_zeroProducts :
    (Vocabulary.builtin : Vocabulary Double).RespectsKeys ∧ zeroProducts.Faithful ∧
      (∀ s ∈ zeroProducts.parts, ∀ t ∈ zeroProducts.parts, s.same t = true) ∧
      Option.Rel Derivatives.Alike
        (zeroProducts.tree.derivatives .builtin [.named "x"])
        (ofSubtree .builtin [.named "x"] zeroProducts) :=
  ⟨Vocabulary.respectsKeys_builtin, faithful_zeroProducts, by decide,
    ((walk_finds_derivatives .builtin Vocabulary.respectsKeys_builtin [.named "x"]
      zeroProducts.tree).2 zeroProducts faithful_zeroProducts rfl).2.2⟩

end CircuitExpr
