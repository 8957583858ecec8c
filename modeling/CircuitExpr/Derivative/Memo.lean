/-
# Derivatives that are already known

While an expression is differentiated, the derivatives of each part are kept under
the part, so that a part that occurs again is not differentiated again.  Parts are
told apart by `Subtree.same`; entries lie in buckets by hash, which makes looking up
fast and changes nothing else.
-/

import CircuitExpr.Derivative.Terms
import CircuitExpr.Expr.Subtree
import Std.Data.HashMap

namespace CircuitExpr
namespace Derivative

/-- The derivatives of the parts differentiated so far; `none` for a part without. -/
structure Memo (ρ : Type) where
  /-- The entries by hash, the latest first. -/
  buckets : Std.HashMap UInt64 (List (Subtree ρ × Option (Derivatives ρ)))

namespace Memo

variable {ρ : Type}

/-- Nothing is known. -/
def empty : Memo ρ := ⟨∅⟩

/-- The entries of a hash. -/
def bucket (m : Memo ρ) (hash : UInt64) : List (Subtree ρ × Option (Derivatives ρ)) :=
  m.buckets.getD hash []

/-- Keeps what was found out about a part. -/
def insert (m : Memo ρ) (s : Subtree ρ) (ds : Option (Derivatives ρ)) : Memo ρ :=
  ⟨m.buckets.insert s.hash ((s, ds) :: m.bucket s.hash)⟩

/-- A part goes in front of the others with its hash. -/
theorem bucket_insert (m : Memo ρ) (s : Subtree ρ) (ds : Option (Derivatives ρ)) (hash : UInt64) :
    (m.insert s ds).bucket hash =
      if s.hash = hash then (s, ds) :: m.bucket hash else m.bucket hash := by
  by_cases h : s.hash = hash
  · subst h
    simp [insert, bucket]
  · simp [insert, bucket, Std.HashMap.getD_insert, h]

variable [Scalar ρ]

/-- What is known of a part. -/
def find? (m : Memo ρ) (s : Subtree ρ) : Option (Option (Derivatives ρ)) :=
  ((m.bucket s.hash).find? fun entry => entry.1.same s).map Prod.snd

/-- Is anything known of a part? -/
def contains (m : Memo ρ) (s : Subtree ρ) : Bool := (m.find? s).isSome

/-- The derivatives of a part; none if it has none or nothing is known of it. -/
def lookup (m : Memo ρ) (s : Subtree ρ) : Option (Derivatives ρ) := (m.find? s).join

/-- **The latest entry of a part is the one that is found.** -/
theorem find?_insert (m : Memo ρ) (s t : Subtree ρ) (ds : Option (Derivatives ρ)) :
    (m.insert s ds).find? t = if s.same t then some ds else m.find? t := by
  rw [find?, bucket_insert]
  by_cases h : s.hash = t.hash
  · by_cases hs : s.same t = true <;> simp [h, hs, find?]
  · have hs : s.same t = false := by simp [Subtree.same, h]
    simp [h, hs, find?]

end Memo
end Derivative
end CircuitExpr
