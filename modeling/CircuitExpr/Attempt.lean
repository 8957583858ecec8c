/-
# Attempts that consult a host

An attempt yields a result or an error and may change a state on its way.  The
state belongs to the host that is consulted, so it is kept also when the attempt
fails: what the host was asked before the error stays asked.
-/

namespace CircuitExpr

/-- A computation on a state `σ` that fails with an `ε` or yields a `β`. -/
def Attempt (ε σ β : Type) := σ → Except ε β × σ

namespace Attempt

variable {ε ε' σ β γ : Type}

/-- A result without a change of state. -/
def done (x : β) : Attempt ε σ β := fun s => (.ok x, s)

/-- An error without a change of state. -/
def fail (e : ε) : Attempt ε σ β := fun s => (.error e, s)

/-- What follows on a result; an error ends the attempt. -/
def andThen (x : Attempt ε σ β) (f : β → Attempt ε σ γ) : Attempt ε σ γ := fun s =>
  match x s with
  | (.ok b, s) => f b s
  | (.error e, s) => (.error e, s)

/-- The attempt with its error seen as the cause of another. -/
def mapError (f : ε → ε') (x : Attempt ε σ β) : Attempt ε' σ β := fun s =>
  match x s with
  | (.ok b, s) => (.ok b, s)
  | (.error e, s) => (.error (f e), s)

/-- An outcome that needs no state. -/
def ofExcept (x : Except ε β) : Attempt ε σ β := fun s => (x, s)

/-- The results for the elements of a list, from left to right, up to the first
error. -/
def each (f : β → Attempt ε σ γ) : List β → Attempt ε σ (List γ)
  | [] => done []
  | x :: xs => andThen (f x) fun y => andThen (each f xs) fun ys => done (y :: ys)

end Attempt
end CircuitExpr
