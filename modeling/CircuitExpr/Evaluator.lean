/-
# Evaluators

An evaluator is an expression made ready for evaluation: variables are replaced by
the sources of their values, names by functions, and powers with a constant
integer exponent by products.  It is run as often as wanted; each run reads the
sources anew.

A run yields a value and the sources that were read, in order: those of the variables,
and for each call of a function whose values depend on a source this source, after its
arguments.  It fails only when a function asks for more arguments than the evaluator
gives it.
-/

import CircuitExpr.Backend

namespace CircuitExpr

/-- The outcome of a run: a value and the sources read for it, or a failure. -/
def Evaluation (S α : Type) := Option (α × List S)

namespace Evaluation

variable {S α β : Type}

/-- A value without reading. -/
def pure (x : α) : Evaluation S α := some (x, [])

/-- The outcome of what follows on a value, with what was read for both. -/
def bind (x : Evaluation S α) (f : α → Evaluation S β) : Evaluation S β :=
  match x with
  | none => none
  | some (a, before) =>
    match f a with
    | none => none
    | some (b, after) => some (b, before ++ after)

instance : Monad (Evaluation S) where
  pure := pure
  bind := bind

/-- The value of a source. -/
def read (memory : S → α) (source : S) : Evaluation S α := some (memory source, [source])

/-- A value that may be missing. -/
def ofOption (x : Option α) : Evaluation S α := x.map fun a => (a, [])

/-- The value, without what was read for it. -/
def value? (x : Evaluation S α) : Option α := Option.map Prod.fst x

end Evaluation

/-- A call of a function.  A source that its values depend on is read for the call. -/
def Meaning.call {ρ S α : Type} (memory : S → α) (fudge : ρ) (args : List α) :
    Meaning ρ S α → Evaluation S α
  | plain values => .ofOption (values fudge args)
  | sourced source values => do
    let x ← Evaluation.read memory source
    .ofOption (values x fudge args)

/-- An expression over the numbers `ρ` made ready for evaluation, with sources `S` of
values `α`. -/
inductive Evaluator (ρ S α : Type) where
  /-- A value that does not change. -/
  | value (x : α)
  /-- The value of a source. -/
  | read (source : S)
  /-- The value with the other sign. -/
  | neg (x : Evaluator ρ S α)
  /-- The opposite answer. -/
  | not (x : Evaluator ρ S α)
  /-- An operator between two values. -/
  | binary (op : BinaryOp) (x y : Evaluator ρ S α)
  /-- A value times itself. -/
  | square (x : Evaluator ρ S α)
  /-- A power with an exponent that is known. -/
  | powi (x : Evaluator ρ S α) (exponent : Int32)
  /-- A function of some arguments. -/
  | call (f : NamedFunction ρ) (args : List (Evaluator ρ S α))
  /-- One of two evaluators, depending on an answer. -/
  | conditional (condition ifTrue ifFalse : Evaluator ρ S α)

namespace Evaluator

variable {ρ S α : Type} [Scalar ρ]

/-- The value of an operator that needs both operands. -/
def combine (b : Backend ρ S α) (op : BinaryOp) (x y : α) : α :=
  match op with
  | .add => b.add x y
  | .sub => b.sub x y
  | .mul => b.mul x y
  | .div => b.div x y
  | .mod => b.rem x y
  | .pow => b.pow x y
  | .and => b.ofBool (b.isTrue x && b.isTrue y)
  | .or => b.ofBool (b.isTrue x || b.isTrue y)
  | .xor => b.ofBool (b.isTrue x != b.isTrue y)
  | .eq | .ne | .lt | .le | .gt | .ge => b.ofBool (b.compare op x y)

/-- Does the left operand alone decide? -/
def decides (b : Backend ρ S α) (op : BinaryOp) (x : α) : Bool :=
  match op with
  | .and => !b.isTrue x
  | .or => b.isTrue x
  | _ => false

mutual

/-- Runs an evaluator.  Operands and arguments are evaluated from left to right, a
right operand only if the left one does not decide, and of a choice the selected
branch only. -/
def run (b : Backend ρ S α) (memory : S → α) : Evaluator ρ S α → Evaluation S α
  | .value x => pure x
  | .read source => Evaluation.read memory source
  | .neg x => do return b.neg (← run b memory x)
  | .not x => do return b.ofBool (!b.isTrue (← run b memory x))
  | .binary op x y => do
    let a ← run b memory x
    if decides b op a then return b.ofBool (b.isTrue a)
    else return combine b op a (← run b memory y)
  | .square x => do
    let a ← run b memory x
    return b.mul a a
  | .powi x n => do return b.powi (← run b memory x) n
  | .call f args => do
    let values ← runAll b memory args
    match b.implementation f with
    | some meaning => meaning.call memory b.fudge values
    | none => none
  | .conditional c t f => do
    if b.isTrue (← run b memory c) then run b memory t else run b memory f

/-- Runs some evaluators, from left to right. -/
def runAll (b : Backend ρ S α) (memory : S → α) :
    List (Evaluator ρ S α) → Evaluation S (List α)
  | [] => pure []
  | x :: xs => do
    let a ← run b memory x
    let rest ← runAll b memory xs
    return a :: rest

end

/-- The value of a run, without what was read for it. -/
def value? (b : Backend ρ S α) (memory : S → α) (e : Evaluator ρ S α) : Option α :=
  (e.run b memory).value?

end Evaluator
end CircuitExpr
