/-
# Expressions interpreted directly

`Expr.interpret` evaluates an expression as it stands, without building anything.
It follows the tree: operands and arguments from left to right, a right operand of
`&&` and `||` only if the left one does not decide, of a choice the condition and
then one branch.  A power whose exponent is the constant zero is one, whatever its
base, which is not looked at.  Every variable that is met is read where it is met,
and the source that a function depends on where it is called, after its arguments.
It says of each operator what it computes, and shares nothing with evaluators but
the operations of the backend.

The interpreter has to be told the source of each variable.  A host may change
its mind from one question to the next, so what counts is what it said when it was
asked: `Resolver.askAll` asks once for each variable of a list, in order, and
`Answers.source?` looks an answer up.  The variables of a tree in the order in
which they stand are its `leaves`.
-/

import CircuitExpr.Evaluator.Build

namespace CircuitExpr

/-- What a host has said so far, and the state that it is in. -/
structure Answers (σ S : Type) where
  /-- The state of the host. -/
  state : σ
  /-- What was said of each variable asked for; `none` for one it does not know. -/
  given : OrderedMap Variable (Option S)

/-- The source that was given for a variable, if there was one. -/
def Answers.source? {σ S : Type} (a : Answers σ S) (v : Variable) : Option S :=
  (a.given.get? v).join

namespace Resolver

variable {σ S : Type}

/-- Asks for one variable, unless it was asked for before. -/
def ask (host : Resolver σ S) (a : Answers σ S) (v : Variable) : Answers σ S :=
  match a.given.get? v with
  | some _ => a
  | none => ⟨(host v a.state).2, a.given.insert v (host v a.state).1⟩

/-- Asks for some variables in order, for each of them once. -/
def askAll (host : Resolver σ S) (state : σ) (vs : List Variable) : Answers σ S :=
  vs.foldl host.ask ⟨state, .empty⟩

end Resolver

namespace Expr

variable {ρ : Type}

mutual

/-- The variables of a tree from left to right, with their repetitions. -/
def leaves : Expr ρ → List Variable
  | .constant _ => []
  | .var v => [v]
  | .unary _ x => leaves x
  | .binary _ x y => leaves x ++ leaves y
  | .call _ args => leavesAll args
  | .conditional c t f => leaves c ++ leaves t ++ leaves f

/-- The variables of some trees from left to right. -/
def leavesAll : List (Expr ρ) → List Variable
  | [] => []
  | x :: xs => leaves x ++ leavesAll xs

end

variable [Scalar ρ] {S α : Type}

/-- Is this the exponent of a power that is one whatever its base? -/
def isZeroExponent (y : Expr ρ) : Bool := y.asConstant?.bind integerExponent? == some 0

/-- The value of a variable: that of its source, or for a name without source the
constant of the vocabulary. -/
def interpretVariable (s : Setting ρ S α) (source? : Variable → Option S) (memory : S → α)
    (v : Variable) : Evaluation S α :=
  match source? v, v.kind with
  | some source, _ => .read memory source
  | none, .named => .ofOption ((s.vocabulary.constant? v.name).map s.backend.ofReal)
  | none, _ => none

/-- An operation on the values of two operands, the left one coming first. -/
def both (f : α → α → α) (x y : Evaluation S α) : Evaluation S α := do
  let a ← x
  return f a (← y)

mutual

/-- The value of a tree and the sources read for it, in order. -/
def interpret (s : Setting ρ S α) (source? : Variable → Option S) (memory : S → α) :
    Expr ρ → Evaluation S α
  | .constant c => pure (s.backend.ofReal c)
  | .var v => interpretVariable s source? memory v
  | .unary .plus x => interpret s source? memory x
  | .unary .minus x => do return s.backend.neg (← interpret s source? memory x)
  | .unary .not x => do
    return s.backend.ofBool (!s.backend.isTrue (← interpret s source? memory x))
  | .binary .add x y =>
    both s.backend.add (interpret s source? memory x) (interpret s source? memory y)
  | .binary .sub x y =>
    both s.backend.sub (interpret s source? memory x) (interpret s source? memory y)
  | .binary .mul x y =>
    both s.backend.mul (interpret s source? memory x) (interpret s source? memory y)
  | .binary .div x y =>
    both s.backend.div (interpret s source? memory x) (interpret s source? memory y)
  | .binary .mod x y =>
    both s.backend.rem (interpret s source? memory x) (interpret s source? memory y)
  | .binary .pow x y =>
    if y.isZeroExponent then pure (s.backend.ofReal 1)
    else both s.backend.pow (interpret s source? memory x) (interpret s source? memory y)
  | .binary .and x y => do
    if s.backend.isTrue (← interpret s source? memory x) then
      return s.backend.ofBool (s.backend.isTrue (← interpret s source? memory y))
    else return s.backend.ofBool false
  | .binary .or x y => do
    if s.backend.isTrue (← interpret s source? memory x) then return s.backend.ofBool true
    else return s.backend.ofBool (s.backend.isTrue (← interpret s source? memory y))
  | .binary .xor x y =>
    both (fun a b => s.backend.ofBool (s.backend.isTrue a != s.backend.isTrue b))
      (interpret s source? memory x) (interpret s source? memory y)
  | .binary .eq x y =>
    both (fun a b => s.backend.ofBool (s.backend.compare .eq a b))
      (interpret s source? memory x) (interpret s source? memory y)
  | .binary .ne x y =>
    both (fun a b => s.backend.ofBool (s.backend.compare .ne a b))
      (interpret s source? memory x) (interpret s source? memory y)
  | .binary .lt x y =>
    both (fun a b => s.backend.ofBool (s.backend.compare .lt a b))
      (interpret s source? memory x) (interpret s source? memory y)
  | .binary .le x y =>
    both (fun a b => s.backend.ofBool (s.backend.compare .le a b))
      (interpret s source? memory x) (interpret s source? memory y)
  | .binary .gt x y =>
    both (fun a b => s.backend.ofBool (s.backend.compare .gt a b))
      (interpret s source? memory x) (interpret s source? memory y)
  | .binary .ge x y =>
    both (fun a b => s.backend.ofBool (s.backend.compare .ge a b))
      (interpret s source? memory x) (interpret s source? memory y)
  | .call name args => do
    let values ← interpretAll s source? memory args
    match (s.vocabulary.functionOf? name args.length).bind s.backend.implementation with
    | none => none
    | some (.plain g) => .ofOption (g s.backend.fudge values)
    | some (.sourced source g) => do
      let x ← .read memory source
      .ofOption (g x s.backend.fudge values)
  | .conditional c t f => do
    if s.backend.isTrue (← interpret s source? memory c) then interpret s source? memory t
    else interpret s source? memory f

/-- The values of some trees, from left to right. -/
def interpretAll (s : Setting ρ S α) (source? : Variable → Option S) (memory : S → α) :
    List (Expr ρ) → Evaluation S (List α)
  | [] => pure []
  | x :: xs => do
    let a ← interpret s source? memory x
    let rest ← interpretAll s source? memory xs
    return a :: rest

end

end Expr
end CircuitExpr
