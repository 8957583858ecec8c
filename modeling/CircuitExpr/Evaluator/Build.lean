/-
# From expressions to evaluators

Building an evaluator looks up everything that has a name.  The host is asked for
the source of each variable, once per variable and in the order in which the
variables are met; a name that it does not know may still be a constant of the
vocabulary.  A call is looked up before its arguments.  The first thing that
cannot be found is the error.

The host keeps a state of its own, which each question may change; it is returned
also when the build fails.
-/

import CircuitExpr.Attempt
import CircuitExpr.Evaluator
import CircuitExpr.Vocabulary

namespace CircuitExpr

/-- Why an expression cannot be evaluated. -/
inductive BuildError where
  /-- The host does not know the variable. -/
  | unresolvedVariable (v : Variable)
  /-- There is no function of this name and number of arguments. -/
  | unknownFunction (name : String) (arity : Nat)
  /-- The function has no values of this kind. -/
  | missingImplementation (name backend : String)
deriving DecidableEq, Repr

/-- The message of an error. -/
def BuildError.message : BuildError → String
  | unresolvedVariable v => "unresolved variable: " ++ v.text
  | unknownFunction name arity =>
    "unknown function: " ++ name ++ " with " ++ toString arity ++ " argument(s)"
  | missingImplementation name backend =>
    "function " ++ name ++ " is not available for the " ++ backend ++ " backend"

/-- What expressions are evaluated with. -/
structure Setting (ρ S α : Type) where
  /-- The names that may be used. -/
  vocabulary : Vocabulary ρ
  /-- What the values are. -/
  backend : Backend ρ S α

/-- A host with state `σ` that knows the sources of some variables. -/
abbrev Resolver (σ S : Type) := Variable → σ → Option S × σ

/-- The host that keeps, in order, the variables it was asked for. -/
def Resolver.recording {S : Type} (source? : Variable → Option S) : Resolver (List Variable) S :=
  fun v asked => (source? v, asked ++ [v])

namespace Evaluator

/-- The state of a build: that of the host, and what each variable met so far is
replaced by. -/
structure Progress (ρ S α σ : Type) where
  /-- The state of the host. -/
  host : σ
  /-- What the variables are replaced by. -/
  sources : OrderedMap Variable (Evaluator ρ S α)

/-- A step of a build. -/
abbrev Building (ρ S α σ β : Type) := Attempt BuildError (Progress ρ S α σ) β

open Attempt

variable {ρ S α σ : Type} [Scalar ρ]

/-- A constant of the vocabulary in the place of a variable that the host does not
know. -/
def fallback (s : Setting ρ S α) (v : Variable) : Except BuildError (Evaluator ρ S α) :=
  match v.kind with
  | .named =>
    match s.vocabulary.constant? v.name with
    | some x => .ok (.value (s.backend.ofReal x))
    | none => .error (.unresolvedVariable v)
  | _ => .error (.unresolvedVariable v)

/-- What a variable is replaced by. -/
def resolve (s : Setting ρ S α) (host : Resolver σ S) (v : Variable) :
    Building ρ S α σ (Evaluator ρ S α) := fun p =>
  match p.sources.get? v with
  | some e => (.ok e, p)
  | none =>
    match host v p.host with
    | (some source, state) =>
      (.ok (.read source), ⟨state, p.sources.insert v (.read source)⟩)
    | (none, state) =>
      match fallback s v with
      | .ok e => (.ok e, ⟨state, p.sources.insert v e⟩)
      | .error e => (.error e, ⟨state, p.sources⟩)

/-- The power with a constant integer exponent. -/
def power (b : Backend ρ S α) (x : Evaluator ρ S α) (n : Int32) : Evaluator ρ S α :=
  if n = 0 then .value (b.ofReal 1)
  else if n = 1 then x
  else if n = 2 then .square x
  else .powi x n

/-- An operator before an operand. -/
def signed (op : UnaryOp) (x : Evaluator ρ S α) : Evaluator ρ S α :=
  match op with
  | .plus => x
  | .minus => .neg x
  | .not => .not x

/-- The exponent of a power that is multiplied out. -/
def fixedExponent? (op : BinaryOp) (y : Expr ρ) : Option Int32 :=
  match op with
  | .pow => y.asConstant?.bind integerExponent?
  | _ => none

/-- The function of a call, if the backend has values for it. -/
def callee (s : Setting ρ S α) (name : String) (arity : Nat) :
    Except BuildError (NamedFunction ρ) :=
  match s.vocabulary.functionOf? name arity with
  | none => .error (.unknownFunction name arity)
  | some f =>
    match s.backend.implementation f with
    | none => .error (.missingImplementation f.name s.backend.name)
    | some _ => .ok f

mutual

/-- Makes an expression ready for evaluation. -/
def compile (s : Setting ρ S α) (host : Resolver σ S) :
    Expr ρ → Building ρ S α σ (Evaluator ρ S α)
  | .constant c => done (.value (s.backend.ofReal c))
  | .var v => resolve s host v
  | .unary op x => andThen (compile s host x) fun x => done (signed op x)
  | .binary op x y =>
    match fixedExponent? op y with
    | some n => andThen (compile s host x) fun x => done (power s.backend x n)
    | none =>
      andThen (compile s host x) fun x =>
        andThen (compile s host y) fun y => done (.binary op x y)
  | .call name args =>
    match callee s name args.length with
    | .error e => fail e
    | .ok f => andThen (compileAll s host args) fun args => done (.call f args)
  | .conditional c t f =>
    andThen (compile s host c) fun c =>
      andThen (compile s host t) fun t =>
        andThen (compile s host f) fun f => done (.conditional c t f)

/-- Makes some expressions ready for evaluation, from left to right. -/
def compileAll (s : Setting ρ S α) (host : Resolver σ S) :
    List (Expr ρ) → Building ρ S α σ (List (Evaluator ρ S α))
  | [] => done []
  | x :: xs =>
    andThen (compile s host x) fun x =>
      andThen (compileAll s host xs) fun xs => done (x :: xs)

end

/-- Builds the evaluator of an expression, asking the host. -/
def build (s : Setting ρ S α) (host : Resolver σ S) (e : Expr ρ) :
    Attempt BuildError σ (Evaluator ρ S α) := fun state =>
  let (result, progress) := compile s host e ⟨state, .empty⟩
  (result, progress.host)

end Evaluator
end CircuitExpr
