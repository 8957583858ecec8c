/-
# The rules of differentiation

`step` gives the derivatives of an expression from those of its operands.  The
operands are what the expression is differentiated through: the condition of a
choice is not among them.

| expression | derivative |
| --- | --- |
| `+f`, `-f` | `f'`, `-f'` |
| `f + g`, `f - g` | `f' + g'`, `f' + (-g')` |
| `f * g` | `g f' + f g'` |
| `f / g` | `f' / g + (-(f g' / (g g)))` |
| `f % g` | `f' + (-(q g'))` with `q = trunc(f / g)` |
| `f ^ g` | the chain rule over `Vocabulary.powerPartials` |
| a call | by the rule of the function |
| `c ? f : g` | `c ? f' : g'` |

There is no derivative of an expression that answers a question, nor of a call
that depends on a variable through a function without a rule.
-/

import CircuitExpr.Derivative.Terms
import CircuitExpr.Vocabulary.Builtin

namespace CircuitExpr
namespace Derivative

variable {ρ : Type} [Scalar ρ]

/-- The derivatives of an operator between two operands. -/
def ofBinary (op : BinaryOp) (f g : Expr ρ) (df dg : Derivatives ρ) : Option (Derivatives ρ) :=
  match op with
  | .add => some (.sum [df, dg])
  | .sub => some (.sum [df, dg.map fun d => -d])
  | .mul => some (.sum [df.map fun d => g * d, dg.map fun d => f * d])
  | .div => some (.sum [df.map fun d => d / g, dg.map fun d => -(f * d / (g * g))])
  | .mod =>
    let quotient : Expr ρ := .call "trunc" [f / g]
    some (.sum [df, dg.map fun d => -(quotient * d)])
  | .pow => some (.chain ((Vocabulary.powerPartials f g).zip [df, dg]))
  | _ => none

/-- The derivatives of a call by a rule that looks at one variable at a time. -/
def ofDirect (rule : List (Expr ρ) → List (Option (Expr ρ)) → Option (Expr ρ))
    (args : List (Expr ρ)) (ds : List (Derivatives ρ)) : Derivatives ρ :=
  .ofKeys (fun v => rule args (ds.map fun d => d.get? v)) (Derivatives.vars ds)

/-- The derivatives of a call. -/
def ofCall (rule : Option (Rule ρ)) (args : List (Expr ρ)) (ds : List (Derivatives ρ)) :
    Option (Derivatives ρ) :=
  match rule with
  | some .constant => some .empty
  | some (.partials f) => some (.chain ((f args).zip ds))
  | some (.direct f) => some (ofDirect f args ds)
  | none => if ds.all OrderedMap.isEmpty then some .empty else none

/-- The derivatives of a choice. -/
def ofConditional (condition : Expr ρ) (dt df : Derivatives ρ) : Derivatives ρ :=
  .ofKeys (fun v => some (Expr.select condition (Vocabulary.orZero (dt.get? v))
    (Vocabulary.orZero (df.get? v)))) (Derivatives.vars [dt, df])

/-- The derivatives of an expression from those of its operands. -/
def step (w : Vocabulary ρ) (wanted : List Variable) (e : Expr ρ) (ds : List (Derivatives ρ)) :
    Option (Derivatives ρ) :=
  match e, ds with
  | .constant _, _ => some .empty
  | .var v, _ => some (if v ∈ wanted then .single v Expr.one else .empty)
  | .unary .plus _, [d] => some d
  | .unary .minus _, [d] => some (d.map fun d => -d)
  | .binary op f g, [df, dg] => ofBinary op f g df dg
  | .call name args, ds => ofCall ((w.functionOf? name args.length).bind (·.derivative)) args ds
  | .conditional c _ _, [dt, df] => some (ofConditional c dt df)
  | _, _ => none

end Derivative
end CircuitExpr
