/-
# Suffixes of numbers

Letters after the digits of a number scale it.  Case does not matter, and only the
first letters count, so that a unit may follow:

| suffix | scale | | suffix | scale |
| --- | --- | --- | --- | --- |
| `meg`, `x` | `10 ^ 6` | | `m` | `10 ^ -3` |
| `mil` | `25.4 * 10 ^ -6` | | `u`, a micro sign or a Greek mu | `10 ^ -6` |
| `t` | `10 ^ 12` | | `n` | `10 ^ -9` |
| `g` | `10 ^ 9` | | `p` | `10 ^ -12` |
| `k` | `10 ^ 3` | | `f` | `10 ^ -15` |

Any other suffix leaves the number as it is.
-/

import CircuitExpr.Scalar
import CircuitExpr.Text.Lowercase

namespace CircuitExpr
namespace Suffix

variable {ρ : Type} [Scalar ρ]

/-- The scale of a suffix in small letters. -/
def scaleLower : List Char → ρ
  | 'm' :: 'e' :: 'g' :: _ => Scalar.ofDecimal 1 6
  | 'm' :: 'i' :: 'l' :: _ => Scalar.ofDecimal 254 (-7)
  | 't' :: _ => Scalar.ofDecimal 1 12
  | 'g' :: _ => Scalar.ofDecimal 1 9
  | 'x' :: _ => Scalar.ofDecimal 1 6
  | 'k' :: _ => Scalar.ofDecimal 1 3
  | 'm' :: _ => Scalar.ofDecimal 1 (-3)
  | 'u' :: _ | 'µ' :: _ | 'μ' :: _ => Scalar.ofDecimal 1 (-6)
  | 'n' :: _ => Scalar.ofDecimal 1 (-9)
  | 'p' :: _ => Scalar.ofDecimal 1 (-12)
  | 'f' :: _ => Scalar.ofDecimal 1 (-15)
  | _ => 1

/-- The factor that a suffix stands for. -/
def scale (suffix : List Char) : ρ := scaleLower (Text.lowerAfter [] suffix)

end Suffix
end CircuitExpr
