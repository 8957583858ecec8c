/-
# Small letters

`lowercase` is the full Unicode mapping of a text to small letters.  It depends on
one character at a time except for the capital sigma, which at the end of a word
has a form of its own: a letter stands before it and none after it, apostrophes
and joining marks set aside.
-/

import CircuitExpr.Text.LowercaseTable

namespace CircuitExpr
namespace Text

/-- Does the range contain the character? -/
def CapitalRange.contains (r : CapitalRange) (c : Char) : Bool :=
  decide (r.first ≤ c.toNat) && decide (c.toNat ≤ r.last) && (c.toNat - r.first) % r.step == 0

/-- The small form of a character, itself if it has none. -/
def lowerChar (c : Char) : List Char :=
  if c.toNat < 128 then [c.toLower]
  else if c.toNat = 0x130 then ['i', Char.ofNat 0x307]
  else match capitals.find? fun r => r.contains c with
    | some r => [Char.ofNat ((c.toNat : Int) + r.shift).toNat]
    | none => [c]

/-- Does a letter come first, apostrophes and joining marks set aside? -/
def startsCased (cs : List Char) : Bool :=
  match cs.dropWhile caseIgnorableRanges.contains with
  | c :: _ => casedRanges.contains c
  | [] => false

/-- The small form of a capital sigma between the given texts, the one before it
read backwards. -/
def lowerSigma (before after : List Char) : Char :=
  if startsCased before && !startsCased after then 'ς' else 'σ'

/-- The small forms of the characters after `before`, which is read backwards. -/
def lowerAfter (before : List Char) : List Char → List Char
  | [] => []
  | c :: cs =>
    (if c == 'Σ' then [lowerSigma before cs] else lowerChar c) ++ lowerAfter (c :: before) cs

/-- The text in small letters. -/
def lowercase (s : String) : String := String.ofList (lowerAfter [] s.toList)

end Text
end CircuitExpr
