/-
# From text to tokens

Blanks separate tokens and are dropped.  At any other character the longest token
that the text starts with is taken:

* a number is digits, optionally a point and more digits, or a point and digits;
  then optionally an exponent, which needs a digit after its mark and sign; then
  any letters, which are its suffix;
* an identifier is an ASCII letter or underscore with ASCII letters, digits and
  underscores after it;
* a symbol has one or two characters.

`scan` returns all tokens up to the end of the text or to the first character that
starts none.
-/

import CircuitExpr.Token
import CircuitExpr.Token.Suffix
import CircuitExpr.ParseError
import CircuitExpr.Decimal
import CircuitExpr.Text.Alphabetic
import CircuitExpr.Text.Blank

namespace CircuitExpr
namespace Lexer

/-- How many bytes the characters take in UTF-8. -/
def utf8Length : List Char → Nat
  | [] => 0
  | c :: cs => c.utf8Size + utf8Length cs

/-- Cuts off the run of characters of a class at the front. -/
def span (p : Char → Bool) (cs : List Char) : List Char × List Char :=
  (cs.takeWhile p, cs.dropWhile p)

/-- Cuts off a point with the digits after it, if a point comes first. -/
def splitPoint : List Char → List Char × List Char
  | '.' :: cs => ('.' :: cs.takeWhile Char.isDigit, cs.dropWhile Char.isDigit)
  | cs => ([], cs)

/-- Cuts off a sign, if one comes first. -/
def splitSign : List Char → List Char × List Char
  | '+' :: cs => (['+'], cs)
  | '-' :: cs => (['-'], cs)
  | cs => ([], cs)

/-- Cuts off an exponent: its mark, a sign or none, and at least one digit. -/
def splitExponent : List Char → List Char × List Char
  | [] => ([], [])
  | mark :: cs =>
    let (sign, after) := splitSign cs
    let digits := after.takeWhile Char.isDigit
    if (mark == 'e' || mark == 'E') && !digits.isEmpty then
      (mark :: (sign ++ digits), after.dropWhile Char.isDigit)
    else ([], mark :: cs)

/-- Nothing is lost between the point with its digits and what follows. -/
theorem splitPoint_append (cs : List Char) : (splitPoint cs).1 ++ (splitPoint cs).2 = cs := by
  unfold splitPoint
  split <;> simp [List.takeWhile_append_dropWhile]

/-- Nothing is lost between a sign and what follows. -/
theorem splitSign_append (cs : List Char) : (splitSign cs).1 ++ (splitSign cs).2 = cs := by
  unfold splitSign
  split <;> simp

/-- Nothing is lost between an exponent and what follows. -/
theorem splitExponent_append (cs : List Char) :
    (splitExponent cs).1 ++ (splitExponent cs).2 = cs := by
  cases cs with
  | nil => rfl
  | cons mark cs =>
    have h := splitSign_append cs
    simp only [splitExponent]
    split
    · simp only [List.cons_append, List.append_assoc, List.takeWhile_append_dropWhile, h]
    · rfl

/-- The digits of a number with point and exponent, its suffix, and what follows. -/
structure NumberParts where
  /-- Digits, point and exponent. -/
  digits : List Char
  /-- The letters after them. -/
  suffix : List Char
  /-- The rest of the text. -/
  rest : List Char

/-- Cuts off a number at the front of a text. -/
def splitNumber (cs : List Char) : NumberParts :=
  let (whole, cs) := span Char.isDigit cs
  let (point, cs) := splitPoint cs
  let (exponent, cs) := splitExponent cs
  let (suffix, rest) := span Text.isAlphabetic cs
  ⟨whole ++ point ++ exponent, suffix, rest⟩

/-- **A number and what follows make up the text.** -/
theorem splitNumber_append (cs : List Char) :
    (splitNumber cs).digits ++ (splitNumber cs).suffix ++ (splitNumber cs).rest = cs := by
  simp only [splitNumber, span, List.append_assoc, List.takeWhile_append_dropWhile,
    splitExponent_append, splitPoint_append]

/-- Does a number start with these characters? -/
def startsNumber (c : Char) (cs : List Char) : Bool :=
  c.isDigit || (c == '.' && match cs with
    | d :: _ => d.isDigit
    | [] => false)

/-- May an identifier start with this character? -/
def startsIdentifier (c : Char) : Bool := c.isAlpha || c == '_'

/-- May this character stand inside an identifier? -/
def continuesIdentifier (c : Char) : Bool := c.isAlphanum || c == '_'

/-- The longest symbol at the front of a text, with its characters and the rest. -/
def cutSymbol? (c : Char) (cs : List Char) : Option (Symbol × List Char × List Char) :=
  let pair := match cs with
    | d :: rest => (Symbol.ofPair? c d).map fun s => (s, [c, d], rest)
    | [] => none
  pair.or ((Symbol.ofChar? c).map fun s => (s, [c], cs))

/-- A token cut off a text. -/
structure Cut (ρ : Type) where
  /-- What the token is. -/
  kind : Token.Kind ρ
  /-- Its characters. -/
  lexeme : List Char
  /-- The rest of the text. -/
  rest : List Char

variable {ρ : Type} [Scalar ρ]

/-- The value of the digits of a number. -/
def mantissa? (digits : List Char) : Option ρ :=
  (Decimal.read? digits).map fun d => Scalar.ofDecimal d.significand d.exponent

/-- Cuts the first token off a text that starts with the character `c`. -/
def cut (offset : Nat) (c : Char) (cs : List Char) : Except ParseError (Cut ρ) :=
  if startsNumber c cs then
    let parts := splitNumber (c :: cs)
    match mantissa? parts.digits with
    | some x =>
      .ok ⟨.number (x * Suffix.scale parts.suffix), parts.digits ++ parts.suffix, parts.rest⟩
    | none => .error (.invalidNumber (String.ofList parts.digits) offset)
  else if startsIdentifier c then
    .ok ⟨.identifier, c :: cs.takeWhile continuesIdentifier, cs.dropWhile continuesIdentifier⟩
  else match cutSymbol? c cs with
    | some (s, lexeme, rest) => .ok ⟨.symbol s, lexeme, rest⟩
    | none => .error (.unexpectedCharacter c offset)

/-- The characters of a number are not none. -/
theorem splitNumber_rest_length {c : Char} {cs : List Char} (h : startsNumber c cs = true) :
    (splitNumber (c :: cs)).rest.length < (c :: cs).length := by
  have happ := congrArg List.length (splitNumber_append (c :: cs))
  have hpos : 0 < (splitNumber (c :: cs)).digits.length := by
    simp only [splitNumber, span, List.length_append]
    simp only [startsNumber, Bool.or_eq_true, Bool.and_eq_true, beq_iff_eq] at h
    rcases h with h | ⟨rfl, h⟩
    · simp only [List.takeWhile_cons, h, if_true, List.length_cons]
      omega
    · have : Char.isDigit '.' = false := by decide
      simp only [List.takeWhile_cons, List.dropWhile_cons, this, Bool.false_eq_true, if_false,
        splitPoint, List.length_cons]
      omega
  simp only [List.length_append] at happ
  omega

/-- A symbol has two characters or one. -/
theorem cutSymbol?_cases {c : Char} {cs lexeme rest : List Char} {s : Symbol}
    (h : cutSymbol? c cs = some (s, lexeme, rest)) :
    (∃ d, cs = d :: rest ∧ lexeme = [c, d] ∧ Symbol.ofPair? c d = some s) ∨
      cs = rest ∧ lexeme = [c] ∧ Symbol.ofChar? c = some s := by
  simp only [cutSymbol?, Option.or_eq_some_iff] at h
  rcases h with h | ⟨-, h⟩
  · cases cs with
    | nil => cases h
    | cons d cs =>
      simp only [Option.map_eq_some_iff, Prod.mk.injEq] at h
      obtain ⟨_, hs, rfl, rfl, rfl⟩ := h
      exact .inl ⟨d, rfl, rfl, hs⟩
  · simp only [Option.map_eq_some_iff, Prod.mk.injEq] at h
    obtain ⟨_, hs, rfl, rfl, rfl⟩ := h
    exact .inr ⟨rfl, rfl, hs⟩

/-- Cutting a symbol takes at least one character. -/
theorem cutSymbol?_rest_length {c : Char} {cs lexeme rest : List Char} {s : Symbol}
    (h : cutSymbol? c cs = some (s, lexeme, rest)) : rest.length < (c :: cs).length := by
  obtain ⟨d, rfl, -, -⟩ | ⟨rfl, -, -⟩ := cutSymbol?_cases h
  · simp only [List.length_cons]
    omega
  · simp

/-- **Every token is at least one character long.** -/
theorem cut_rest_length {offset : Nat} {c : Char} {cs : List Char} {t : Cut ρ}
    (h : cut offset c cs = .ok t) : t.rest.length < (c :: cs).length := by
  unfold cut at h
  split at h
  · rename_i hn
    dsimp only at h
    split at h
    · cases h
      exact splitNumber_rest_length hn
    · cases h
  · split at h
    · cases h
      exact Nat.lt_succ_of_le (List.dropWhile_sublist _).length_le
    · split at h
      · rename_i hs
        cases h
        exact cutSymbol?_rest_length hs
      · cases h

/-- The tokens of a text and how they end: at the end of the text, whose length is
given, or with an error. -/
structure Scan (ρ : Type) where
  /-- The tokens in order. -/
  tokens : List (Token ρ)
  /-- The length of the text, if all of it was read. -/
  ending : Except ParseError Nat

/-- The tokens of the rest of a text that starts at `offset`. -/
def scanFrom (offset : Nat) (text : List Char) : Scan ρ :=
  let start := offset + utf8Length (text.takeWhile Text.isBlank)
  match _ht : text.dropWhile Text.isBlank with
  | [] => ⟨[], .ok start⟩
  | c :: cs =>
    match _hc : (cut start c cs : Except ParseError (Cut ρ)) with
    | .error e => ⟨[], .error e⟩
    | .ok t =>
      let after := scanFrom (start + utf8Length t.lexeme) t.rest
      ⟨⟨t.kind, String.ofList t.lexeme, start⟩ :: after.tokens, after.ending⟩
termination_by text.length
decreasing_by
  have h1 := cut_rest_length _hc
  have h2 := (List.dropWhile_sublist Text.isBlank (l := text)).length_le
  rw [_ht] at h2
  omega

/-- The tokens of a text, as far as it consists of tokens. -/
def scan (text : String) : Scan ρ := scanFrom 0 text.toList

end Lexer

/-- The tokens of a text that consists of tokens only. -/
def Tokens.ofText {ρ : Type} [Scalar ρ] (text : String) : Except ParseError (Tokens ρ) :=
  let s : Lexer.Scan ρ := Lexer.scan text
  match s.ending with
  | .ok stop => .ok ⟨s.tokens, stop⟩
  | .error e => .error e

end CircuitExpr
