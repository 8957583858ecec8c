/-
# Where the lexer cuts

The lexer takes the longest token, so what it cuts off depends on what follows.  A
text is *delimited* when its first character, if any, goes on neither a word nor a
number: the blank, the comma and the brackets are such characters.  Before a
delimited text a token ends where it ends by itself, and a token that was cut off is
cut off again when it is read alone.

A number consists of

> digits, a point with digits or nothing, an exponent or nothing, letters

and from any such parts the lexer puts the same number together.
-/

import Mathlib
import CircuitExpr.Token.Lexer

namespace CircuitExpr
namespace Lexer

/-! ### Runs of characters -/

section Runs

variable {p : Char → Bool} {c : Char} {cs rest : List Char}

/-- The text does not start with a character of the class. -/
def StartsNot (p : Char → Bool) (cs : List Char) : Prop := ∀ c ∈ cs.head?, p c = false

/-- The empty text starts with a character of no class. -/
@[simp] theorem startsNot_nil : StartsNot p [] := by
  rintro c ⟨⟩

/-- Of any other text the first character counts. -/
@[simp] theorem startsNot_cons : StartsNot p (c :: cs) ↔ p c = false := by
  simp [StartsNot]

/-- If neither of two texts starts with the class, both together do not. -/
theorem StartsNot.append (h : StartsNot p cs) (hrest : StartsNot p rest) :
    StartsNot p (cs ++ rest) := by
  cases cs with
  | nil => exact hrest
  | cons c cs => exact startsNot_cons.mpr (startsNot_cons.mp h)

/-- If no character is of the class, the first is not. -/
theorem StartsNot.of_forall (h : ∀ c ∈ cs, p c = false) : StartsNot p cs :=
  fun c hc => h c (List.mem_of_mem_head? hc)

/-- What is taken satisfies the predicate. -/
theorem of_mem_takeWhile (h : c ∈ cs.takeWhile p) : p c = true :=
  List.all_eq_true.mp List.all_takeWhile c h

/-- A run that ends where another text starts is taken as a whole. -/
theorem takeWhile_append_of_startsNot (h : ∀ c ∈ cs, p c = true) (hrest : StartsNot p rest) :
    (cs ++ rest).takeWhile p = cs := by
  rw [List.takeWhile_append_of_pos h]
  cases rest with
  | nil => simp
  | cons c rest => simp [startsNot_cons.mp hrest]

/-- A run that ends where another text starts is dropped, and the other text is left. -/
theorem dropWhile_append_of_startsNot (h : ∀ c ∈ cs, p c = true) (hrest : StartsNot p rest) :
    (cs ++ rest).dropWhile p = rest := by
  rw [List.dropWhile_append_of_pos h]
  cases rest with
  | nil => rfl
  | cons c rest => simp [startsNot_cons.mp hrest]

end Runs

/-! ### Classes of characters by code point -/

section Classes

variable {c : Char} {cs rest : List Char}

/-- Digits are the ASCII ones. -/
theorem isDigit_iff : c.isDigit = true ↔ 48 ≤ c.toNat ∧ c.toNat ≤ 57 := by
  simp [Char.isDigit, UInt32.le_iff_toNat_le]

/-- Letters of the alphabet are the ASCII ones. -/
theorem isAlpha_iff :
    c.isAlpha = true ↔ (65 ≤ c.toNat ∧ c.toNat ≤ 90) ∨ (97 ≤ c.toNat ∧ c.toNat ≤ 122) := by
  simp [Char.isAlpha, Char.isUpper, Char.isLower, UInt32.le_iff_toNat_le]

/-- A letter of any script is one of the alphabet or beyond ASCII. -/
theorem letter_or_beyond_of_isAlphabetic (h : Text.isAlphabetic c = true) :
    c.isAlpha = true ∨ 128 ≤ c.toNat := by
  unfold Text.isAlphabetic at h
  split at h
  · exact .inl h
  · exact .inr (by omega)

/-- A letter is no digit. -/
theorem not_isDigit_of_isAlphabetic (h : Text.isAlphabetic c = true) : c.isDigit = false := by
  rw [Bool.eq_false_iff, Ne, isDigit_iff]
  rcases letter_or_beyond_of_isAlphabetic h with h | h
  · have := isAlpha_iff.mp h
    omega
  · omega

/-- A character that is no letter, digit or mark beyond ASCII is not alphabetic. -/
theorem not_isAlphabetic {d : Char} (h : d.toNat < 128) (hd : d.isAlpha = false) :
    Text.isAlphabetic d = false := by
  unfold Text.isAlphabetic
  rw [if_pos h]
  exact hd

/-- A letter differs from every ASCII character that is none. -/
theorem ne_of_isAlphabetic {d : Char} (h : Text.isAlphabetic c = true) (hlt : d.toNat < 128)
    (hd : d.isAlpha = false) : c ≠ d := by
  rintro rfl
  rw [not_isAlphabetic hlt hd] at h
  cases h

/-- Blanks are control characters, the space, or beyond ASCII. -/
theorem isBlank_range (h : Text.isBlank c = true) : c.toNat ≤ 32 ∨ 128 ≤ c.toNat := by
  simp [Text.isBlank, Text.blankRanges, Text.CharRanges.contains] at h
  omega

/-- A visible ASCII character is no blank. -/
theorem not_isBlank (h : 33 ≤ c.toNat) (hlt : c.toNat < 128) : Text.isBlank c = false := by
  rw [Bool.eq_false_iff]
  intro hblank
  have := isBlank_range hblank
  omega

/-- An identifier starts with a letter of the alphabet or an underscore, all of them above the
digits. -/
theorem startsIdentifier_range (h : startsIdentifier c = true) :
    65 ≤ c.toNat ∧ c.toNat ≤ 122 := by
  simp only [startsIdentifier, Bool.or_eq_true, beq_iff_eq] at h
  rcases h with h | rfl
  · have := isAlpha_iff.mp h
    omega
  · decide

/-- A number starts with a digit or a point. -/
theorem startsNumber_range (h : startsNumber c cs = true) : 46 ≤ c.toNat ∧ c.toNat ≤ 57 := by
  simp only [startsNumber, Bool.or_eq_true, Bool.and_eq_true, beq_iff_eq] at h
  rcases h with h | ⟨rfl, -⟩
  · have := isDigit_iff.mp h
    omega
  · decide

end Classes

/-! ### Delimited texts -/

/-- Can the character stand inside or directly after a part of a word or a number? -/
def extends? (c : Char) : Bool :=
  continuesIdentifier c || Text.isAlphabetic c || c == '.' || c == '+' || c == '-'

/-- The text goes on neither a word nor a number before it. -/
def Delimited (rest : List Char) : Prop := StartsNot extends? rest

/-- The end of the text delimits every token. -/
theorem delimited_nil : Delimited [] := startsNot_nil

/-- A bracket, a comma or a blank delimits. -/
theorem delimited_cons {c : Char} {rest : List Char} (h : extends? c = false) :
    Delimited (c :: rest) := startsNot_cons.mpr h

section Delimited

variable {rest : List Char} (h : Delimited rest)
include h

/-- What delimits does not go on with an identifier. -/
theorem Delimited.continuesIdentifier : StartsNot continuesIdentifier rest := by
  intro c hc
  have := h c hc
  simp only [extends?, Bool.or_eq_false_iff] at this
  exact this.1.1.1.1

/-- What delimits does not go on with digits. -/
theorem Delimited.isDigit : StartsNot Char.isDigit rest := by
  intro c hc
  have := h.continuesIdentifier c hc
  simp only [Lexer.continuesIdentifier, Char.isAlphanum, Bool.or_eq_false_iff] at this
  exact this.1.2

/-- What delimits does not go on with letters. -/
theorem Delimited.isAlphabetic : StartsNot Text.isAlphabetic rest := by
  intro c hc
  have := h c hc
  simp only [extends?, Bool.or_eq_false_iff] at this
  exact this.1.1.1.2

/-- What delimits does not go on with a point. -/
theorem Delimited.point : StartsNot (· == '.') rest := by
  intro c hc
  have := h c hc
  simp only [extends?, Bool.or_eq_false_iff] at this
  exact this.1.1.2

/-- What delimits does not go on with a sign. -/
theorem Delimited.sign : StartsNot (fun c => c == '+' || c == '-') rest := by
  intro c hc
  have := h c hc
  simp only [extends?, Bool.or_eq_false_iff] at this
  exact Bool.or_eq_false_iff.mpr ⟨this.1.2, this.2⟩

end Delimited

/-! ### The parts of a number -/

/-- A point with the digits after it, or nothing. -/
inductive IsPoint : List Char → Prop
  /-- No point. -/
  | nil : IsPoint []
  /-- A point and any number of digits. -/
  | digits (ds : List Char) : (∀ d ∈ ds, d.isDigit = true) → IsPoint ('.' :: ds)

/-- The sign of an exponent, or nothing. -/
inductive IsSign : List Char → Prop
  /-- No sign. -/
  | nil : IsSign []
  /-- A plus sign. -/
  | plus : IsSign ['+']
  /-- A minus sign. -/
  | minus : IsSign ['-']

/-- An exponent, or nothing. -/
inductive IsExponent : List Char → Prop
  /-- No exponent. -/
  | nil : IsExponent []
  /-- A mark, a sign and digits. -/
  | digits (mark : Char) (sign ds : List Char) : (mark == 'e' || mark == 'E') = true →
    IsSign sign → ds ≠ [] → (∀ d ∈ ds, d.isDigit = true) → IsExponent (mark :: (sign ++ ds))

/-- What is split off as a point with digits is one. -/
theorem splitPoint_isPoint (cs : List Char) : IsPoint (splitPoint cs).1 := by
  unfold splitPoint
  split
  · exact .digits _ fun d hd => of_mem_takeWhile hd
  · exact .nil

/-- What is split off as a sign is one. -/
theorem splitSign_isSign (cs : List Char) : IsSign (splitSign cs).1 := by
  unfold splitSign
  split
  · exact .plus
  · exact .minus
  · exact .nil

/-- What is split off as an exponent is one. -/
theorem splitExponent_isExponent (cs : List Char) : IsExponent (splitExponent cs).1 := by
  cases cs with
  | nil => exact .nil
  | cons mark cs =>
    simp only [splitExponent]
    split
    · rename_i h
      simp only [Bool.and_eq_true, Bool.not_eq_true', List.isEmpty_eq_false_iff] at h
      exact .digits _ _ _ h.1 (splitSign_isSign cs) h.2 fun d hd => of_mem_takeWhile hd
    · exact .nil

/-- A point with digits is split off whatever follows, as long as this starts with neither a
digit nor a point. -/
theorem splitPoint_append_of {point rest : List Char} (h : IsPoint point)
    (hdigit : StartsNot Char.isDigit rest) (hpoint : StartsNot (· == '.') rest) :
    splitPoint (point ++ rest) = (point, rest) := by
  cases h with
  | nil =>
    cases rest with
    | nil => rfl
    | cons c rest =>
      have hc : c ≠ '.' := by simpa using hpoint
      unfold splitPoint
      split
      · rename_i heq
        cases heq
        exact absurd rfl hc
      · rfl
  | digits ds hds =>
    simp [splitPoint, takeWhile_append_of_startsNot hds hdigit,
      dropWhile_append_of_startsNot hds hdigit]

/-- A sign is split off unless another one follows. -/
theorem splitSign_append_of {sign rest : List Char} (h : IsSign sign)
    (hrest : StartsNot (fun c => c == '+' || c == '-') rest) :
    splitSign (sign ++ rest) = (sign, rest) := by
  cases h with
  | plus => rfl
  | minus => rfl
  | nil =>
    unfold splitSign
    split
    · rename_i heq
      rw [List.nil_append] at heq
      simp [heq] at hrest
    · rename_i heq
      rw [List.nil_append] at heq
      simp [heq] at hrest
    · rfl

/-- Digits do not start with a sign. -/
theorem startsNot_sign_of_digits {ds rest : List Char} (hne : ds ≠ [])
    (h : ∀ d ∈ ds, d.isDigit = true) :
    StartsNot (fun c => c == '+' || c == '-') (ds ++ rest) := by
  cases ds with
  | nil => exact absurd rfl hne
  | cons d ds =>
    have := isDigit_iff.mp (h d List.mem_cons_self)
    simp only [List.cons_append, startsNot_cons, Bool.or_eq_false_iff, beq_eq_false_iff_ne]
    constructor <;> rintro rfl <;> revert this <;> decide

/-- An exponent is split off unless a digit follows. -/
theorem splitExponent_append_of {exponent rest : List Char} (h : IsExponent exponent)
    (hne : exponent ≠ []) (hdigit : StartsNot Char.isDigit rest) :
    splitExponent (exponent ++ rest) = (exponent, rest) := by
  cases h with
  | nil => exact absurd rfl hne
  | digits mark sign ds hmark hsign hds hdigits =>
    have hsplit : splitSign (sign ++ (ds ++ rest)) = (sign, ds ++ rest) :=
      splitSign_append_of hsign (startsNot_sign_of_digits hds hdigits)
    have hempty : ds.isEmpty = false := List.isEmpty_eq_false_iff.mpr hds
    simp only [List.cons_append, List.append_assoc, splitExponent, hsplit,
      takeWhile_append_of_startsNot hdigits hdigit, dropWhile_append_of_startsNot hdigits hdigit,
      hmark, hempty, Bool.not_false, Bool.and_self, if_true]

/-- Letters before a delimited text hold no exponent, not even those that start with
its mark. -/
theorem splitExponent_letters {letters rest : List Char}
    (h : ∀ c ∈ letters, Text.isAlphabetic c = true) (hrest : Delimited rest) :
    splitExponent (letters ++ rest) = ([], letters ++ rest) := by
  cases letters with
  | nil =>
    cases rest with
    | nil => rfl
    | cons c rest =>
      have hc : Text.isAlphabetic c = false := startsNot_cons.mp hrest.isAlphabetic
      have hmark : (c == 'e' || c == 'E') = false := by
        rw [Bool.or_eq_false_iff, beq_eq_false_iff_ne, beq_eq_false_iff_ne]
        constructor <;> rintro rfl <;> revert hc <;> decide
      simp [splitExponent, hmark]
  | cons mark letters =>
    have hletters (c : Char) (hc : c ∈ letters) := h c (List.mem_cons_of_mem _ hc)
    have hdigit : StartsNot Char.isDigit (letters ++ rest) :=
      .append (.of_forall fun c hc => not_isDigit_of_isAlphabetic (hletters c hc)) hrest.isDigit
    have hsign : splitSign ([] ++ (letters ++ rest)) = ([], letters ++ rest) := by
      refine splitSign_append_of .nil (.append (.of_forall fun c hc => ?_) hrest.sign)
      rw [Bool.or_eq_false_iff, beq_eq_false_iff_ne, beq_eq_false_iff_ne]
      exact ⟨ne_of_isAlphabetic (hletters c hc) (by decide) (by decide),
        ne_of_isAlphabetic (hletters c hc) (by decide) (by decide)⟩
    have hnone : ([] ++ (letters ++ rest)).takeWhile Char.isDigit = [] :=
      takeWhile_append_of_startsNot (List.forall_mem_nil _) hdigit
    rw [List.nil_append] at hsign hnone
    simp [splitExponent, hsign, hnone]

/-- A point with digits does not start with a digit. -/
theorem IsPoint.isDigit {point : List Char} (h : IsPoint point) :
    StartsNot Char.isDigit point := by
  cases h with
  | nil => exact startsNot_nil
  | digits ds hds => exact startsNot_cons.mpr (by decide)

/-- An exponent starts with its letter or not at all. -/
theorem IsExponent.startsNot {exponent : List Char} (h : IsExponent exponent) {p : Char → Bool}
    (he : p 'e' = false) (hE : p 'E' = false) : StartsNot p exponent := by
  cases h with
  | nil => exact startsNot_nil
  | digits mark sign ds hmark hsign hds hdigits =>
    simp only [Bool.or_eq_true, beq_iff_eq] at hmark
    rcases hmark with rfl | rfl
    · exact startsNot_cons.mpr he
    · exact startsNot_cons.mpr hE

/-- **The lexer puts a number together from its parts**, whatever delimited text
follows. -/
theorem splitNumber_of_parts {whole point exponent letters rest : List Char}
    (hwhole : ∀ c ∈ whole, c.isDigit = true) (hpoint : IsPoint point)
    (hexponent : IsExponent exponent) (hletters : ∀ c ∈ letters, Text.isAlphabetic c = true)
    (hrest : Delimited rest) :
    splitNumber (whole ++ point ++ exponent ++ letters ++ rest) =
      ⟨whole ++ point ++ exponent, letters, rest⟩ := by
  have hdigit : StartsNot Char.isDigit (letters ++ rest) :=
    .append (.of_forall fun c hc => not_isDigit_of_isAlphabetic (hletters c hc)) hrest.isDigit
  have hdigit' : StartsNot Char.isDigit (exponent ++ (letters ++ rest)) :=
    .append (hexponent.startsNot (by decide) (by decide)) hdigit
  have hdot : StartsNot (· == '.') (exponent ++ (letters ++ rest)) := by
    refine .append (hexponent.startsNot (by decide) (by decide))
      (.append (.of_forall fun c hc => ?_) hrest.point)
    rw [beq_eq_false_iff_ne]
    exact ne_of_isAlphabetic (hletters c hc) (by decide) (by decide)
  have hexp : splitExponent (exponent ++ (letters ++ rest)) = (exponent, letters ++ rest) := by
    by_cases hnil : exponent = []
    · rw [hnil, List.nil_append]
      exact splitExponent_letters hletters hrest
    · exact splitExponent_append_of hexponent hnil hdigit
  simp only [splitNumber, span, List.append_assoc,
    takeWhile_append_of_startsNot hwhole (hpoint.isDigit.append hdigit'),
    dropWhile_append_of_startsNot hwhole (hpoint.isDigit.append hdigit'),
    splitPoint_append_of hpoint hdigit' hdot, hexp,
    takeWhile_append_of_startsNot hletters hrest.isAlphabetic,
    dropWhile_append_of_startsNot hletters hrest.isAlphabetic]

/-- A number that was cut off is cut off again before any delimited text. -/
theorem splitNumber_again (cs : List Char) {rest : List Char} (hrest : Delimited rest) :
    splitNumber ((splitNumber cs).digits ++ (splitNumber cs).suffix ++ rest) =
      ⟨(splitNumber cs).digits, (splitNumber cs).suffix, rest⟩ :=
  splitNumber_of_parts (fun _ hc => of_mem_takeWhile hc) (splitPoint_isPoint _)
    (splitExponent_isExponent _) (fun _ hc => of_mem_takeWhile hc) hrest

/-- What starts a number starts it when more follows. -/
theorem startsNumber_append {c : Char} {cs : List Char} (h : startsNumber c cs = true)
    (rest : List Char) : startsNumber c (cs ++ rest) = true := by
  simp only [startsNumber, Bool.or_eq_true, Bool.and_eq_true] at h ⊢
  refine h.imp id (And.imp id fun h => ?_)
  cases cs with
  | nil => cases h
  | cons d cs => exact h

/-! ### Words and numbers -/

/-- The characters are those of a word. -/
def IsWord (cs : List Char) : Prop :=
  ∃ c rest, cs = c :: rest ∧ startsIdentifier c = true ∧ ∀ d ∈ rest, continuesIdentifier d = true

/-- The characters are those of a number, as a whole. -/
def IsNumber (cs : List Char) : Prop :=
  ∃ c rest, cs = c :: rest ∧ startsNumber c rest = true ∧ (splitNumber cs).rest = [] ∧
    (Decimal.read? (splitNumber cs).digits).isSome = true

variable {ρ : Type} [Scalar ρ]

/-- The value of the characters of a number. -/
def numberValue? (cs : List Char) : Option ρ :=
  (mantissa? (splitNumber cs).digits).map (· * Suffix.scale (splitNumber cs).suffix)

/-- A number for the lexer has a value. -/
theorem IsNumber.value {cs : List Char} (h : IsNumber cs) : ∃ x : ρ, numberValue? cs = some x := by
  obtain ⟨_, _, -, -, -, hread⟩ := h
  obtain ⟨d, hd⟩ := Option.isSome_iff_exists.mp hread
  simp [numberValue?, mantissa?, hd]

/-- A word before a delimited text is cut off. -/
theorem cut_word {c : Char} {cs rest : List Char} (hword : IsWord (c :: cs))
    (hrest : Delimited rest) (offset : Nat) :
    (cut offset c (cs ++ rest) : Except ParseError (Cut ρ)) = .ok ⟨.identifier, c :: cs, rest⟩ := by
  obtain ⟨_, _, ⟨rfl, rfl⟩, hstart, hcs⟩ := hword
  have hrange := startsIdentifier_range hstart
  have hnumber : ¬startsNumber c (cs ++ rest) = true := fun h => by
    have := startsNumber_range h
    omega
  rw [cut, if_neg hnumber, if_pos hstart,
    takeWhile_append_of_startsNot hcs hrest.continuesIdentifier,
    dropWhile_append_of_startsNot hcs hrest.continuesIdentifier]

/-- A number before a delimited text is cut off. -/
theorem cut_number {c : Char} {cs rest : List Char} {x : ρ} (hnumber : IsNumber (c :: cs))
    (hx : numberValue? (c :: cs) = some x) (hrest : Delimited rest) (offset : Nat) :
    (cut offset c (cs ++ rest) : Except ParseError (Cut ρ)) = .ok ⟨.number x, c :: cs, rest⟩ := by
  obtain ⟨_, _, ⟨rfl, rfl⟩, hstart, hnil, -⟩ := hnumber
  have hparts := splitNumber_append (c :: cs)
  rw [hnil, List.append_nil] at hparts
  have hsplit := splitNumber_again (c :: cs) hrest
  rw [hparts, List.cons_append] at hsplit
  simp only [numberValue?, Option.map_eq_some_iff] at hx
  obtain ⟨m, hm, rfl⟩ := hx
  rw [cut, if_pos (startsNumber_append hstart rest)]
  simp only [hsplit, hm, hparts]

end Lexer
end CircuitExpr
