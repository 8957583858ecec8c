/-
# Blanks between tokens are of no account

Each token is the longest that stands where it does, and before a blank a token ends where it
ends by itself.  So the characters of the tokens of a text, written one after the other with
blanks between them, are the same tokens again: of the same kinds and with the same
characters, in the same order.  They stand at other places, which the parser does not look at,
so that what comes out is the same tree, or an error at the same token.

Tokens at other places are numbered (`numbered`): the two texts have the numbered tokens in
common, and each puts the numbers at places of its own (`Tokens.place`).
-/

import Mathlib
import CircuitExpr.Proofs.LongestTokens
import CircuitExpr.Proofs.MovedTokens

namespace CircuitExpr
namespace Lexer

/-! ### Words with blanks between them -/

/-- The words one after the other, with blanks before and after each of them.  Only at the ends
of the text the blanks may be none. -/
inductive Spaced : List String → List Char → Prop
  /-- No word. -/
  | blanks {bs} : (∀ b ∈ bs, Text.isBlank b = true) → Spaced [] bs
  /-- A word.  After it the text ends, or a blank comes. -/
  | word {bs w ws rest} : (∀ b ∈ bs, Text.isBlank b = true) → Apart rest → Spaced ws rest →
    Spaced (w :: ws) (bs ++ (w.toList ++ rest))

/-- More blanks may stand before the first word. -/
theorem Spaced.after {ws : List String} {cs bs : List Char}
    (hbs : ∀ b ∈ bs, Text.isBlank b = true) (h : Spaced ws cs) : Spaced ws (bs ++ cs) := by
  cases h with
  | blanks hbs' => exact .blanks (List.forall_mem_append.mpr ⟨hbs, hbs'⟩)
  | word hbs' hrest h =>
    rw [← List.append_assoc]
    exact .word (List.forall_mem_append.mpr ⟨hbs, hbs'⟩) hrest h

/-- Any blanks may stand between the words. -/
theorem spaced_intercalate {gap : String} (hne : gap ≠ "")
    (hgap : ∀ b ∈ gap.toList, Text.isBlank b = true) (ws : List String) :
    Spaced ws (gap.intercalate ws).toList := by
  induction ws with
  | nil => exact .blanks (List.forall_mem_nil _)
  | cons w ws ih =>
    cases ws with
    | nil =>
      have h : Spaced [w] ([] ++ (w.toList ++ [])) :=
        .word (List.forall_mem_nil _) apart_nil (.blanks (List.forall_mem_nil _))
      simpa using h
    | cons w' ws =>
      obtain ⟨b, bs, hcons⟩ := List.exists_cons_of_ne_nil (mt String.toList_eq_nil_iff.mp hne)
      have hapart : Apart (gap.toList ++ (gap.intercalate (w' :: ws)).toList) := by
        rw [hcons]
        exact apart_cons (hgap b (hcons ▸ List.mem_cons_self))
      have h := Spaced.word (w := w) (List.forall_mem_nil _) hapart (ih.after hgap)
      simpa using h

/-! ### Scanning such a text -/

variable {ρ : Type} [Scalar ρ]

/-- Blanks are passed over. -/
theorem scanFrom_blanks {bs : List Char} (hbs : ∀ b ∈ bs, Text.isBlank b = true) (offset : Nat)
    (cs : List Char) :
    (scanFrom offset (bs ++ cs) : Scan ρ) = scanFrom (offset + utf8Length bs) cs := by
  induction bs generalizing offset with
  | nil => rfl
  | cons b bs ih =>
    rw [List.forall_mem_cons] at hbs
    rw [List.cons_append, scanFrom_blank hbs.1, ih hbs.2, utf8Length, Nat.add_assoc]

end Lexer

variable {ρ : Type}

/-- What a token is and its characters. -/
def Token.spelling (t : Token ρ) : Token.Kind ρ × String := (t.kind, t.lexeme)

namespace Lexer

variable [Scalar ρ]

/-- **Tokens written with blanks between them are scanned again,** at other places. -/
theorem scanFrom_spaced {ts : List (Token ρ)} {cs : List Char}
    (hspells : ∀ t ∈ ts, Spells t.kind t.lexeme.toList) (h : Spaced (ts.map Token.lexeme) cs)
    (offset : Nat) :
    ∃ ts' stop, (scanFrom offset cs : Scan ρ) = ⟨ts', .ok stop⟩ ∧
      ts'.map Token.spelling = ts.map Token.spelling := by
  generalize hws : ts.map Token.lexeme = ws at h
  induction h generalizing ts offset with
  | @blanks bs hbs =>
    obtain rfl := List.map_eq_nil_iff.mp hws
    refine ⟨[], offset + utf8Length bs, ?_, rfl⟩
    have hscan := scanFrom_blanks (ρ := ρ) hbs offset []
    rwa [List.append_nil, scanFrom_nil] at hscan
  | @word bs w ws rest hbs hrest _ ih =>
    obtain ⟨t, ts, rfl, rfl, hmap⟩ := List.map_eq_cons_iff.mp hws
    rw [List.forall_mem_cons] at hspells
    obtain ⟨ht, hts⟩ := hspells
    obtain ⟨c, more, hcons, hc⟩ := ht.exists_cons
    rw [hcons] at ht
    have hcut := cut_of_spells ht hrest (offset + utf8Length bs)
    obtain ⟨ts', stop, hscan, hspelling⟩ :=
      ih hts (offset + utf8Length bs + utf8Length (c :: more)) hmap
    refine ⟨⟨t.kind, t.lexeme, offset + utf8Length bs⟩ :: ts', stop, ?_, ?_⟩
    · rw [scanFrom_blanks hbs, hcons, List.cons_append, scanFrom_cut hc hcut, hscan, ← hcons,
        String.ofList_toList]
      rfl
    · rw [List.map_cons, List.map_cons, hspelling]
      rfl

/-- A text that consists of tokens is scanned to its end. -/
theorem scan_of_ofText {text : String} {ts : Tokens ρ} (h : Tokens.ofText text = .ok ts) :
    (scan text : Scan ρ) = ⟨ts.tokens, .ok ts.stop⟩ := by
  simp only [Tokens.ofText] at h
  split at h
  · rename_i stop hstop
    cases h
    rw [← hstop]
  · cases h

/-- The tokens of a text are spelled as they are, and tile it. -/
theorem tiles_of_ofText {text : String} {ts : Tokens ρ} (h : Tokens.ofText text = .ok ts) :
    Tiles 0 ts.tokens text.toList := by
  have hending : Ending 0 text.toList (scan text : Scan ρ) := scanFrom_ending 0 text.toList
  rw [scan_of_ofText h] at hending
  cases hending with
  | all _ htiles => exact htiles
  | upTo _ _ _ _ herror => cases herror

end Lexer

/-! ### Numbered tokens -/

/-- Where the token with the given number stands; the end of the text for other numbers. -/
def Tokens.place (ts : Tokens ρ) (i : Nat) : Nat := (ts.tokens[i]?.map Token.offset).getD ts.stop

/-- Tokens that stand at their numbers. -/
def numbered (spellings : List (Token.Kind ρ × String)) : List (Token ρ) :=
  spellings.mapIdx fun i s => ⟨s.1, s.2, i⟩

/-- Each token stands at the place of its number. -/
theorem map_move_numbered (ts : Tokens ρ) :
    (numbered (ts.tokens.map Token.spelling)).map (Token.move ts.place) = ts.tokens := by
  refine List.ext_getElem? fun i => ?_
  rw [numbered, List.getElem?_map, List.getElem?_mapIdx, List.getElem?_map]
  cases hi : ts.tokens[i]? with
  | none => rfl
  | some t =>
    simp only [Option.map_some, Token.move, Token.spelling, Tokens.place, hi, Option.getD_some]

/-- The text ends at the place of the number that is one too large. -/
theorem place_length (ts : Tokens ρ) : ts.place ts.tokens.length = ts.stop := by
  rw [Tokens.place, List.getElem?_length]
  rfl

/-- **A text is parsed as its tokens would be at their numbers,** but for the places of errors. -/
theorem parse_eq_numbered [Scalar ρ] (constant? : String → Option ρ) {text : String}
    {ts : Tokens ρ} (h : Tokens.ofText text = .ok ts) :
    Expr.parse constant? text =
      (Expr.Parser.whole ⟨constant?, (ts.tokens.map Token.spelling).length⟩
        (numbered (ts.tokens.map Token.spelling))).mapError (ParseError.move ts.place) := by
  rw [← Expr.Parser.whole_move, map_move_numbered, Expr.Parser.Context.move, List.length_map,
    place_length]
  simp only [Expr.parse, h]

/-! ### Longest tokens, however spaced -/

namespace Lexer

variable [Scalar ρ]

/-- The token stands in the text at its offset, and no longer prefix of the text from there on
is one token by itself. -/
def IsLongest (text : String) (t : Token ρ) : Prop :=
  IsToken t.kind t.lexeme ∧ ∃ before after : String, text = before ++ (t.lexeme ++ after) ∧
    t.offset = before.utf8ByteSize ∧ ∀ (kind : Token.Kind ρ) (lexeme rest : String),
      t.lexeme ++ after = lexeme ++ rest → IsToken kind lexeme → lexeme.length ≤ t.lexeme.length

/-- **Each token of a text is the longest where it stands.** -/
theorem isLongest_of_ofText {text : String} {ts : Tokens ρ} (h : Tokens.ofText text = .ok ts) :
    ∀ t ∈ ts.tokens, IsLongest text t := by
  intro t ht
  have hmem : t ∈ (scanFrom 0 text.toList : Scan ρ).tokens := by
    have hscan := scan_of_ofText h
    rw [scan] at hscan
    rwa [hscan]
  obtain ⟨before, after, htext, hoffset, hspells, hlongest⟩ := longest_of_mem_scanFrom 0 _ t hmem
  refine ⟨isToken_iff.mpr hspells, String.ofList before, String.ofList after, ?_, ?_, ?_⟩
  · rw [← String.toList_inj, htext]
    simp
  · rw [hoffset, Nat.zero_add, utf8Length_eq]
  · intro kind lexeme rest heq htoken
    have hprefix : lexeme.toList <+: t.lexeme.toList ++ after := by
      refine ⟨rest.toList, ?_⟩
      rw [← String.toList_append, ← heq, String.toList_append, String.toList_ofList]
    exact hlongest kind _ (isToken_iff.mp htoken) hprefix

/-- The number is read as digits and letters, in one way only: what the digits are read as
times the scale of the letters. -/
def IsScaled (lexeme : List Char) (x : ρ) : Prop :=
  ∃ digits letters d, lexeme = digits ++ letters ∧ IsMantissa digits ∧
    (∀ c ∈ letters, Text.isAlphabetic c = true) ∧ Decimal.read? digits = some d ∧
    x = Scalar.ofDecimal d.significand d.exponent * Suffix.scale letters ∧
    ∀ digits' letters', lexeme = digits' ++ letters' → IsMantissa digits' →
      (∀ c ∈ letters', Text.isAlphabetic c = true) → digits' = digits ∧ letters' = letters

/-- What is spelled as a number is digits with a scale. -/
theorem Spells.isScaled {lexeme : List Char} {x : ρ} (h : Spells (.number x) lexeme) :
    IsScaled lexeme x := by
  cases h with
  | @number digits letters d hdigits hletters hread =>
    exact ⟨digits, letters, d, rfl, hdigits, hletters, hread, rfl,
      fun _ _ heq hdigits' hletters' => hdigits'.unique hdigits hletters' hletters heq.symm⟩

/-- **Tokens are the longest, so blanks between them are of no account.**  In a text that
consists of tokens, these tile the text, and each is the longest prefix of the text from its
place on that is one token by itself.  A text is one token if it is a word, a symbol of one or
two characters, or a number: digits with a fraction or without, or a fraction with a digit, an
exponent or nothing, and letters.  Digits and letters can be told apart in one way only, and the
value of the number is the one that the digits are read as times the scale of the letters.

The characters of the tokens, written with blanks between them, are tokens of the same kinds
with the same characters.  And whatever constants have a name, the two texts have an outcome in
common, a tree or an error that counts tokens, and what each is parsed as is this outcome, with
the error at the place that the token has in the text. -/
theorem tokens_longest_and_respaced {text : String} {ts : Tokens ρ}
    (h : Tokens.ofText text = .ok ts) :
    (∀ (kind : Token.Kind ρ) (lexeme : String), IsToken kind lexeme ↔ Spells kind lexeme.toList) ∧
    Tiles 0 ts.tokens text.toList ∧ (∀ t ∈ ts.tokens, IsLongest text t) ∧
    (∀ t ∈ ts.tokens, ∀ x, t.kind = .number x → IsScaled t.lexeme.toList x) ∧
    ∀ text' : String, Spaced (ts.tokens.map Token.lexeme) text'.toList →
      ∃ ts' : Tokens ρ, Tokens.ofText text' = .ok ts' ∧
        ts'.tokens.map Token.spelling = ts.tokens.map Token.spelling ∧
        ∀ constant? : String → Option ρ, ∃ outcome : Except ParseError (Expr ρ),
          Expr.parse constant? text = outcome.mapError (ParseError.move ts.place) ∧
          Expr.parse constant? text' = outcome.mapError (ParseError.move ts'.place) := by
  have htiles := tiles_of_ofText h
  refine ⟨fun _ _ => isToken_iff, htiles, isLongest_of_ofText h, fun t ht x hx => ?_,
    fun text' hspaced => ?_⟩
  · have hspells := htiles.spells t ht
    rw [hx] at hspells
    exact hspells.isScaled
  · obtain ⟨tokens', stop, hscan, hspelling⟩ := scanFrom_spaced htiles.spells hspaced 0
    have hts' : Tokens.ofText text' = .ok (⟨tokens', stop⟩ : Tokens ρ) := by
      rw [Tokens.ofText, scan, hscan]
    refine ⟨⟨tokens', stop⟩, hts', hspelling, fun constant? => ?_⟩
    refine ⟨_, parse_eq_numbered constant? h, ?_⟩
    rw [parse_eq_numbered constant? hts', hspelling]

/-- A sum without blanks, in which the letter before the sign is not the mark of an exponent. -/
def markedSum : String := "2e+x"

/-- Its tokens. -/
def markedSumTokens : List (Token Double) :=
  [⟨.number (Scalar.ofDecimal 2 0 * Suffix.scale ['e']), "2e", 0⟩, ⟨.symbol .plus, "+", 2⟩,
    ⟨.identifier, "x", 3⟩]

/-- The text without its blanks has these tokens. -/
theorem ofText_markedSum :
    (Tokens.ofText markedSum : Except ParseError (Tokens Double)) = .ok ⟨markedSumTokens, 4⟩ := by
  have hnumber : cut 0 '2' ['e', '+', 'x'] =
      .ok (⟨.number (Scalar.ofDecimal 2 0 * Suffix.scale ['e']), ['2', 'e'], ['+', 'x']⟩ :
        Cut Double) := rfl
  have hplus : cut 2 '+' ['x'] = .ok (⟨.symbol .plus, ['+'], ['x']⟩ : Cut Double) := rfl
  have hword : cut 3 'x' [] = .ok (⟨.identifier, ['x'], []⟩ : Cut Double) := rfl
  have hscan : (scan markedSum : Scan Double) = ⟨markedSumTokens, .ok 4⟩ := by
    rw [scan, show markedSum.toList = ['2', 'e', '+', 'x'] by decide,
      scanFrom_cut (by decide) hnumber]
    show ((scanFrom 2 ['+', 'x'] : Scan Double).prepend _) = _
    rw [scanFrom_cut (by decide) hplus]
    show (((scanFrom 3 ['x'] : Scan Double).prepend _).prepend _) = _
    rw [scanFrom_cut (by decide) hword, scanFrom_nil]
    rfl
  rw [Tokens.ofText, hscan]

/-- With blanks it is the same sum: no blank is needed for the sign to be one. -/
theorem markedSum_respaced :
    (Tokens.ofText markedSum : Except ParseError (Tokens Double)) = .ok ⟨markedSumTokens, 4⟩ ∧
    ∃ ts' : Tokens Double, Tokens.ofText "2e + x" = .ok ts' ∧
      ts'.tokens.map Token.spelling = markedSumTokens.map Token.spelling ∧
      ∀ constant? : String → Option Double, ∃ outcome : Except ParseError (Expr Double),
        Expr.parse constant? markedSum =
          outcome.mapError (ParseError.move (Tokens.place ⟨markedSumTokens, 4⟩)) ∧
        Expr.parse constant? "2e + x" = outcome.mapError (ParseError.move ts'.place) := by
  have htext : " ".intercalate (markedSumTokens.map Token.lexeme) = "2e + x" := by decide
  have hgap : ∀ b ∈ " ".toList, Text.isBlank b = true := by
    rw [show " ".toList = [' '] by decide]
    exact List.forall_mem_singleton.mpr (by decide)
  have hspaced : Spaced (markedSumTokens.map Token.lexeme) "2e + x".toList := by
    rw [← htext]
    exact spaced_intercalate (by decide) hgap _
  have h := tokens_longest_and_respaced ofText_markedSum
  exact ⟨ofText_markedSum, h.2.2.2.2 "2e + x" hspaced⟩

end Lexer
end CircuitExpr
