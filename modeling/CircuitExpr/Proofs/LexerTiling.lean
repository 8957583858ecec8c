/-
# Tokens tile their text

A text is blanks, the characters of a token, blanks, and so on up to blanks at the end: its
tokens *tile* it (`Tiles`).  Which characters are a token is said without the lexer
(`Spells`): a word, a number, or a symbol of one or two characters, where a number is

> digits with a fraction or without, or a fraction with a digit, then an exponent or nothing,
> then letters.

The lexer finds the tiles, up to the end of the text or to a character that no token starts
with (`tokens_tile_text`).  There is no third ending: the reader of decimal numbers accepts all
that the lexer takes for the digits of a number (`IsMantissa.exists_read`,
`isMantissa_splitNumber`).
-/

import Mathlib
import CircuitExpr.Double
import CircuitExpr.Proofs.Scanning

namespace CircuitExpr

/-! ### Symbols as they are written -/

namespace Symbol

/-- The characters of a symbol. -/
def spelling : Symbol → List Char
  | plus => ['+']
  | minus => ['-']
  | star => ['*']
  | slash => ['/']
  | percent => ['%']
  | caret => ['^']
  | bang => ['!']
  | equalEqual => ['=', '=']
  | bangEqual => ['!', '=']
  | less => ['<']
  | lessEqual => ['<', '=']
  | greater => ['>']
  | greaterEqual => ['>', '=']
  | andAnd => ['&', '&']
  | orOr => ['|', '|']
  | leftParen => ['(']
  | rightParen => [')']
  | leftBracket => ['[']
  | rightBracket => [']']
  | comma => [',']
  | colon => [':']
  | question => ['?']
  | atSign => ['@']

/-- **The lexer's symbols of one character are those that are written so.** -/
theorem ofChar?_eq_some {c : Char} {s : Symbol} : ofChar? c = some s ↔ s.spelling = [c] := by
  constructor
  · intro h
    unfold ofChar? at h
    split at h <;> cases h <;> rfl
  · intro h
    cases s <;> cases h <;> rfl

/-- **The lexer's symbols of two characters are those that are written so.** -/
theorem ofPair?_eq_some {c d : Char} {s : Symbol} :
    ofPair? c d = some s ↔ s.spelling = [c, d] := by
  constructor
  · intro h
    unfold ofPair? at h
    split at h <;> cases h <;> rfl
  · intro h
    cases s <;> cases h <;> rfl

end Symbol

namespace Lexer

/-! ### Digits of a number -/

/-- Digits with a fraction or without, or a fraction with a digit, then an exponent or
nothing. -/
def IsMantissa (cs : List Char) : Prop :=
  ∃ whole point exponent, cs = whole ++ point ++ exponent ∧ (∀ c ∈ whole, c.isDigit = true) ∧
    IsPoint point ∧ IsExponent exponent ∧ ∃ c ∈ whole ++ point, c.isDigit = true

/-- Digits are read as a natural number. -/
theorem exists_readNat {ds : List Char} (hne : ds ≠ []) (hdigits : ∀ d ∈ ds, d.isDigit = true) :
    ∃ n, Decimal.readNat? ds = some n := by
  have hempty : ds.isEmpty = false := List.isEmpty_eq_false_iff.mpr hne
  have hall : ds.all Char.isDigit = true := List.all_eq_true.mpr hdigits
  exact ⟨_, by rw [Decimal.readNat?, hempty, hall]; rfl⟩

/-- An exponent is read as an integer. -/
theorem exists_readExponent {exponent : List Char} (h : IsExponent exponent) :
    ∃ e, Decimal.readExponent? exponent = some e := by
  cases h with
  | nil => exact ⟨0, rfl⟩
  | digits mark sign ds hmark hsign hne hdigits =>
    obtain ⟨n, hn⟩ := exists_readNat hne hdigits
    simp only [Decimal.readExponent?, hmark, if_true]
    cases hsign with
    | plus => simp [hn]
    | minus => simp [hn]
    | nil =>
      -- The first digit is no sign.
      have hsign : StartsNot (fun c => c == '+' || c == '-') (ds ++ []) :=
        startsNot_sign_of_digits hne hdigits
      rw [List.append_nil] at hsign
      rw [List.nil_append]
      split
      · cases startsNot_cons.mp hsign
      · cases startsNot_cons.mp hsign
      · simp [hn]

/-- The digits after the point are split off. -/
theorem splitFraction_append {point exponent : List Char} (hpoint : IsPoint point)
    (hexponent : IsExponent exponent) :
    Decimal.splitFraction (point ++ exponent) = (point.tail, exponent) := by
  have hdigit : StartsNot Char.isDigit exponent := hexponent.startsNot (by decide) (by decide)
  cases hpoint with
  | nil =>
    have hdot : StartsNot (· == '.') exponent := hexponent.startsNot (by decide) (by decide)
    rw [List.nil_append, Decimal.splitFraction]
    · rfl
    · rintro cs rfl
      cases startsNot_cons.mp hdot
  | digits ds hds =>
    simp [Decimal.splitFraction, takeWhile_append_of_startsNot hds hdigit,
      dropWhile_append_of_startsNot hds hdigit]

/-- **The reader of decimal numbers accepts all mantissas.** -/
theorem IsMantissa.exists_read {cs : List Char} (h : IsMantissa cs) :
    ∃ d, Decimal.read? cs = some d := by
  obtain ⟨whole, point, exponent, rfl, hwhole, hpoint, hexponent, c, hc, hdigit⟩ := h
  obtain ⟨e, he⟩ := exists_readExponent hexponent
  have hstarts : StartsNot Char.isDigit (point ++ exponent) :=
    hpoint.isDigit.append (hexponent.startsNot (by decide) (by decide))
  have hsome : (whole.isEmpty && point.tail.isEmpty) = false := by
    rw [Bool.and_eq_false_iff, List.isEmpty_eq_false_iff, List.isEmpty_eq_false_iff]
    rcases List.mem_append.mp hc with hc | hc
    · exact .inl (List.ne_nil_of_mem hc)
    · cases hpoint with
      | nil => cases hc
      | digits ds hds =>
        rcases List.mem_cons.mp hc with rfl | hc
        · cases hdigit
        · exact .inr (List.ne_nil_of_mem hc)
  simp only [Decimal.read?, List.append_assoc, takeWhile_append_of_startsNot hwhole hstarts,
    dropWhile_append_of_startsNot hwhole hstarts, splitFraction_append hpoint hexponent, hsome,
    he, Bool.false_eq_true, if_false, Option.map_some]
  exact ⟨_, rfl⟩

/-- What the lexer takes for the digits of a number is a mantissa. -/
theorem isMantissa_splitNumber {c : Char} {cs : List Char} (h : startsNumber c cs = true) :
    IsMantissa (splitNumber (c :: cs)).digits := by
  refine ⟨_, _, _, rfl, fun _ hd => of_mem_takeWhile hd, splitPoint_isPoint _,
    splitExponent_isExponent _, ?_⟩
  simp only [startsNumber, Bool.or_eq_true, Bool.and_eq_true, beq_iff_eq] at h
  rcases h with h | ⟨rfl, h⟩
  · exact ⟨c, List.mem_append_left _ (by simp [h]), h⟩
  · cases cs with
    | nil => cases h
    | cons d cs =>
      have hd : d.isDigit = true := h
      have hdot : Char.isDigit '.' = false := by decide
      exact ⟨d, by simp [hdot, hd], hd⟩

/-! ### The characters of a token -/

variable {ρ : Type} [Scalar ρ]

/-- The characters are a token of this kind. -/
inductive Spells : Token.Kind ρ → List Char → Prop
  /-- A letter or underscore, then letters, underscores and digits. -/
  | word {c cs} : (c.isAlpha = true ∨ c = '_') → (∀ d ∈ cs, d.isAlphanum = true ∨ d = '_') →
    Spells .identifier (c :: cs)
  /-- A mantissa and letters.  The letters scale the number that the mantissa is read as. -/
  | number {digits letters d} : IsMantissa digits →
    (∀ c ∈ letters, Text.isAlphabetic c = true) → Decimal.read? digits = some d →
    Spells (.number (Scalar.ofDecimal d.significand d.exponent * Suffix.scale letters))
      (digits ++ letters)
  /-- The character of a symbol. -/
  | mark {c s} : s.spelling = [c] → Spells (.symbol s) [c]
  /-- The two characters of a symbol. -/
  | pair {c d s} : s.spelling = [c, d] → Spells (.symbol s) [c, d]

/-- The lexer's test of a first character is that of a word. -/
theorem startsIdentifier_iff {c : Char} :
    startsIdentifier c = true ↔ c.isAlpha = true ∨ c = '_' := by
  rw [startsIdentifier, Bool.or_eq_true, beq_iff_eq]

/-- The lexer's test of a later character is that of a word. -/
theorem continuesIdentifier_iff {c : Char} :
    continuesIdentifier c = true ↔ c.isAlphanum = true ∨ c = '_' := by
  rw [continuesIdentifier, Bool.or_eq_true, beq_iff_eq]

omit [Scalar ρ] in
/-- A mantissa starts as a number does. -/
theorem IsMantissa.startsNumber {digits : List Char} (h : IsMantissa digits) (rest : List Char) :
    ∃ c cs, digits ++ rest = c :: cs ∧ Lexer.startsNumber c cs = true := by
  obtain ⟨whole, point, exponent, rfl, hwhole, hpoint, -, c, hc, hdigit⟩ := h
  cases whole with
  | cons c whole =>
    refine ⟨c, whole ++ (point ++ (exponent ++ rest)), by simp, ?_⟩
    simp [Lexer.startsNumber, hwhole c List.mem_cons_self]
  | nil =>
    cases hpoint with
    | nil => cases hc
    | digits ds hds =>
      cases ds with
      | nil =>
        obtain rfl := List.mem_singleton.mp hc
        cases hdigit
      | cons d ds =>
        refine ⟨'.', d :: (ds ++ (exponent ++ rest)), by simp, ?_⟩
        simp [Lexer.startsNumber, hds d List.mem_cons_self]

/-- **What the lexer cuts off is a token,** with the characters that it was cut off from. -/
theorem spells_of_cut {offset : Nat} {c : Char} {cs : List Char} {t : Cut ρ}
    (h : cut offset c cs = .ok t) :
    Spells t.kind t.lexeme ∧ (∃ more, t.lexeme = c :: more) ∧ t.lexeme ++ t.rest = c :: cs := by
  unfold cut at h
  split at h
  · rename_i hstart
    dsimp only at h
    split at h
    · rename_i x hx
      cases h
      simp only [mantissa?, Option.map_eq_some_iff] at hx
      obtain ⟨d, hd, rfl⟩ := hx
      obtain ⟨more, hmore, -⟩ := startsNumber_splitNumber hstart
      exact ⟨.number (isMantissa_splitNumber hstart) (fun _ hc => of_mem_takeWhile hc) hd,
        ⟨more, hmore⟩, splitNumber_append _⟩
    · cases h
  · split at h
    · rename_i hstart
      cases h
      exact ⟨.word (startsIdentifier_iff.mp hstart) fun _ hd =>
          continuesIdentifier_iff.mp (of_mem_takeWhile hd), ⟨_, rfl⟩, by
        rw [List.cons_append, List.takeWhile_append_dropWhile]⟩
    · split at h
      · rename_i s lexeme rest hcut
        cases h
        obtain ⟨d, rfl, rfl, hs⟩ | ⟨rfl, rfl, hs⟩ := cutSymbol?_cases hcut
        · exact ⟨.pair (Symbol.ofPair?_eq_some.mp hs), ⟨_, rfl⟩, rfl⟩
        · exact ⟨.mark (Symbol.ofChar?_eq_some.mp hs), ⟨_, rfl⟩, rfl⟩
      · cases h

variable (ρ) in
/-- No token starts the text. -/
def StartsNoToken (text : List Char) : Prop :=
  ∀ (kind : Token.Kind ρ) (lexeme : List Char), lexeme <+: text → ¬Spells kind lexeme

/-- **Where the lexer cuts nothing off no token starts,** and it says so of the character. -/
theorem startsNoToken_of_cut {offset : Nat} {c : Char} {cs : List Char} {e : ParseError}
    (h : (cut offset c cs : Except ParseError (Cut ρ)) = .error e) :
    e = .unexpectedCharacter c offset ∧ StartsNoToken ρ (c :: cs) := by
  unfold cut at h
  split at h
  · rename_i hstart
    -- What was split off as a number can be read, so this branch does not fail.
    obtain ⟨d, hd⟩ := (isMantissa_splitNumber hstart).exists_read
    dsimp only at h
    rw [mantissa?, hd] at h
    cases h
  · rename_i hnumber
    split at h
    · cases h
    · rename_i hword
      split at h
      · cases h
      · rename_i hsymbol
        cases h
        refine ⟨rfl, ?_⟩
        simp only [cutSymbol?, Option.or_eq_none_iff, Option.map_eq_none_iff] at hsymbol
        rintro _ _ ⟨rest, hrest⟩ hspells
        -- A token that started here would have been cut off by the branch for its kind.
        cases hspells with
        | word hstart =>
          obtain ⟨rfl, -⟩ := List.cons.inj hrest
          exact hword (startsIdentifier_iff.mpr hstart)
        | number hmantissa =>
          obtain ⟨c', cs', hc', hstart⟩ := hmantissa.startsNumber (_ ++ rest)
          rw [List.append_assoc, hc'] at hrest
          obtain ⟨rfl, rfl⟩ := List.cons.inj hrest
          exact hnumber hstart
        | mark hs =>
          obtain ⟨rfl, -⟩ := List.cons.inj hrest
          rw [← Symbol.ofChar?_eq_some, hsymbol.2] at hs
          cases hs
        | pair hs =>
          obtain ⟨rfl, rfl⟩ := List.cons.inj hrest
          have hnone := Option.map_eq_none_iff.mp hsymbol.1
          rw [← Symbol.ofPair?_eq_some, hnone] at hs
          cases hs

/-! ### Tilings -/

omit [Scalar ρ] in
/-- The lengths of two texts add up. -/
theorem utf8Length_append (cs ds : List Char) :
    utf8Length (cs ++ ds) = utf8Length cs + utf8Length ds := by
  induction cs with
  | nil => simp [utf8Length]
  | cons c cs ih => simp [utf8Length, ih, Nat.add_assoc]

omit [Scalar ρ] in
/-- The bytes of the characters are those of the text. -/
theorem utf8Length_eq (cs : List Char) : utf8Length cs = (String.ofList cs).utf8ByteSize := by
  induction cs with
  | nil => rfl
  | cons c cs ih =>
    rw [utf8Length, ih, String.ofList_cons, String.utf8ByteSize_append,
      String.utf8ByteSize_singleton]

/-- The characters, the first at `offset`, are blanks, a token, blanks, a token, and so on, and
blanks at the end. -/
inductive Tiles : Nat → List (Token ρ) → List Char → Prop
  /-- No token. -/
  | blanks (offset) {bs} : (∀ b ∈ bs, Text.isBlank b = true) → Tiles offset [] bs
  /-- A token with blanks before it. -/
  | token {offset bs t c more ts cs} : (∀ b ∈ bs, Text.isBlank b = true) →
    t.offset = offset + utf8Length bs → t.lexeme.toList = c :: more → Text.isBlank c = false →
    Spells t.kind t.lexeme.toList → Tiles (t.offset + utf8Length t.lexeme.toList) ts cs →
    Tiles offset (t :: ts) (bs ++ (t.lexeme.toList ++ cs))

/-- Each token of a tiling stands at its offset. -/
theorem Tiles.located {offset : Nat} {ts : List (Token ρ)} {cs : List Char}
    (h : Tiles offset ts cs) :
    ∀ t ∈ ts, t.lexeme.toList ≠ [] ∧ ∃ before after, cs = before ++ t.lexeme.toList ++ after ∧
      t.offset = offset + utf8Length before := by
  induction h with
  | blanks => exact List.forall_mem_nil _
  | @token offset bs t c more ts cs _ hoffset hlexeme _ _ _ ih =>
    rw [List.forall_mem_cons]
    refine ⟨⟨by simp [hlexeme], bs, cs, by rw [List.append_assoc], hoffset⟩, fun t' ht' => ?_⟩
    obtain ⟨hne, before, after, rfl, hbefore⟩ := ih t' ht'
    refine ⟨hne, bs ++ t.lexeme.toList ++ before, after, by simp, ?_⟩
    rw [hbefore, hoffset, utf8Length_append, utf8Length_append]
    omega

/-- How a scan ends: with a tiling of all characters, or of those before one that no token
starts with. -/
inductive Ending (offset : Nat) (cs : List Char) (s : Scan ρ) : Prop
  /-- All characters are tiled. -/
  | all : s.ending = .ok (offset + utf8Length cs) → Tiles offset s.tokens cs → Ending offset cs s
  /-- Up to a character they are. -/
  | upTo (before c after) : cs = before ++ c :: after →
    s.ending = .error (.unexpectedCharacter c (offset + utf8Length before)) →
    Tiles offset s.tokens before → Text.isBlank c = false → StartsNoToken ρ (c :: after) →
    Ending offset cs s

/-- One more token before what is tiled. -/
theorem Ending.prepend {offset : Nat} {bs : List Char} {t : Token ρ} {c : Char}
    {more cs : List Char} {s : Scan ρ} (hbs : ∀ b ∈ bs, Text.isBlank b = true)
    (hoffset : t.offset = offset + utf8Length bs) (hlexeme : t.lexeme.toList = c :: more)
    (hc : Text.isBlank c = false) (hspells : Spells t.kind t.lexeme.toList)
    (h : Ending (t.offset + utf8Length t.lexeme.toList) cs s) :
    Ending offset (bs ++ (t.lexeme.toList ++ cs)) (s.prepend [t]) := by
  have hlength (ds : List Char) : t.offset + utf8Length t.lexeme.toList + utf8Length ds =
      offset + utf8Length (bs ++ (t.lexeme.toList ++ ds)) := by
    rw [hoffset, utf8Length_append, utf8Length_append]
    omega
  cases h with
  | all hending htiles =>
    exact .all (hending.trans (by rw [hlength])) (.token hbs hoffset hlexeme hc hspells htiles)
  | upTo before d after hcs hending htiles hd hnone =>
    refine .upTo (bs ++ (t.lexeme.toList ++ before)) d after (by simp [hcs])
      (hending.trans (by rw [hlength])) (.token hbs hoffset hlexeme hc hspells htiles) hd hnone

/-- **The scan tiles the text** from any place on. -/
theorem scanFrom_ending (offset : Nat) (cs : List Char) :
    Ending offset cs (scanFrom offset cs : Scan ρ) := by
  refine scanFrom_induction (P := Ending) ?_ ?_ ?_ offset cs
  · exact fun offset bs hbs => .all rfl (.blanks offset hbs)
  · intro offset bs c cs e hbs hc he
    obtain ⟨rfl, hnone⟩ := startsNoToken_of_cut he
    exact .upTo bs c cs rfl rfl (.blanks offset hbs) hc hnone
  · intro offset bs c cs t s hbs hc ht hs
    obtain ⟨hspells, ⟨more, hmore⟩, happend⟩ := spells_of_cut ht
    have hlexeme : (String.ofList t.lexeme).toList = t.lexeme := String.toList_ofList
    rw [← hlexeme] at hspells hmore happend hs
    rw [← happend]
    exact Ending.prepend (t := ⟨t.kind, String.ofList t.lexeme, offset + utf8Length bs⟩) hbs rfl
      hmore hc hspells hs

/-- Each token of a scan stands at its offset. -/
theorem Ending.located {offset : Nat} {cs : List Char} {s : Scan ρ} (h : Ending offset cs s) :
    ∀ t ∈ s.tokens, t.lexeme.toList ≠ [] ∧ ∃ before after,
      cs = before ++ t.lexeme.toList ++ after ∧ t.offset = offset + utf8Length before := by
  cases h with
  | all _ htiles => exact htiles.located
  | upTo tiled c after hcs _ htiles _ _ =>
    intro t ht
    obtain ⟨hne, before, between, rfl, hbefore⟩ := htiles.located t ht
    exact ⟨hne, before, between ++ c :: after, by rw [hcs, List.append_assoc], hbefore⟩

/-- The tokens of a text end where its bytes end. -/
theorem stop_ofText {text : String} {ts : Tokens ρ} (h : Tokens.ofText text = .ok ts) :
    ts.stop = text.utf8ByteSize := by
  have hending : Ending 0 text.toList (scan text : Scan ρ) := scanFrom_ending 0 text.toList
  cases hending with
  | all hok htiles =>
    rw [Nat.zero_add, utf8Length_eq, String.ofList_toList] at hok
    rw [Tokens.ofText, hok] at h
    cases h
    rfl
  | upTo before c after hcs herror htiles hc hnone =>
    rw [Tokens.ofText, herror] at h
    cases h

/-- **Tokens tile their text.**  Either the whole text consists of blanks and the characters of
its tokens, and the end is where the bytes of the text end; or there is a character, no blank,
that no token starts with, the text before it is tiled by the tokens read so far, and the error
names the character and its place.  In both cases each token is found in the text at its
offset, as a whole. -/
theorem tokens_tile_text (text : String) :
    ((∃ ts : Tokens ρ, Tokens.ofText text = .ok ts ∧ ts.tokens = (scan text : Scan ρ).tokens ∧
        Tiles 0 ts.tokens text.toList ∧ ts.stop = text.utf8ByteSize) ∨
      ∃ (before : String) (c : Char) (after : String),
        text = before ++ String.singleton c ++ after ∧
        (Tokens.ofText text : Except ParseError (Tokens ρ)) =
          .error (.unexpectedCharacter c before.utf8ByteSize) ∧
        Tiles 0 (scan text : Scan ρ).tokens before.toList ∧ Text.isBlank c = false ∧
        StartsNoToken ρ (c :: after.toList)) ∧
    ∀ t ∈ (scan text : Scan ρ).tokens, t.lexeme ≠ "" ∧
      ∃ before after : String, text = before ++ t.lexeme ++ after ∧
        t.offset = before.utf8ByteSize := by
  have hending : Ending 0 text.toList (scan text : Scan ρ) := scanFrom_ending 0 text.toList
  constructor
  · cases hending with
    | all hok htiles =>
      rw [Nat.zero_add, utf8Length_eq, String.ofList_toList] at hok
      exact .inl ⟨⟨(scan text).tokens, text.utf8ByteSize⟩, by rw [Tokens.ofText, hok], rfl, htiles, rfl⟩
    | upTo before c after hcs herror htiles hc hnone =>
      rw [Nat.zero_add, utf8Length_eq] at herror
      refine .inr ⟨String.ofList before, c, String.ofList after, ?_, by rw [Tokens.ofText, herror],
        by rwa [String.toList_ofList], hc, by rwa [String.toList_ofList]⟩
      rw [← String.toList_inj, hcs]
      simp
  · intro t ht
    obtain ⟨hne, before, after, hcs, hoffset⟩ := hending.located t ht
    refine ⟨fun h => hne (by rw [h]; rfl), String.ofList before, String.ofList after, ?_, ?_⟩
    · rw [← String.toList_inj, hcs]
      simp
    · rw [hoffset, Nat.zero_add, utf8Length_eq]

/-- Two millionths, an unbreakable space, symbols of one character and of two around a word,
and an equals sign, which alone starts no token. -/
def loneEquals : String := "2µ\u00A0+x1<=(="

/-- The tokens before the equals sign.  The number takes three bytes and the space two. -/
def loneEqualsTokens : List (Token Double) := [
  ⟨.number (Scalar.ofDecimal 2 0 * Suffix.scale ['µ']), "2µ", 0⟩, ⟨.symbol .plus, "+", 5⟩,
  ⟨.identifier, "x1", 6⟩, ⟨.symbol .lessEqual, "<=", 8⟩, ⟨.symbol .leftParen, "(", 10⟩]

/-- The scan stops at the last equals sign. -/
theorem scan_loneEquals :
    (scan loneEquals : Scan Double) = ⟨loneEqualsTokens, .error (.unexpectedCharacter '=' 11)⟩ := by
  have htext : loneEquals.toList =
      ['2', 'µ', '\u00A0', '+', 'x', '1', '<', '=', '(', '='] := by decide
  have hsplit : splitNumber ['2', 'µ', '\u00A0', '+', 'x', '1', '<', '=', '(', '='] =
      ⟨['2'], ['µ'], ['\u00A0', '+', 'x', '1', '<', '=', '(', '=']⟩ := by
    have hmicro : Text.isAlphabetic 'µ' = true := by decide +kernel
    have hblank : Text.isAlphabetic '\u00A0' = false := by decide +kernel
    simp [splitNumber, span, splitPoint, splitExponent, hmicro, hblank]
  have hmantissa : (mantissa? ['2'] : Option Double) = some (Scalar.ofDecimal 2 0) := by
    rw [mantissa?, show Decimal.read? ['2'] = some ⟨2, 0⟩ by decide]
    rfl
  have hnumber : cut 0 '2' ['µ', '\u00A0', '+', 'x', '1', '<', '=', '(', '='] =
      .ok (⟨.number (Scalar.ofDecimal 2 0 * Suffix.scale ['µ']), ['2', 'µ'],
        ['\u00A0', '+', 'x', '1', '<', '=', '(', '=']⟩ : Cut Double) := by
    have hstart : startsNumber '2' ['µ', '\u00A0', '+', 'x', '1', '<', '=', '(', '='] = true := by
      decide
    simp only [cut, hstart, if_true, hsplit, hmantissa]
    rfl
  have hplus : cut 5 '+' ['x', '1', '<', '=', '(', '='] =
      .ok (⟨.symbol .plus, ['+'], ['x', '1', '<', '=', '(', '=']⟩ : Cut Double) := rfl
  have hword : cut 6 'x' ['1', '<', '=', '(', '='] =
      .ok (⟨.identifier, ['x', '1'], ['<', '=', '(', '=']⟩ : Cut Double) := rfl
  have hless : cut 8 '<' ['=', '(', '='] =
      .ok (⟨.symbol .lessEqual, ['<', '='], ['(', '=']⟩ : Cut Double) := rfl
  have hopen : cut 10 '(' ['='] = .ok (⟨.symbol .leftParen, ['('], ['=']⟩ : Cut Double) := rfl
  have hspace : (scanFrom 3 ['\u00A0', '+', 'x', '1', '<', '=', '(', '='] : Scan Double) =
      scanFrom 5 ['+', 'x', '1', '<', '=', '(', '='] :=
    scanFrom_blank (by decide) 3 _
  rw [scan, htext, scanFrom_cut (by decide) hnumber, show 0 + utf8Length ['2', 'µ'] = 3 by decide,
    hspace, scanFrom_cut (by decide) hplus, show 5 + utf8Length ['+'] = 6 by decide,
    scanFrom_cut (by decide) hword, show 6 + utf8Length ['x', '1'] = 8 by decide,
    scanFrom_cut (by decide) hless, show 8 + utf8Length ['<', '='] = 10 by decide,
    scanFrom_cut (by decide) hopen, scanFrom_eq]
  rfl

/-- The tokens before the equals sign are found at their offsets. -/
theorem loneEquals_tiled :
    (Tokens.ofText loneEquals : Except ParseError (Tokens Double)) =
      .error (.unexpectedCharacter '=' 11) ∧
    ∀ t ∈ loneEqualsTokens, t.lexeme ≠ "" ∧
      ∃ before after : String, loneEquals = before ++ t.lexeme ++ after ∧
        t.offset = before.utf8ByteSize := by
  have h := (tokens_tile_text (ρ := Double) loneEquals).2
  rw [scan_loneEquals] at h
  exact ⟨by rw [Tokens.ofText, scan_loneEquals], h⟩

end Lexer
end CircuitExpr
