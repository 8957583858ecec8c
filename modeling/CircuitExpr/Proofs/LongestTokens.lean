/-
# The lexer takes the longest token

Where several tokens could be cut off a text, a number from its digits alone or with what looks
like an exponent, a symbol of one character or of two, the lexer takes the longest
(`cut_longest`).  For numbers this goes by the stages of `splitNumber`: each of them takes at
least what any number at the front of the text has for it, since where that number goes on
with another part, the stage comes to its end there (`Reaches`).

Nothing of a token depends on what comes after a blank: before a text that is empty or starts
with a blank, `cut` takes all the characters of a token (`cut_of_spells`).  So the characters
of a token determine what it is, and a text is one token (`IsToken`) exactly if it is spelled
as one (`isToken_iff`).
-/

import Mathlib
import CircuitExpr.Proofs.LexerTiling

namespace CircuitExpr
namespace Lexer

/-! ### Stages that take enough -/

section Reaches

variable {f g : List Char → List Char} {p : Char → Bool} {cs run : List Char}

/-- At the front of a text that starts with `cs`, `f` drops these characters at least. -/
def Reaches (f : List Char → List Char) (cs : List Char) : Prop :=
  ∀ rest, (f (cs ++ rest)).length ≤ rest.length

/-- A run is dropped as far as it reaches. -/
theorem reaches_dropWhile (h : ∀ c ∈ cs, p c = true) : Reaches (List.dropWhile p) cs := by
  intro rest
  rw [List.dropWhile_append_of_pos h]
  exact (List.dropWhile_sublist p).length_le

/-- Behind a run of its class, `dropWhile` leaves what starts with another character. -/
theorem Reaches.after_run (hg : Reaches g cs) (hnil : Reaches g []) (hrun : ∀ c ∈ run, p c = true)
    (hcs : StartsNot p cs) : Reaches (fun text => g (text.dropWhile p)) (run ++ cs) := by
  intro rest
  dsimp only
  rw [List.append_assoc, List.dropWhile_append_of_pos hrun]
  cases cs with
  | nil => exact (hnil _).trans (List.dropWhile_sublist p).length_le
  | cons c cs =>
    rw [List.cons_append, List.dropWhile_cons_of_neg (by simp [startsNot_cons.mp hcs])]
    exact hg rest

/-- Splitting off a point with digits leaves no more than there was. -/
theorem splitPoint_rest_length (text : List Char) : (splitPoint text).2.length ≤ text.length := by
  have h := congrArg List.length (splitPoint_append text)
  rw [List.length_append] at h
  omega

/-- Splitting off an exponent leaves no more than there was. -/
theorem splitExponent_rest_length (text : List Char) :
    (splitExponent text).2.length ≤ text.length := by
  have h := congrArg List.length (splitExponent_append text)
  rw [List.length_append] at h
  omega

/-- Behind a point and its digits, `splitPoint` leaves what starts with neither. -/
theorem Reaches.after_point {point : List Char} (hg : Reaches g cs) (hnil : Reaches g [])
    (hpoint : IsPoint point) (hdigit : StartsNot Char.isDigit cs)
    (hdot : StartsNot (· == '.') cs) :
    Reaches (fun text => g (splitPoint text).2) (point ++ cs) := by
  cases hpoint with
  | digits ds hds => exact fun rest => hg.after_run hnil hds hdigit rest
  | nil =>
    intro rest
    cases cs with
    | nil => exact (hnil _).trans (splitPoint_rest_length rest)
    | cons c cs =>
      have hsplit : splitPoint ([] ++ c :: (cs ++ rest)) = ([], c :: (cs ++ rest)) :=
        splitPoint_append_of .nil (startsNot_cons.mpr (hdigit c rfl))
          (startsNot_cons.mpr (hdot c rfl))
      rw [List.nil_append] at hsplit
      dsimp only
      rw [List.nil_append, List.cons_append, hsplit]
      exact hg rest

/-- Two letters are not the beginning of an exponent. -/
theorem splitExponent_of_letter {mark c : Char} (hc : Text.isAlphabetic c = true)
    (text : List Char) : splitExponent (mark :: c :: text) = ([], mark :: c :: text) := by
  have hsign : splitSign ([] ++ c :: text) = ([], c :: text) := by
    refine splitSign_append_of .nil (startsNot_cons.mpr ?_)
    rw [Bool.or_eq_false_iff, beq_eq_false_iff_ne, beq_eq_false_iff_ne]
    exact ⟨ne_of_isAlphabetic hc (by decide) (by decide),
      ne_of_isAlphabetic hc (by decide) (by decide)⟩
  rw [List.nil_append] at hsign
  simp [splitExponent, hsign, not_isDigit_of_isAlphabetic hc]

/-- An exponent and letters are dropped at least, and more if the letters are the mark of an
exponent that follows. -/
theorem reaches_exponent {exponent letters : List Char} (hexponent : IsExponent exponent)
    (hletters : ∀ c ∈ letters, Text.isAlphabetic c = true) :
    Reaches (fun text => (splitExponent text).2.dropWhile Text.isAlphabetic)
      (exponent ++ letters) := by
  have hdrop : Reaches (List.dropWhile Text.isAlphabetic) letters := reaches_dropWhile hletters
  have hnil : Reaches (List.dropWhile Text.isAlphabetic) [] := reaches_dropWhile nofun
  cases hexponent with
  | nil =>
    intro rest
    cases letters with
    | nil => exact (hnil _).trans (splitExponent_rest_length rest)
    | cons mark letters =>
      cases letters with
      | cons c letters =>
        have hc : Text.isAlphabetic c = true := hletters c (by simp)
        show (List.dropWhile _ (splitExponent (mark :: c :: (letters ++ rest))).2).length ≤ _
        rw [splitExponent_of_letter hc]
        exact hdrop rest
      | nil =>
        show (List.dropWhile _ (splitExponent (mark :: rest)).2).length ≤ _
        have hmark : Text.isAlphabetic mark = true := hletters mark (by simp)
        simp only [splitExponent]
        split
        · -- The letter was the mark of an exponent, all of which is dropped.
          have hsign := congrArg List.length (splitSign_append rest)
          have hdigits := (List.dropWhile_sublist Char.isDigit (l := (splitSign rest).2)).length_le
          have := (List.dropWhile_sublist Text.isAlphabetic
            (l := (splitSign rest).2.dropWhile Char.isDigit)).length_le
          rw [List.length_append] at hsign
          dsimp only
          omega
        · exact hdrop rest
  | digits mark sign ds hmark hsign hne hdigits =>
    intro rest
    have hsplit : splitSign (sign ++ (ds ++ (letters ++ rest))) = (sign, ds ++ (letters ++ rest)) :=
      splitSign_append_of hsign (startsNot_sign_of_digits hne hdigits)
    have htaken : ((ds ++ (letters ++ rest)).takeWhile Char.isDigit).isEmpty = false := by
      obtain ⟨d, ds, rfl⟩ := List.exists_cons_of_ne_nil hne
      simp [hdigits d List.mem_cons_self]
    have hstart : StartsNot Char.isDigit letters :=
      .of_forall fun c hc => not_isDigit_of_isAlphabetic (hletters c hc)
    have h := hdrop.after_run hnil hdigits hstart rest
    simpa only [List.cons_append, List.append_assoc, splitExponent, hsplit, hmark, htaken,
      Bool.not_false, Bool.and_self, if_true] using h

/-- **A number takes at least what any number at the front of the text does.** -/
theorem splitNumber_reaches {digits letters : List Char} (hdigits : IsMantissa digits)
    (hletters : ∀ c ∈ letters, Text.isAlphabetic c = true) :
    Reaches (fun text => (splitNumber text).rest) (digits ++ letters) := by
  obtain ⟨whole, point, exponent, rfl, hwhole, hpoint, hexponent, -⟩ := hdigits
  have hletter {p : Char → Bool} (hp : ∀ c, Text.isAlphabetic c = true → p c = false) :
      StartsNot p letters := .of_forall fun c hc => hp c (hletters c hc)
  have hdigit : StartsNot Char.isDigit (exponent ++ letters) :=
    (hexponent.startsNot (by decide) (by decide)).append (hletter fun _ =>
      not_isDigit_of_isAlphabetic)
  have hdot : StartsNot (· == '.') (exponent ++ letters) :=
    (hexponent.startsNot (by decide) (by decide)).append (hletter fun _ hc =>
      beq_eq_false_iff_ne.mpr (ne_of_isAlphabetic hc (by decide) (by decide)))
  have hexp := reaches_exponent hexponent hletters
  have hexp' := reaches_exponent .nil (List.forall_mem_nil _)
  have hfrom := hexp.after_point hexp' hpoint hdigit hdot
  have hfrom' := hexp'.after_point hexp' .nil startsNot_nil startsNot_nil
  have h := hfrom.after_run hfrom' hwhole (hpoint.isDigit.append hdigit)
  intro rest
  simpa only [List.append_assoc, splitNumber, span] using h rest

end Reaches

/-! ### The longest token -/

section Symbols

variable {c d : Char} {s : Symbol}

/-- The first character of two that are a symbol starts neither a number nor a word. -/
theorem starts_of_ofPair? (h : Symbol.ofPair? c d = some s) (cs : List Char) :
    startsNumber c cs = false ∧ startsIdentifier c = false := by
  unfold Symbol.ofPair? at h
  split at h <;> first | exact ⟨rfl, rfl⟩ | cases h

/-- A character that is a symbol starts neither a number nor a word. -/
theorem starts_of_ofChar? (h : Symbol.ofChar? c = some s) (cs : List Char) :
    startsNumber c cs = false ∧ startsIdentifier c = false := by
  unfold Symbol.ofChar? at h
  split at h <;> first | exact ⟨rfl, rfl⟩ | cases h

/-- A symbol does not start with a blank. -/
theorem range_of_ofPair? (h : Symbol.ofPair? c d = some s) : 33 ≤ c.toNat ∧ c.toNat < 128 := by
  unfold Symbol.ofPair? at h
  split at h <;> first | decide | cases h

/-- A symbol of one character is a visible ASCII character. -/
theorem range_of_ofChar? (h : Symbol.ofChar? c = some s) : 33 ≤ c.toNat ∧ c.toNat < 128 := by
  unfold Symbol.ofChar? at h
  split at h <;> first | decide | cases h

/-- No symbol ends with a blank. -/
theorem ofPair?_of_isBlank (h : Text.isBlank d = true) : Symbol.ofPair? c d = none := by
  unfold Symbol.ofPair?
  split <;> first | rfl | (revert h; decide)

end Symbols

/-- A character that starts a word starts no number. -/
theorem not_startsNumber_of_startsIdentifier {c : Char} (h : startsIdentifier c = true)
    (cs : List Char) : startsNumber c cs = false := by
  rw [Bool.eq_false_iff]
  intro hnumber
  have := startsIdentifier_range h
  have := startsNumber_range hnumber
  omega

variable {ρ : Type} [Scalar ρ]

/-- Two characters that are a symbol are cut off before anything. -/
theorem cut_pair {c d : Char} {s : Symbol} (hs : Symbol.ofPair? c d = some s) (offset : Nat)
    (rest : List Char) :
    (cut offset c (d :: rest) : Except ParseError (Cut ρ)) = .ok ⟨.symbol s, [c, d], rest⟩ := by
  obtain ⟨hnumber, hword⟩ := starts_of_ofPair? hs (d :: rest)
  simp [cut, hnumber, hword, cutSymbol?, hs]

/-- **What the lexer cuts off is the longest token**: it leaves no more than any token at the
front of the text. -/
theorem cut_longest {offset : Nat} {c : Char} {cs : List Char} {t : Cut ρ}
    (h : cut offset c cs = .ok t) {kind : Token.Kind ρ} {lexeme rest : List Char}
    (hspells : Spells kind lexeme) (hrest : lexeme ++ rest = c :: cs) :
    t.rest.length ≤ rest.length := by
  cases hspells with
  | mark hs =>
    -- No token is shorter than one character.
    obtain ⟨rfl, rfl⟩ := List.cons.inj hrest
    exact Nat.le_of_lt_succ (cut_rest_length h)
  | word hstart hmore =>
    obtain ⟨rfl, rfl⟩ := List.cons.inj hrest
    have hstart := startsIdentifier_iff.mpr hstart
    rw [cut, not_startsNumber_of_startsIdentifier hstart, hstart] at h
    cases h
    exact reaches_dropWhile (fun d hd => continuesIdentifier_iff.mpr (hmore d hd)) rest
  | pair hs =>
    obtain ⟨rfl, rfl⟩ := List.cons.inj hrest
    cases (cut_pair (Symbol.ofPair?_eq_some.mpr hs) offset rest).symm.trans h
    exact Nat.le_refl _
  | number hdigits hletters hread =>
    rw [List.append_assoc] at hrest
    obtain ⟨_, _, hcons, hstart⟩ := hdigits.startsNumber (_ ++ rest)
    rw [hrest] at hcons
    obtain ⟨rfl, rfl⟩ := List.cons.inj hcons
    rw [cut, if_pos hstart] at h
    dsimp only at h
    split at h
    · cases h
      have := splitNumber_reaches hdigits hletters rest
      rwa [List.append_assoc, hrest] at this
    · cases h

/-! ### Tokens before a blank -/

/-- The text is empty or starts with a blank. -/
def Apart (rest : List Char) : Prop := StartsNot (fun c => !Text.isBlank c) rest

/-- The end of the text stands apart from any token. -/
theorem apart_nil : Apart [] := startsNot_nil

/-- What starts with a blank stands apart from any token. -/
theorem apart_cons {b : Char} {rest : List Char} (h : Text.isBlank b = true) :
    Apart (b :: rest) := startsNot_cons.mpr (by rw [h]; rfl)

/-- No blank goes on a word or a number. -/
theorem extends?_of_isBlank {b : Char} (h : Text.isBlank b = true) : extends? b = false := by
  have hall : ∀ r ∈ Text.blankRanges, ∀ n ∈ List.range' r.1 (r.2 + 1 - r.1),
      extends? (Char.ofNat n) = false := by decide +kernel
  obtain ⟨r, hr, hle, hge⟩ := Text.CharRanges.contains_iff.mp h
  have hb := hall r hr b.toNat (List.mem_range'_1.mpr ⟨hle, by omega⟩)
  rwa [Char.ofNat_toNat] at hb

section Apart

variable {rest : List Char} (h : Apart rest)
include h

/-- What stands apart and is not empty starts with a blank. -/
theorem Apart.isBlank {b : Char} (hb : b ∈ rest.head?) : Text.isBlank b = true := by
  simpa using h b hb

/-- What stands apart delimits. -/
theorem Apart.delimited : Delimited rest := fun _ hb => extends?_of_isBlank (h.isBlank hb)

/-- Before such a text the lexer cuts off a symbol of one character. -/
theorem cutSymbol?_of_apart {c : Char} {s : Symbol} (hs : Symbol.ofChar? c = some s) :
    cutSymbol? c rest = some (s, [c], rest) := by
  cases rest with
  | nil => simp [cutSymbol?, hs]
  | cons b rest => simp [cutSymbol?, hs, ofPair?_of_isBlank (h.isBlank rfl)]

end Apart

/-- **Before a blank a token is cut off as a whole.** -/
theorem cut_of_spells {kind : Token.Kind ρ} {c : Char} {more rest : List Char}
    (h : Spells kind (c :: more)) (hrest : Apart rest) (offset : Nat) :
    cut offset c (more ++ rest) = .ok ⟨kind, c :: more, rest⟩ := by
  generalize hlexeme : c :: more = lexeme at h
  cases h with
  | word hstart hmore =>
    obtain ⟨rfl, rfl⟩ := List.cons.inj hlexeme
    exact cut_word ⟨_, _, rfl, startsIdentifier_iff.mpr hstart,
      fun d hd => continuesIdentifier_iff.mpr (hmore d hd)⟩ hrest.delimited offset
  | number hdigits hletters hread =>
    obtain ⟨_, _, hcons, hstart⟩ := hdigits.startsNumber _
    rw [← hlexeme] at hcons
    obtain ⟨rfl, rfl⟩ := List.cons.inj hcons
    obtain ⟨whole, point, exponent, rfl, hwhole, hpoint, hexponent, -⟩ := hdigits
    have hsplit := splitNumber_of_parts hwhole hpoint hexponent hletters hrest.delimited
    rw [← hlexeme, List.cons_append] at hsplit
    rw [cut, if_pos (startsNumber_append hstart rest)]
    simp only [hsplit, mantissa?, hread, Option.map_some]
  | mark hs =>
    obtain ⟨rfl, rfl⟩ := List.cons.inj hlexeme
    have hs := Symbol.ofChar?_eq_some.mpr hs
    obtain ⟨hnumber, hword⟩ := starts_of_ofChar? hs rest
    simp [cut, hnumber, hword, cutSymbol?_of_apart hrest hs]
  | pair hs =>
    obtain ⟨rfl, rfl⟩ := List.cons.inj hlexeme
    exact cut_pair (Symbol.ofPair?_eq_some.mpr hs) offset rest

/-- The characters of a token do not start with a blank. -/
theorem Spells.exists_cons {kind : Token.Kind ρ} {lexeme : List Char} (h : Spells kind lexeme) :
    ∃ c more, lexeme = c :: more ∧ Text.isBlank c = false := by
  cases h with
  | word hstart =>
    have := startsIdentifier_range (startsIdentifier_iff.mpr hstart)
    exact ⟨_, _, rfl, not_isBlank (by omega) (by omega)⟩
  | number hdigits =>
    obtain ⟨c, cs, hcons, hstart⟩ := hdigits.startsNumber _
    have := startsNumber_range hstart
    exact ⟨c, cs, hcons, not_isBlank (by omega) (by omega)⟩
  | mark hs =>
    have := range_of_ofChar? (Symbol.ofChar?_eq_some.mpr hs)
    exact ⟨_, _, rfl, not_isBlank this.1 this.2⟩
  | pair hs =>
    have := range_of_ofPair? (Symbol.ofPair?_eq_some.mpr hs)
    exact ⟨_, _, rfl, not_isBlank this.1 this.2⟩

omit [Scalar ρ] in
/-- **The letters of a number are those after its digits, in one way only.** -/
theorem IsMantissa.unique {digits digits' letters letters' : List Char} (h : IsMantissa digits)
    (h' : IsMantissa digits') (hletters : ∀ c ∈ letters, Text.isAlphabetic c = true)
    (hletters' : ∀ c ∈ letters', Text.isAlphabetic c = true)
    (heq : digits ++ letters = digits' ++ letters') : digits = digits' ∧ letters = letters' := by
  have hsplit {digits letters : List Char} (h : IsMantissa digits)
      (hletters : ∀ c ∈ letters, Text.isAlphabetic c = true) :
      splitNumber (digits ++ letters) = ⟨digits, letters, []⟩ := by
    obtain ⟨whole, point, exponent, rfl, hwhole, hpoint, hexponent, -⟩ := h
    have hparts := splitNumber_of_parts hwhole hpoint hexponent hletters delimited_nil
    rwa [List.append_nil] at hparts
  have hparts := hsplit h hletters
  rw [heq, hsplit h' hletters'] at hparts
  injection hparts with hdigits hsuffix
  exact ⟨hdigits.symm, hsuffix.symm⟩

/-! ### Texts that are one token -/

/-- Each token of a tiling is spelled as it is. -/
theorem Tiles.spells {offset : Nat} {ts : List (Token ρ)} {cs : List Char}
    (h : Tiles offset ts cs) : ∀ t ∈ ts, Spells t.kind t.lexeme.toList := by
  induction h with
  | blanks => exact List.forall_mem_nil _
  | token _ _ _ _ hspells _ ih => exact List.forall_mem_cons.mpr ⟨hspells, ih⟩

/-- The text is a single token of this kind, and nothing else. -/
def IsToken (kind : Token.Kind ρ) (lexeme : String) : Prop :=
  Tokens.ofText lexeme = .ok ⟨[⟨kind, lexeme, 0⟩], lexeme.utf8ByteSize⟩

/-- **A text is one token exactly if it is spelled as one.** -/
theorem isToken_iff {kind : Token.Kind ρ} {lexeme : String} :
    IsToken kind lexeme ↔ Spells kind lexeme.toList := by
  constructor
  · intro h
    have hending : Ending 0 lexeme.toList (scan lexeme : Scan ρ) := scanFrom_ending 0 lexeme.toList
    simp only [IsToken, Tokens.ofText] at h
    cases hending with
    | upTo before c after _ herror =>
      rw [herror] at h
      cases h
    | all hok htiles =>
      rw [hok] at h
      injection h with h
      injection h with htokens
      rw [htokens] at htiles
      exact htiles.spells _ List.mem_cons_self
  · intro h
    obtain ⟨c, more, hcons, hc⟩ := h.exists_cons
    rw [hcons] at h
    have hcut := cut_of_spells h apart_nil 0
    rw [List.append_nil] at hcut
    have hscan : (scan lexeme : Scan ρ) = ⟨[⟨kind, lexeme, 0⟩], .ok lexeme.utf8ByteSize⟩ := by
      rw [scan, hcons, scanFrom_cut hc hcut, ← hcons, scanFrom_nil, String.ofList_toList,
        Nat.zero_add, utf8Length_eq, String.ofList_toList]
      rfl
    rw [IsToken, Tokens.ofText, hscan]

/-! ### The tokens of a text are the longest -/

/-- The token stands in the text at its offset, and no longer token starts there. -/
def Longest (offset : Nat) (t : Token ρ) (cs : List Char) : Prop :=
  ∃ before after, cs = before ++ (t.lexeme.toList ++ after) ∧
    t.offset = offset + utf8Length before ∧ Spells t.kind t.lexeme.toList ∧
    ∀ (kind : Token.Kind ρ) (lexeme : List Char), Spells kind lexeme →
      lexeme <+: t.lexeme.toList ++ after → lexeme.length ≤ t.lexeme.toList.length

/-- **Each token of a scan is the longest where it stands.** -/
theorem longest_of_mem_scanFrom (offset : Nat) (cs : List Char) :
    ∀ t ∈ (scanFrom offset cs : Scan ρ).tokens, Longest offset t cs := by
  refine scanFrom_induction (P := fun offset cs s => ∀ t ∈ s.tokens, Longest offset t cs)
    ?_ ?_ ?_ offset cs
  · exact fun _ _ _ => List.forall_mem_nil _
  · exact fun _ _ _ _ _ _ _ _ => List.forall_mem_nil _
  · intro offset bs c cs t s _ _ ht hs
    obtain ⟨hspells, -, happend⟩ := spells_of_cut ht
    refine List.forall_mem_cons.mpr ⟨?_, fun t' ht' => ?_⟩
    · refine ⟨bs, t.rest, ?_, rfl, ?_, ?_⟩
      · rw [String.toList_ofList, happend]
      · rwa [String.toList_ofList]
      · intro kind lexeme hspells' hprefix
        rw [String.toList_ofList] at hprefix ⊢
        obtain ⟨r, hr⟩ := hprefix
        have hlongest := cut_longest ht hspells' (hr.trans happend)
        have hlengths := congrArg List.length hr
        rw [List.length_append, List.length_append] at hlengths
        omega
    · obtain ⟨before, after, hafter, hoffset, hlongest⟩ := hs t' ht'
      refine ⟨bs ++ (t.lexeme ++ before), after, ?_, ?_, hlongest⟩
      · rw [List.append_assoc, List.append_assoc, ← hafter, happend]
      · rw [hoffset, utf8Length_append, utf8Length_append]
        omega

end Lexer
end CircuitExpr
