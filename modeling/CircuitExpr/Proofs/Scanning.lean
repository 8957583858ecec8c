/-
# Texts and the phrases they yield

`Yields D cs R` says that the characters `cs`, before any text of the class `D`, are
read as tokens that form the phrase `R`, a relation between tokens and the tokens
after the phrase, as in the grammar.  Texts with this property are put together with
`Yields.append`, as phrases are in the rules of the grammar.

In the other direction, every token of a text is valid: its characters, read alone,
are the same token.
-/

import Mathlib
import CircuitExpr.Proofs.Grammar
import CircuitExpr.Proofs.LexerRuns

namespace CircuitExpr
namespace Lexer

open Expr.Grammar (Sym Name Joins Operator Signs Sign)

variable {ρ : Type}

/-- The scan with some tokens before it. -/
def Scan.prepend (ts : List (Token ρ)) (s : Scan ρ) : Scan ρ := ⟨ts ++ s.tokens, s.ending⟩

/-- Tokens put in front twice are put in front together. -/
theorem Scan.prepend_prepend (ts ts' : List (Token ρ)) (s : Scan ρ) :
    (s.prepend ts').prepend ts = s.prepend (ts ++ ts') := by
  simp [prepend]

variable [Scalar ρ]

/-! ### One step of the scan -/

/-- The scan from the first character that is no blank. -/
def scanUnblanked (start : Nat) : List Char → Scan ρ
  | [] => ⟨[], .ok start⟩
  | c :: cs =>
    match cut start c cs with
    | .error e => ⟨[], .error e⟩
    | .ok t => (scanFrom (start + utf8Length t.lexeme) t.rest).prepend
        [⟨t.kind, String.ofList t.lexeme, start⟩]

/-- A scan skips the blanks and goes on behind them. -/
theorem scanFrom_eq (offset : Nat) (cs : List Char) :
    (scanFrom offset cs : Scan ρ) =
      scanUnblanked (offset + utf8Length (cs.takeWhile Text.isBlank))
        (cs.dropWhile Text.isBlank) := by
  rw [scanFrom]
  split
  · rename_i hnil
    rw [hnil]
    rfl
  · rename_i c rest hcons
    rw [hcons, scanUnblanked]
    split
    · rename_i e he
      rw [he]
    · rename_i t ht
      rw [ht]
      rfl

/-- At the end the scan ends. -/
theorem scanFrom_nil (offset : Nat) : (scanFrom offset [] : Scan ρ) = ⟨[], .ok offset⟩ := by
  rw [scanFrom_eq]
  rfl

/-- A blank moves the scan on. -/
theorem scanFrom_blank {c : Char} (hc : Text.isBlank c = true) (offset : Nat) (cs : List Char) :
    (scanFrom offset (c :: cs) : Scan ρ) = scanFrom (offset + c.utf8Size) cs := by
  rw [scanFrom_eq, scanFrom_eq]
  simp only [List.takeWhile_cons, List.dropWhile_cons, hc, if_true, utf8Length, Nat.add_assoc]

/-- A token is cut off where no blank stands. -/
theorem scanFrom_cut {c : Char} {cs : List Char} {t : Cut ρ} {offset : Nat}
    (hc : Text.isBlank c = false) (ht : cut offset c cs = .ok t) :
    (scanFrom offset (c :: cs) : Scan ρ) =
      (scanFrom (offset + utf8Length t.lexeme) t.rest).prepend
        [⟨t.kind, String.ofList t.lexeme, offset⟩] := by
  rw [scanFrom_eq]
  simp only [List.takeWhile_cons, List.dropWhile_cons, hc, Bool.false_eq_true, if_false,
    utf8Length, Nat.add_zero, scanUnblanked, ht]

/-- **Induction along a scan.**  Behind blanks a scan comes to the end of the text, or to a
character at which nothing is cut off, or it cuts off a token and goes on behind that. -/
theorem scanFrom_induction {P : Nat → List Char → Scan ρ → Prop}
    (blanks : ∀ offset bs, (∀ b ∈ bs, Text.isBlank b = true) →
      P offset bs ⟨[], .ok (offset + utf8Length bs)⟩)
    (fails : ∀ offset bs c cs e, (∀ b ∈ bs, Text.isBlank b = true) → Text.isBlank c = false →
      (cut (offset + utf8Length bs) c cs : Except ParseError (Cut ρ)) = .error e →
      P offset (bs ++ c :: cs) ⟨[], .error e⟩)
    (token : ∀ offset bs c cs t s, (∀ b ∈ bs, Text.isBlank b = true) → Text.isBlank c = false →
      cut (offset + utf8Length bs) c cs = .ok t →
      P (offset + utf8Length bs + utf8Length t.lexeme) t.rest s →
      P offset (bs ++ c :: cs) (s.prepend [⟨t.kind, String.ofList t.lexeme, offset + utf8Length bs⟩]))
    (offset : Nat) (cs : List Char) : P offset cs (scanFrom offset cs) := by
  have hblanks : ∀ b ∈ cs.takeWhile Text.isBlank, Text.isBlank b = true :=
    fun _ hb => of_mem_takeWhile hb
  have hsplit : cs.takeWhile Text.isBlank ++ cs.dropWhile Text.isBlank = cs :=
    List.takeWhile_append_dropWhile
  have hlength := (List.dropWhile_sublist Text.isBlank (l := cs)).length_le
  rw [scanFrom_eq]
  cases hcs : cs.dropWhile Text.isBlank with
  | nil =>
    rw [hcs, List.append_nil] at hsplit
    rw [hsplit] at hblanks ⊢
    exact blanks offset cs hblanks
  | cons c rest =>
    have hc : Text.isBlank c = false := by
      have := List.head?_dropWhile_not Text.isBlank cs
      simpa [hcs] using this
    rw [hcs] at hsplit hlength
    rw [scanUnblanked]
    split
    · rename_i e he
      have h := fails offset _ c rest e hblanks hc he
      rwa [hsplit] at h
    · rename_i t ht
      have hrest : t.rest.length < cs.length := Nat.lt_of_lt_of_le (cut_rest_length ht) hlength
      have h := token offset _ c rest t _ hblanks hc ht
        (scanFrom_induction blanks fails token _ t.rest)
      rwa [hsplit] at h
termination_by cs.length

/-! ### Texts that yield a phrase -/

/-- Before any text of the class `D`, the characters are read as tokens that form the
phrase `R`. -/
def Yields (D : List Char → Prop) (cs : List Char)
    (R : List (Token ρ) → List (Token ρ) → Prop) : Prop :=
  ∀ offset rest, D rest → ∃ ts offset', (∀ after, R (ts ++ after) after) ∧
    (scanFrom offset (cs ++ rest) : Scan ρ) = (scanFrom offset' rest).prepend ts

/-- Any text. -/
def Anything (_ : List Char) : Prop := True

section Yields

variable {D E : List Char → Prop} {cs ds : List Char}
  {R S : List (Token ρ) → List (Token ρ) → Prop}

/-- What is said of the tokens may be weakened. -/
theorem Yields.mono (h : Yields D cs R) (hRS : ∀ ts after, R ts after → S ts after) :
    Yields D cs S := by
  intro offset rest hrest
  obtain ⟨ts, offset', hts, hscan⟩ := h offset rest hrest
  exact ⟨ts, offset', fun after => hRS _ _ (hts after), hscan⟩

/-- What comes after the text may be restricted. -/
theorem Yields.weaken (h : Yields D cs R) (hDE : ∀ rest, E rest → D rest) : Yields E cs R :=
  fun offset rest hrest => h offset rest (hDE rest hrest)

/-- **Texts one after the other yield phrases one after the other.** -/
theorem Yields.append (h : Yields D cs R) (h' : Yields E ds S)
    (hD : ∀ rest, E rest → D (ds ++ rest)) :
    Yields E (cs ++ ds) fun ts after => ∃ mid, R ts mid ∧ S mid after := by
  intro offset rest hrest
  obtain ⟨ts, offset₁, hts, hscan⟩ := h offset (ds ++ rest) (hD rest hrest)
  obtain ⟨ts', offset₂, hts', hscan'⟩ := h' offset₁ rest hrest
  refine ⟨ts ++ ts', offset₂, fun after => ⟨ts' ++ after, ?_, hts' after⟩, ?_⟩
  · rw [List.append_assoc]
    exact hts _
  · rw [List.append_assoc, hscan, hscan', Scan.prepend_prepend]

/-- A text after which anything may stand, with another after it. -/
theorem Yields.before (h : Yields Anything cs R) (h' : Yields E ds S) :
    Yields E (cs ++ ds) fun ts after => ∃ mid, R ts mid ∧ S mid after :=
  h.append h' fun _ _ => trivial

/-- A blank yields nothing. -/
theorem Yields.blank (h : Yields D cs R) (hD : ∀ rest, D (' ' :: rest)) :
    Yields Anything (cs ++ [' ']) R := by
  have hblank : Yields Anything [' '] (fun (ts after : List (Token ρ)) => ts = after) :=
    fun _ _ _ => ⟨[], _, fun _ => rfl, scanFrom_blank (by decide) _ _⟩
  refine (h.append hblank fun rest _ => hD rest).mono ?_
  rintro ts after ⟨_, hts, rfl⟩
  exact hts

end Yields

/-! ### The tokens -/

section Tokens

variable {D : List Char → Prop} {c : Char} {cs : List Char}

/-- A word before a delimited text yields itself. -/
theorem yields_word (h : IsWord cs) :
    Yields Delimited cs (fun (ts after : List (Token ρ)) =>
      ∃ offset, ts = ⟨.identifier, String.ofList cs, offset⟩ :: after) := by
  intro offset rest hrest
  obtain ⟨c, cs, rfl, hstart, -⟩ := id h
  have hrange := startsIdentifier_range hstart
  exact ⟨[_], _, fun after => ⟨offset, rfl⟩,
    scanFrom_cut (not_isBlank (by omega) (by omega)) (cut_word h hrest offset)⟩

/-- A number before a delimited text yields its value. -/
theorem yields_number {x : ρ} (h : IsNumber cs) (hx : numberValue? cs = some x) :
    Yields Delimited cs (fun (ts after : List (Token ρ)) =>
      ∃ offset, ts = ⟨.number x, String.ofList cs, offset⟩ :: after) := by
  intro offset rest hrest
  obtain ⟨c, cs, rfl, hstart, -⟩ := id h
  have hrange := startsNumber_range hstart
  exact ⟨[_], _, fun after => ⟨offset, rfl⟩,
    scanFrom_cut (not_isBlank (by omega) (by omega)) (cut_number h hx hrest offset)⟩

/-- A symbol that the lexer cuts off yields itself. -/
theorem yields_symbol {s : Symbol} (hc : 33 ≤ c.toNat ∧ c.toNat < 128 ∧ c ≠ '.')
    (hdigit : c.isDigit = false) (hstart : startsIdentifier c = false)
    (hcut : ∀ rest, D rest → cutSymbol? c (cs ++ rest) = some (s, c :: cs, rest)) :
    Yields D (c :: cs) (Sym s : List (Token ρ) → List (Token ρ) → Prop) := by
  intro offset rest hrest
  have hnumber : startsNumber c (cs ++ rest) = false := by
    simp [startsNumber, hdigit, hc.2.2]
  have ht : (cut offset c (cs ++ rest) : Except ParseError (Cut ρ)) =
      .ok ⟨.symbol s, c :: cs, rest⟩ := by
    simp [cut, hnumber, hstart, hcut rest hrest]
  exact ⟨_, _, fun after => ⟨_, _, _⟩, scanFrom_cut (not_isBlank hc.1 hc.2.1) ht⟩

/-- A character that no symbol of two starts with yields its symbol. -/
theorem yields_mark {s : Symbol} (hs : Symbol.ofChar? c = some s)
    (hpair : c ≠ '!' ∧ c ≠ '<' ∧ c ≠ '>') :
    Yields Anything [c] (Sym s : List (Token ρ) → List (Token ρ) → Prop) := by
  have hcut (h : ∀ d, Symbol.ofPair? c d = none) (rest : List Char) (_ : Anything rest) :
      cutSymbol? c ([] ++ rest) = some (s, [c], rest) := by
    cases rest <;> simp [cutSymbol?, h, hs]
  unfold Symbol.ofChar? at hs
  split at hs <;> cases hs <;> first
    | exact absurd rfl hpair.1
    | exact absurd rfl hpair.2.1
    | exact absurd rfl hpair.2.2
    | exact yields_symbol (by decide) (by decide) (by decide)
        (hcut fun _ => by simp [Symbol.ofPair?])

/-- A text with a character after it that delimits and yields its symbol. -/
theorem Yields.mark {R : List (Token ρ) → List (Token ρ) → Prop} {s : Symbol}
    (h : Yields D cs R) (hD : ∀ rest, D (c :: rest)) (hs : Symbol.ofChar? c = some s)
    (hpair : c ≠ '!' ∧ c ≠ '<' ∧ c ≠ '>') :
    Yields Anything (cs ++ [c]) fun ts after => ∃ mid, R ts mid ∧ Sym s mid after :=
  h.append (yields_mark hs hpair) fun rest _ => hD rest

/-- An operator with a symbol of its own yields itself before a blank. -/
theorem yields_operator {op : BinaryOp} (hop : op ≠ .xor) :
    Yields (fun rest => ∃ more, rest = ' ' :: more) op.symbol.toList
      (Operator op.precedence op : List (Token ρ) → List (Token ρ) → Prop) := by
  have hmono {s : Symbol} {cs : List Char} (hs : Joins s op op.precedence)
      (h : Yields (fun rest => ∃ more, rest = ' ' :: more) cs (Sym s : List (Token ρ) → _)) :
      Yields (fun rest => ∃ more, rest = ' ' :: more) cs (Operator op.precedence op) :=
    h.mono fun _ _ ⟨_, _, _⟩ => ⟨_, _, _, _, hs⟩
  cases op with
  | xor => exact absurd rfl hop
  | _ =>
    exact hmono (by constructor) (yields_symbol (by decide) (by decide) (by decide)
      (by rintro _ ⟨more, rfl⟩; rfl))

/-- An operator before an operand yields itself before a parenthesis. -/
theorem yields_sign (op : UnaryOp) :
    Yields (fun rest => ∃ more, rest = '(' :: more) op.symbol.toList
      (Sign op : List (Token ρ) → List (Token ρ) → Prop) := by
  have hmono {s : Symbol} {cs : List Char} (hs : Signs s op)
      (h : Yields (fun rest => ∃ more, rest = '(' :: more) cs (Sym s : List (Token ρ) → _)) :
      Yields (fun rest => ∃ more, rest = '(' :: more) cs (Sign op) :=
    h.mono fun _ _ ⟨_, _, _⟩ => ⟨_, _, _, _, hs⟩
  cases op <;> exact hmono (by constructor) (yields_symbol (by decide) (by decide) (by decide)
    (by rintro _ ⟨more, rfl⟩; rfl))

/-- A minus sign yields itself before anything. -/
theorem yields_minus :
    Yields Anything ['-'] (Sign .minus : List (Token ρ) → List (Token ρ) → Prop) := by
  have h : Yields Anything ['-'] (Sym .minus : List (Token ρ) → List (Token ρ) → Prop) :=
    yields_mark rfl (by decide)
  exact h.mono fun _ _ ⟨_, _, _⟩ => ⟨_, _, _, _, .minus⟩

/-- The characters of a name: those of a word or of a number. -/
def IsName (w : String) : Prop := IsWord w.toList ∨ IsNumber w.toList

/-- A name before a delimited text yields itself. -/
theorem yields_name {w : String} (h : IsName w) :
    Yields Delimited w.toList (fun (ts after : List (Token ρ)) => Name ts w after) := by
  rcases h with h | h
  · refine (yields_word h).mono ?_
    rintro _ _ ⟨offset, rfl⟩
    rw [String.ofList_toList]
    exact .identifier _ _ _
  · obtain ⟨x, hx⟩ := h.value (ρ := ρ)
    refine (yields_number h hx).mono ?_
    rintro _ _ ⟨offset, rfl⟩
    rw [String.ofList_toList]
    exact .number _ _ _ _

end Tokens

/-! ### The tokens of a text are valid -/

/-- The characters of the token, read alone, are the token. -/
def Valid (t : Token ρ) : Prop :=
  match t.kind with
  | .identifier => IsWord t.lexeme.toList
  | .number x => IsNumber t.lexeme.toList ∧ numberValue? t.lexeme.toList = some x
  | .symbol _ => True

/-- What is cut off as a number starts a number. -/
theorem startsNumber_splitNumber {c : Char} {cs : List Char} (h : startsNumber c cs = true) :
    ∃ more, (splitNumber (c :: cs)).digits ++ (splitNumber (c :: cs)).suffix = c :: more ∧
      startsNumber c more = true := by
  simp only [startsNumber, Bool.or_eq_true, Bool.and_eq_true, beq_iff_eq] at h
  rcases h with h | ⟨rfl, h⟩
  · refine ⟨_, by simp [splitNumber, span, h]; rfl, by simp [startsNumber, h]⟩
  · cases cs with
    | nil => cases h
    | cons d cs =>
      have hd : d.isDigit = true := h
      have hdot : Char.isDigit '.' = false := by decide
      refine ⟨_, by simp [splitNumber, span, splitPoint, hdot, hd]; rfl, ?_⟩
      simp [startsNumber, hd]

/-- What is cut off as a number is a number. -/
theorem isNumber_cut {c : Char} {cs : List Char} (hstart : startsNumber c cs = true)
    (hread : (Decimal.read? (splitNumber (c :: cs)).digits).isSome = true) :
    IsNumber ((splitNumber (c :: cs)).digits ++ (splitNumber (c :: cs)).suffix) := by
  have hagain := splitNumber_again (c :: cs) delimited_nil
  rw [List.append_nil] at hagain
  obtain ⟨more, hmore, hstart⟩ := startsNumber_splitNumber hstart
  exact ⟨c, more, hmore, hstart, by rw [hagain], by rw [hagain]; exact hread⟩

/-- A token that was cut is valid wherever it stands. -/
theorem valid_of_cut {offset : Nat} {c : Char} {cs : List Char} {t : Cut ρ}
    (h : cut offset c cs = .ok t) (start : Nat) :
    Valid ⟨t.kind, String.ofList t.lexeme, start⟩ := by
  unfold cut at h
  split at h
  · rename_i hstart
    dsimp only at h
    split at h
    · rename_i m hm
      cases h
      have hread : (Decimal.read? (splitNumber (c :: cs)).digits).isSome = true := by
        unfold mantissa? at hm
        exact Option.isSome_map ▸ Option.isSome_iff_exists.mpr ⟨m, hm⟩
      have hagain := splitNumber_again (c :: cs) delimited_nil
      rw [List.append_nil] at hagain
      simp only [Valid, String.toList_ofList]
      exact ⟨isNumber_cut hstart hread, by simp [numberValue?, hagain, hm]⟩
    · cases h
  · split at h
    · rename_i hstart
      cases h
      simp only [Valid, String.toList_ofList]
      exact ⟨c, _, rfl, hstart, fun d hd => of_mem_takeWhile hd⟩
    · split at h
      · cases h
        trivial
      · cases h

/-- **Every token of a text is valid.** -/
theorem valid_of_mem_scanFrom (offset : Nat) (cs : List Char) :
    ∀ t ∈ (scanFrom offset cs : Scan ρ).tokens, Valid t := by
  refine scanFrom_induction (P := fun _ _ s => ∀ t ∈ s.tokens, Valid t) ?_ ?_ ?_ offset cs
  · exact fun _ _ _ => List.forall_mem_nil _
  · exact fun _ _ _ _ _ _ _ _ => List.forall_mem_nil _
  · exact fun _ _ _ _ _ _ _ _ ht hs => List.forall_mem_cons.mpr ⟨valid_of_cut ht _, hs⟩

end Lexer
end CircuitExpr
