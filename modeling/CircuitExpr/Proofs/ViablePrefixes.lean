/-
# Syntax errors stand at the first token that cannot be right

The functions of the parser decide by the next token, so each of them foresees what it
does: the tokens before an error can be completed to an expression, and with the token
at the error they cannot.  This passes from the readers that a function is made of to
the function.

Every function can begin with a word, or with the symbol that ends the phrase.  None of
these continues what stands before it, so a phrase that is complete stays complete when
the next one is supplied.
-/

import CircuitExpr.Proofs.LexerTiling
import CircuitExpr.Proofs.Lookahead

namespace CircuitExpr
namespace Expr
namespace Parser

open Grammar (Sym Lacks)

variable {ρ α : Type} {context : Context ρ} {ts rest : List (Token ρ)}

/-! ### Single tokens -/

/-- A word, which every operand can begin with. -/
def someWord : Token ρ := ⟨.identifier, "x", 0⟩

/-- A word continues nothing. -/
theorem ends_someWord (tail : List (Token ρ)) : Ends (someWord :: tail) where
  operator := by rintro _ _ ⟨⟩
  question := by rintro _ ⟨⟩
  leftParen := by rintro _ ⟨⟩

/-- A symbol that continues nothing. -/
def Closes (s : Symbol) : Prop := s.operator? = none ∧ s ≠ .question ∧ s ≠ .leftParen

instance : DecidablePred Closes := fun s =>
  inferInstanceAs (Decidable (s.operator? = none ∧ s ≠ .question ∧ s ≠ .leftParen))

/-- A symbol that closes continues nothing. -/
theorem Closes.ends {s : Symbol} (hs : Closes s) (h : Sym s ts rest) : Ends ts :=
  ends_of_sym h hs.1 hs.2.1 hs.2.2

section Closing

variable {s : Symbol} {wanted : Wanted} {x : α}

/-- A closing symbol can start anywhere. -/
theorem startable_closing (hs : Closes s) : Startable (closing context s wanted x) :=
  ⟨[⟨.symbol s, "", 0⟩], x, fun tail _ => ⟨hs.ends ⟨_, _, tail⟩, closing_of_sym ⟨_, _, tail⟩⟩⟩

/-- A reader can go on with the closing symbol instead of another one. -/
theorem startable_ifNext_closing {s' : Symbol} {f : Reader ρ α} (hs : Closes s) (hne : s ≠ s') :
    Startable (ifNext s' f (closing context s wanted x)) :=
  ⟨[⟨.symbol s, "", 0⟩], x, fun tail _ => ⟨hs.ends ⟨_, _, tail⟩,
    (ifNext_of_lacks (Sym.lacks ⟨_, _, tail⟩ hne)).trans (closing_of_sym ⟨_, _, tail⟩)⟩⟩

/-- What closes is foreseen by the symbol. -/
theorem foresees_closing (hs : Closes s) (wanted : Wanted) (x : α) (ts : List (Token ρ)) :
    Foresees context (closing context s wanted x) ts := by
  rcases sym_or_lacks s ts with ⟨rest, lexeme, offset, _⟩ | hlacks
  · exact .token (fun ts' => closing_of_sym ⟨lexeme, offset, ts'⟩) (.pure x rest)
  · exact .unexpected wanted (fun ts' hts' => closing_of_error (symbol_of_lacks wanted
      (lacks_congr hts' hlacks))) (startable_closing hs)

end Closing

/-- A name can start anywhere. -/
theorem startable_name (wanted : Wanted) : Startable (reader (name context wanted)) :=
  ⟨[someWord], "x", fun tail _ => ⟨ends_someWord tail, rfl⟩⟩

/-- A name is foreseen by its token. -/
theorem foresees_name (wanted : Wanted) (ts : List (Token ρ)) :
    Foresees context (reader (name context wanted)) ts := by
  cases ts with
  | nil =>
    refine .unexpected wanted (fun ts' hts' => ?_) (startable_name wanted)
    rw [List.head?_eq_none_iff.mp hts']
    rfl
  | cons t ts =>
    obtain ⟨kind, lexeme, offset⟩ := t
    cases kind with
    | identifier => exact .token (fun _ => rfl) (.pure lexeme ts)
    | number v => exact .token (fun _ => rfl) (.pure lexeme ts)
    | symbol s =>
      refine .unexpected wanted (fun ts' hts' => ?_) (startable_name wanted)
      obtain ⟨after, rfl⟩ := List.head?_eq_some_iff.mp hts'
      rfl

/-! ### The special forms -/

/-- A voltage is foreseen. -/
theorem foresees_voltage (ts : List (Token ρ)) :
    Foresees context (reader (voltage context)) ts := by
  have hclose (v : Variable) : Startable (closing context .rightParen .rightParen v) :=
    startable_closing (by decide)
  have hagainst (v : Option String → Variable) :
      Startable (reader (reference context) >>= fun against =>
        closing context .rightParen .rightParen (v against)) := by
    rw [reader_reference, ifNext_bind]
    exact startable_ifNext_closing (by decide) (by decide)
  rw [reader_voltage]
  refine (foresees_name _ ts).bind (fun node rest _ => ?_) fun _ => hagainst _
  have hstart := hagainst fun against => ⟨.voltage, node, against⟩
  rw [reader_reference, ifNext_bind] at hstart ⊢
  refine .ifNext (fun rest _ => ?_) (foresees_closing (by decide) _ _ _) hstart
    (.inl fun _ _ => length_lt_of_closing)
  rw [bind_assoc]
  exact (foresees_name _ rest).bind (fun _ _ _ => foresees_closing (by decide) _ _ _)
    fun _ => hclose _

/-- A current is foreseen. -/
theorem foresees_current (ts : List (Token ρ)) :
    Foresees context (reader (current context)) ts := by
  rw [reader_current]
  exact (foresees_name _ ts).bind (fun _ rest _ => foresees_closing (by decide) _ _ rest)
    fun _ => startable_closing (by decide)

/-- A property is foreseen. -/
theorem foresees_property (ts : List (Token ρ)) :
    Foresees context (reader (property context)) ts := by
  have hclose (v : Variable) : Startable (closing context .rightBracket .rightBracket v) :=
    startable_closing (by decide)
  rw [reader_property]
  refine (foresees_name _ ts).bind (fun _ ts₁ _ => ?_) fun _ =>
    (startable_closing (by decide)).bind fun _ => (startable_name _).bind fun _ => hclose _
  refine (foresees_closing (by decide) _ _ ts₁).bind (fun _ ts₂ _ => ?_) fun _ =>
    (startable_name _).bind fun _ => hclose _
  exact (foresees_name _ ts₂).bind (fun _ rest _ => foresees_closing (by decide) _ _ rest)
    fun _ => hclose _

/-! ### Where each function can begin -/

/-- An operand can start anywhere, with a word. -/
theorem startable_primary : Startable (reader (primary context)) :=
  ⟨[someWord], word context "x", fun tail htail => ⟨ends_someWord tail,
    reader_eq_ok.mpr (primary_complete (word_sound "x" 0) htail.leftParen)⟩⟩

/-- An operand with its signs can start anywhere, with a word. -/
theorem startable_signed : Startable (reader (signed context)) :=
  ⟨[someWord], word context "x", fun tail htail => ⟨ends_someWord tail,
    reader_eq_ok.mpr (signed_complete (.primary (word_sound "x" 0)) htail.leftParen)⟩⟩

/-- A climb can stop anywhere. -/
theorem startable_climb (least : Nat) (left : Expr ρ) :
    Startable (reader (climb context least left)) :=
  ⟨[], left, fun _ htail => ⟨htail, reader_climb_of_stops (.of_ends htail)⟩⟩

/-- Operands can start anywhere. -/
theorem startable_operands (least : Nat) : Startable (reader (operands context least)) := by
  rw [reader_operands]
  exact startable_signed.bind fun left => startable_climb least left

/-- A choice can start anywhere. -/
theorem startable_choice : Startable (reader (choice context)) := by
  rw [reader_choice]
  exact (startable_operands 1).bind fun _ => startable_ifNext_pure fun _ htail => htail.question

/-! ### Every function foresees -/

mutual

/-- **The parser foresees what it does**, each of its functions. -/
theorem foresees_choice (ts : List (Token ρ)) :
    Foresees context (reader (choice context)) ts := by
  rw [reader_choice]
  refine (foresees_operands 1 ts).bind (fun condition ts₁ hcondition => ?_) fun _ =>
    startable_ifNext_pure fun _ htail => htail.question
  have h₁ := length_lt_of_reader hcondition
  refine .ifNext (fun ts₂ hquestion => ?_) (.pure _ _)
    (startable_ifNext_pure fun _ htail => htail.question) (.inr fun _ htail => htail.question)
  have h₂ := hquestion.length_lt
  have hpure (x y : Expr ρ) : Startable (reader (choice context) >>= fun z =>
      (pure (.conditional x y z) : Reader ρ (Expr ρ))) :=
    startable_choice.bind fun _ => .pure _
  refine (foresees_choice ts₂).bind (fun ifTrue ts₃ hifTrue => ?_) fun _ =>
    (startable_closing (by decide)).bind fun _ => hpure _ _
  have h₃ := length_lt_of_reader hifTrue
  refine (foresees_closing (by decide) _ _ ts₃).bind (fun _ ts₄ hcolon => ?_) fun _ => hpure _ _
  have h₄ := length_lt_of_closing hcolon
  exact (foresees_choice ts₄).bind (fun _ _ _ => .pure _ _) fun _ => .pure _
termination_by (ts.length, 4)

/-- Operands joined by operators are foreseen. -/
theorem foresees_operands (least : Nat) (ts : List (Token ρ)) :
    Foresees context (reader (operands context least)) ts := by
  rw [reader_operands]
  refine (foresees_signed ts).bind (fun left ts₁ hleft => ?_) fun _ => startable_climb _ _
  have h₁ := length_lt_of_reader hleft
  exact foresees_climb least left ts₁
termination_by (ts.length, 3)

/-- The operators after an operand are foreseen. -/
theorem foresees_climb (least : Nat) (left : Expr ρ) (ts : List (Token ρ)) :
    Foresees context (reader (climb context least left)) ts := by
  rcases stopsBelow_or least ts with hstops | ⟨op, ts₁, hop, hleast⟩
  · exact (Foresees.pure left ts).ofHead
      (fun ts' hts' => reader_climb_of_stops (hstops.congr hts')) (startable_climb least left)
      (.inr fun _ htail => reader_climb_of_stops (.of_ends htail))
  · have h₁ := hop.length_lt
    have hright : Foresees context (reader (operands context (rightStrength op)) >>= fun right =>
        reader (climb context least (.binary op left right))) ts₁ := by
      refine (foresees_operands _ ts₁).bind (fun right ts₂ hright => ?_) fun _ => startable_climb _ _
      have h₂ := length_lt_of_reader hright
      exact foresees_climb least _ ts₂
    obtain ⟨s, lexeme, offset, _, hs⟩ := hop
    exact hright.token fun ts' => reader_climb_of_operator ⟨s, lexeme, offset, ts', hs⟩ hleast
termination_by (ts.length, 0)

/-- An operand with its signs is foreseen. -/
theorem foresees_signed (ts : List (Token ρ)) :
    Foresees context (reader (signed context)) ts := by
  rcases sign_or_unsigned ts with ⟨op, ts₁, hsign⟩ | hunsigned
  · have h₁ := hsign.length_lt
    have hoperand : Foresees context
        (reader (signed context) >>= fun x => pure (Expr.unary op x)) ts₁ :=
      (foresees_signed ts₁).bind (fun _ _ _ => .pure _ _) fun _ => .pure _
    obtain ⟨s, lexeme, offset, _, hs⟩ := hsign
    exact hoperand.token fun ts' => reader_signed_of_sign ⟨s, lexeme, offset, ts', hs⟩
  · exact (foresees_primary ts).ofHead
      (fun ts' hts' => reader_signed_of_unsigned (hunsigned.congr hts')) startable_signed
      (.inl fun _ _ => length_lt_of_reader)
termination_by (ts.length, 2)

/-- An operand without signs is foreseen. -/
theorem foresees_primary (ts : List (Token ρ)) :
    Foresees context (reader (primary context)) ts := by
  cases ts with
  | nil =>
    refine .unexpected .operand (fun ts' hts' => ?_) startable_primary
    rw [List.head?_eq_none_iff.mp hts']
    exact reader_primary_nil
  | cons t ts =>
    obtain ⟨kind, lexeme, offset⟩ := t
    cases kind with
    | number v =>
      exact .token (fun ts' => reader_primary_number lexeme offset ts' v) (.pure (Expr.constant v) ts)
    | identifier =>
      refine .token (fun ts' => reader_primary_identifier lexeme offset ts') ?_
      refine .ifNext (fun ts₁ hopen => ?_) (.pure _ _)
        (startable_ifNext_pure fun _ htail => htail.leftParen) (.inr fun _ htail => htail.leftParen)
      have h₁ := hopen.length_lt
      exact foresees_call lexeme ts₁
    | symbol s =>
      by_cases hleftParen : s = .leftParen
      · subst hleftParen
        refine .token (fun ts' => reader_primary_leftParen lexeme offset ts') ?_
        exact (foresees_choice ts).bind (fun _ _ _ => foresees_closing (by decide) _ _ _)
          fun _ => startable_closing (by decide)
      · by_cases hatSign : s = .atSign
        · subst hatSign
          refine .token (fun ts' => reader_primary_atSign lexeme offset ts') ?_
          exact (foresees_property ts).bind (fun _ _ _ => .pure _ _) fun _ => .pure _
        · refine .unexpected .operand (fun ts' hts' => ?_) startable_primary
          obtain ⟨after, rfl⟩ := List.head?_eq_some_iff.mp hts'
          exact reader_primary_symbol lexeme offset after hleftParen hatSign
termination_by (ts.length, 1)

/-- A call is foreseen. -/
theorem foresees_call (name : String) (ts : List (Token ρ)) :
    Foresees context (reader (call context name)) ts := by
  by_cases hvoltage : Grammar.VoltageWord name
  · rw [reader_call_voltage hvoltage]
    exact (foresees_voltage ts).bind (fun _ _ _ => .pure _ _) fun _ => .pure _
  · by_cases hcurrent : Grammar.CurrentWord name
    · rw [reader_call_current hvoltage hcurrent]
      exact (foresees_current ts).bind (fun _ _ _ => .pure _ _) fun _ => .pure _
    · have hargs : Foresees context
          (reader (arguments context) >>= fun args => pure (Expr.call name args)) ts :=
        (foresees_arguments ts).bind (fun _ _ _ => .pure _ _) fun _ => .pure _
      rw [reader_call hvoltage hcurrent]
      refine .ifNext (fun _ _ => .pure _ _) hargs ?_ (.inl fun x rest hx => ?_)
      · exact ⟨[⟨.symbol .rightParen, "", 0⟩], .call name [], fun tail _ =>
          ⟨Closes.ends (by decide) ⟨_, _, tail⟩, ifNext_of_sym ⟨_, _, tail⟩⟩⟩
      · obtain ⟨args, hargs, -⟩ := bind_pure_eq_ok.mp hx
        exact length_lt_of_reader hargs
termination_by (ts.length, 6)

/-- Arguments are foreseen. -/
theorem foresees_arguments (ts : List (Token ρ)) :
    Foresees context (reader (arguments context)) ts := by
  rw [reader_arguments]
  refine (foresees_choice ts).bind (fun first ts₁ hfirst => ?_) fun _ =>
    startable_ifNext_closing (by decide) (by decide)
  have h₁ := length_lt_of_reader hfirst
  refine .ifNext (fun ts₂ hcomma => ?_) (foresees_closing (by decide) _ _ ts₁)
    (startable_ifNext_closing (by decide) (by decide)) (.inl fun _ _ => length_lt_of_closing)
  have h₂ := hcomma.length_lt
  exact (foresees_arguments ts₂).bind (fun _ _ _ => .pure _ _) fun _ => .pure _
termination_by (ts.length, 5)

end

/-! ### Errors of whole texts -/

variable {constant? : String → Option ρ}

/-- The parser reads all of the tokens. -/
def Accepts (constant? : String → Option ρ) (ts : List (Token ρ)) : Prop :=
  ∃ stop x, whole ⟨constant?, stop⟩ ts = .ok x

/-- Where the text ends is of no account for what is accepted. -/
theorem accepts_iff (stop : Nat) :
    Accepts constant? ts ↔ ∃ x, reader (choice ⟨constant?, stop⟩) ts = .ok (x, []) := by
  constructor
  · rintro ⟨stop', x, hx⟩
    rw [whole_eq_ok_iff] at hx
    exact ⟨x, reader_eq_ok.mpr (choice_complete hx ends_nil)⟩
  · rintro ⟨x, hx⟩
    exact ⟨stop, x, (whole_eq_ok_iff _).mpr (choice_sound (reader_eq_ok.mp hx))⟩

/-- The first token that cannot be right, by its place: what stands before it can be completed,
and together with it cannot.  If all tokens can be completed and yet are not accepted, this is
the end of the text. -/
inductive FirstWrong (constant? : String → Option ρ) (stop : Nat) (ts : List (Token ρ)) :
    Nat → Prop
  /-- A token. -/
  | token (before t after) : ts = before ++ t :: after →
    (∃ more, Accepts constant? (before ++ more)) →
    (∀ more, ¬Accepts constant? (before ++ t :: more)) → FirstWrong constant? stop ts t.offset
  /-- The end of the text. -/
  | ending : (∃ more, Accepts constant? (ts ++ more)) → ¬Accepts constant? ts →
    FirstWrong constant? stop ts stop

/-- A choice with nothing after it is the whole. -/
theorem whole_of_ok {x : Expr ρ} (h : reader (choice context) ts = .ok (x, [])) :
    whole context ts = .ok x := by
  rw [whole_eq_ok_iff]
  exact choice_sound (reader_eq_ok.mp h)

/-- What comes after a choice is the error. -/
theorem whole_of_trailing {x : Expr ρ} {t : Token ρ}
    (h : reader (choice context) ts = .ok (x, t :: rest)) :
    whole context ts = .error (.trailingToken t.lexeme t.offset) := by
  obtain ⟨p, hp, -, hrest⟩ := reader_eq_ok.mp h
  simp only [whole, hp, hrest]

/-- An error in the choice is the error. -/
theorem whole_of_error {e : ParseError} (h : reader (choice context) ts = .error e) :
    whole context ts = .error e := by
  simp only [whole, eq_error_of_reader h]

/-- What the parser does not read to the end has a first wrong token, and the error is there. -/
theorem whole_error {stop : Nat} {e : ParseError} (h : whole ⟨constant?, stop⟩ ts = .error e) :
    e.character? = none ∧ FirstWrong constant? stop ts e.offset := by
  have hrejected {ts : List (Token ρ)} {e : ParseError}
      (h : reader (choice ⟨constant?, stop⟩) ts = .error e) : ¬Accepts constant? ts := by
    rw [accepts_iff stop]
    rintro ⟨x, hx⟩
    rw [h] at hx
    cases hx
  have hforesees : Foresees ⟨constant?, stop⟩ (reader (choice ⟨constant?, stop⟩)) ts :=
    foresees_choice ts
  cases hforesees with
  | reads x read rest hts hread =>
    have hx := hread rest (.inl rfl)
    rw [← hts] at hx
    cases rest with
    | nil =>
      rw [whole_of_ok hx] at h
      cases h
    | cons t after =>
      -- What was read is an expression already, and `t` cannot continue it.
      rw [whole_of_trailing hx] at h
      cases h
      refine ⟨rfl, .token read t after hts ⟨[], (accepts_iff stop).mpr ⟨x, ?_⟩⟩ fun more => ?_⟩
      · exact hread [] (.inr ends_nil)
      · rw [accepts_iff stop]
        rintro ⟨y, hy⟩
        rw [hread (t :: more) (.inl rfl)] at hy
        cases hy
  | fails wanted read rest hts herror hmore =>
    have he := herror rest rfl
    rw [← hts] at he
    rw [whole_of_error he] at h
    cases h
    obtain ⟨more, y, hmore⟩ := hmore
    have hviable : ∃ more, Accepts constant? (read ++ more) :=
      ⟨more ++ [], (accepts_iff stop).mpr ⟨y, hmore [] ends_nil⟩⟩
    cases rest with
    | nil =>
      rw [List.append_nil] at hts
      subst hts
      exact ⟨rfl, .ending hviable (hrejected he)⟩
    | cons t after =>
      exact ⟨rfl, .token read t after hts hviable fun more => hrejected (herror (t :: more) rfl)⟩

/-- **Syntax errors stand at the first token that cannot be right.**  Whatever constants have a
name, a text that consists of tokens and is no expression has such a place: the tokens before
it are the beginning of something that is accepted, and nothing accepted begins with these
and the token there; or, at the end of the text, its tokens can be completed, but are not
accepted as they are. -/
theorem parse_error_at_firstWrong [Scalar ρ] (constant? : String → Option ρ) {text : String}
    {ts : Tokens ρ} {e : ParseError} (hts : Tokens.ofText text = .ok ts)
    (he : Expr.parse constant? text = .error e) :
    e.character? = none ∧ FirstWrong constant? text.utf8ByteSize ts.tokens e.offset := by
  simp only [Expr.parse, hts] at he
  rw [← Lexer.stop_ofText hts]
  exact whole_error he

/-- A comma where the parenthesis around a word must end. -/
def strayComma : String := "(a,"

/-- Its tokens. -/
def strayCommaTokens : List (Token Double) :=
  [⟨.symbol .leftParen, "(", 0⟩, ⟨.identifier, "a", 1⟩, ⟨.symbol .comma, ",", 2⟩]

/-- The text has these tokens. -/
theorem ofText_strayComma :
    (Tokens.ofText strayComma : Except ParseError (Tokens Double)) = .ok ⟨strayCommaTokens, 3⟩ := by
  have hopen : Lexer.cut 0 '(' ['a', ','] =
      .ok (⟨.symbol .leftParen, ['('], ['a', ',']⟩ : Lexer.Cut Double) := rfl
  have hword : Lexer.cut 1 'a' [','] =
      .ok (⟨.identifier, ['a'], [',']⟩ : Lexer.Cut Double) := rfl
  have hcomma : Lexer.cut 2 ',' [] = .ok (⟨.symbol .comma, [','], []⟩ : Lexer.Cut Double) := rfl
  have hscan : (Lexer.scan strayComma : Lexer.Scan Double) = ⟨strayCommaTokens, .ok 3⟩ := by
    rw [Lexer.scan, show strayComma.toList = ['(', 'a', ','] by decide,
      Lexer.scanFrom_cut (by decide) hopen]
    show ((Lexer.scanFrom 1 ['a', ','] : Lexer.Scan Double).prepend _) = _
    rw [Lexer.scanFrom_cut (by decide) hword]
    show (((Lexer.scanFrom 2 [','] : Lexer.Scan Double).prepend _).prepend _) = _
    rw [Lexer.scanFrom_cut (by decide) hcomma, Lexer.scanFrom_eq]
    rfl
  rw [Tokens.ofText, hscan]

/-- The parser reports the comma. -/
theorem parse_strayComma :
    Expr.parse (fun _ => none) strayComma =
      (.error (.unexpectedToken .rightParen "," 2) : Except ParseError (Expr Double)) := by
  have hword : reader (choice ⟨fun _ => none, 3⟩) strayCommaTokens.tail =
      .ok (.var (.named "a"), strayCommaTokens.drop 2) :=
    reader_eq_ok.mpr (choice_complete (.operands (.of_le (by decide) (by decide) (Nat.le_refl 7)
      (.signed (.primary (.named _ _ rfl))))) (Closes.ends (s := .comma) (by decide) ⟨_, _, _⟩))
  have hprimary : reader (primary ⟨fun _ => none, 3⟩) strayCommaTokens =
      .error (.unexpectedToken .rightParen "," 2) := by
    rw [strayCommaTokens, reader_primary_leftParen]
    exact (bind_of_ok hword).trans (closing_of_error rfl)
  have hchoice : reader (choice ⟨fun _ => none, 3⟩) strayCommaTokens =
      .error (.unexpectedToken .rightParen "," 2) := by
    rw [reader_choice]
    refine bind_of_error ?_
    rw [reader_operands]
    refine bind_of_error ?_
    rw [reader_signed_of_unsigned]
    · exact hprimary
    · rintro op _ ⟨_, _, _, _, hs⟩
      cases hs
  simp only [Expr.parse, ofText_strayComma]
  exact whole_of_error hchoice

/-- The comma is wrong: behind `(a` a parenthesis must be closed, or an operator come. -/
theorem strayComma_firstWrong :
    (Tokens.ofText strayComma : Except ParseError (Tokens Double)) = .ok ⟨strayCommaTokens, 3⟩ ∧
    Expr.parse (fun _ => none) strayComma =
      (.error (.unexpectedToken .rightParen "," 2) : Except ParseError (Expr Double)) ∧
    FirstWrong (fun _ => none) strayComma.utf8ByteSize strayCommaTokens 2 :=
  ⟨ofText_strayComma, parse_strayComma,
    (parse_error_at_firstWrong (fun _ => none) ofText_strayComma parse_strayComma).2⟩

end Parser
end Expr
end CircuitExpr
