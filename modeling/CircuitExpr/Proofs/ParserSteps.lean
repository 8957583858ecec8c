/-
# What each function of the parser reads

The functions of the parser return what was read with the tokens after it and a
bound on their number.  `Reads` says what was read and what is left, without the
bound, and each function has one statement here: it reads `x` and leaves `rest`
exactly when the functions that it calls read the parts.  Which reader the function is
says all of this; only the parts have to be named.
-/

import CircuitExpr.Proofs.ParserReaders

namespace CircuitExpr
namespace Expr
namespace Parser

open Grammar (Sym Name Lacks)

variable {ρ α : Type} {context : Context ρ} {ts rest : List (Token ρ)}

/-! ### The special forms -/

/-- The second node of a voltage is read after a comma, and is absent without one. -/
theorem reads_reference {against : Option String} :
    Reads (reference context ts) against rest ↔
      (∃ node ts₁, Sym .comma ts ts₁ ∧ Name ts₁ node rest ∧ against = some node) ∨
        Lacks .comma ts ∧ rest = ts ∧ against = none := by
  rw [← reader_eq_ok (f := reference context), reader_reference]
  simp only [ifNext_eq_ok, bind_pure_eq_ok, reader_eq_ok, reads_name, pure_eq_ok]
  constructor
  · rintro (⟨ts₁, hcomma, node, hnode, rfl⟩ | ⟨hlacks, rfl, rfl⟩)
    · exact .inl ⟨node, ts₁, hcomma, hnode, rfl⟩
    · exact .inr ⟨hlacks, rfl, rfl⟩
  · rintro (⟨node, ts₁, hcomma, hnode, rfl⟩ | ⟨hlacks, rfl, rfl⟩)
    · exact .inl ⟨ts₁, hcomma, node, hnode, rfl⟩
    · exact .inr ⟨hlacks, rfl, rfl⟩

/-- A voltage is a node, possibly a second one, and a closing parenthesis. -/
theorem reads_voltage {v : Variable} :
    Reads (voltage context ts) v rest ↔
      ∃ node ts₁ against ts₂, Name ts node ts₁ ∧ Reads (reference context ts₁) against ts₂ ∧
        Sym .rightParen ts₂ rest ∧ v = ⟨.voltage, node, against⟩ := by
  rw [← reader_eq_ok (f := voltage context), reader_voltage]
  simp only [reader_bind_eq_ok, reader_eq_ok, reads_name, closing_eq_ok, exists_and_left]

/-- A current is a device and a closing parenthesis. -/
theorem reads_current {v : Variable} :
    Reads (current context ts) v rest ↔
      ∃ device ts₁, Name ts device ts₁ ∧ Sym .rightParen ts₁ rest ∧ v = .current device := by
  rw [← reader_eq_ok (f := current context), reader_current]
  simp only [reader_bind_eq_ok, reader_eq_ok, reads_name, closing_eq_ok]

/-- A property is a device and a name in brackets. -/
theorem reads_property {v : Variable} :
    Reads (property context ts) v rest ↔
      ∃ device ts₁ ts₂ property ts₃, Name ts device ts₁ ∧ Sym .leftBracket ts₁ ts₂ ∧
        Name ts₂ property ts₃ ∧ Sym .rightBracket ts₃ rest ∧
        v = .property device property := by
  rw [← reader_eq_ok (f := property context), reader_property]
  rw [reader_bind_eq_ok]
  simp only [closing_bind_eq_ok]
  simp only [reader_bind_eq_ok, reader_eq_ok, reads_name, closing_eq_ok, exists_and_left]

/-! ### The functions that call each other -/

variable {x : Expr ρ}

/-- A choice is operands, with two choices behind them if a question mark follows. -/
theorem reads_choice :
    Reads (choice context ts) x rest ↔
      (Reads (operands context 1 ts) x rest ∧ Lacks .question rest) ∨
        ∃ c ts₁ ts₂ t ts₃ ts₄ f, Reads (operands context 1 ts) c ts₁ ∧ Sym .question ts₁ ts₂ ∧
          Reads (choice context ts₂) t ts₃ ∧ Sym .colon ts₃ ts₄ ∧
          Reads (choice context ts₄) f rest ∧ x = .conditional c t f := by
  rw [← reader_eq_ok (f := choice context), reader_choice]
  simp only [reader_bind_eq_ok, ifNext_eq_ok, reader_eq_ok, closing_eq_ok, pure_eq_ok]
  constructor
  · rintro ⟨c, ts₁, hc, ⟨ts₂, hquestion, t, ts₃, ht, _, ts₄, ⟨hcolon, -⟩, f, _, hf, rfl, rfl⟩ |
      ⟨hlacks, rfl, rfl⟩⟩
    · exact .inr ⟨c, ts₁, ts₂, t, ts₃, ts₄, f, hc, hquestion, ht, hcolon, hf, rfl⟩
    · exact .inl ⟨hc, hlacks⟩
  · rintro (⟨hx, hlacks⟩ | ⟨c, ts₁, ts₂, t, ts₃, ts₄, f, hc, hquestion, ht, hcolon, hf, rfl⟩)
    · exact ⟨x, rest, hx, .inr ⟨hlacks, rfl, rfl⟩⟩
    · exact ⟨c, ts₁, hc, .inl ⟨ts₂, hquestion, t, ts₃, ht, (), ts₄, ⟨hcolon, trivial⟩, f, rest,
        hf, rfl, rfl⟩⟩

/-- Operands are a signed operand, which climbing goes on from. -/
theorem reads_operands {least : Nat} :
    Reads (operands context least ts) x rest ↔
      ∃ left ts₁, Reads (signed context ts) left ts₁ ∧
        Reads (climb context least left ts₁) x rest := by
  rw [← reader_eq_ok (f := operands context least), reader_operands]
  simp only [reader_bind_eq_ok, reader_eq_ok]

/-- Climbing stops before an operator that is too weak; else it reads the right operand
and goes on with what it has. -/
theorem reads_climb {least : Nat} {left : Expr ρ} :
    Reads (climb context least left ts) x rest ↔
      (StopsBelow least ts ∧ x = left ∧ rest = ts) ∨
        ∃ op ts₁ right ts₂, OperatorAt op ts ts₁ ∧ least ≤ op.precedence ∧
          Reads (operands context (rightStrength op) ts₁) right ts₂ ∧
          Reads (climb context least (.binary op left right) ts₂) x rest := by
  rw [← reader_eq_ok (f := climb context least left)]
  rcases stopsBelow_or least ts with hstops | ⟨op, ts₁, hop, hleast⟩
  · rw [reader_climb_of_stops hstops]
    constructor
    · rintro ⟨⟩
      exact .inl ⟨hstops, rfl, rfl⟩
    · rintro (⟨-, rfl, rfl⟩ | ⟨op, ts₁, _, _, hop, hleast, -⟩)
      · rfl
      · exact absurd (hstops op ts₁ hop) (Nat.not_lt.mpr hleast)
  · rw [reader_climb_of_operator hop hleast]
    simp only [reader_bind_eq_ok, reader_eq_ok]
    constructor
    · rintro ⟨right, ts₂, hright, hwhole⟩
      exact .inr ⟨op, ts₁, right, ts₂, hop, hleast, hright, hwhole⟩
    · rintro (⟨hstops, -⟩ | ⟨op', ts₁', right, ts₂, hop', -, hright, hwhole⟩)
      · exact absurd (hstops op ts₁ hop) (Nat.not_lt.mpr hleast)
      · obtain ⟨rfl, rfl⟩ := operatorAt_unique hop hop'
        exact ⟨right, ts₂, hright, hwhole⟩

/-- An operand is read with all operators before it. -/
theorem reads_signed :
    Reads (signed context ts) x rest ↔
      (∃ op ts₁ y, Grammar.Sign op ts ts₁ ∧ Reads (signed context ts₁) y rest ∧ x = .unary op y) ∨
        Unsigned ts ∧ Reads (primary context ts) x rest := by
  rw [← reader_eq_ok (f := signed context)]
  rcases sign_or_unsigned ts with ⟨op, ts₁, hsign⟩ | hunsigned
  · rw [reader_signed_of_sign hsign]
    simp only [bind_pure_eq_ok, reader_eq_ok]
    constructor
    · rintro ⟨y, hy, rfl⟩
      exact .inl ⟨op, ts₁, y, hsign, hy, rfl⟩
    · rintro (⟨op', ts₁', y, hsign', hy, rfl⟩ | ⟨hunsigned, -⟩)
      · obtain ⟨rfl, rfl⟩ := sign_unique hsign hsign'
        exact ⟨y, hy, rfl⟩
      · exact absurd hsign (hunsigned op ts₁)
  · rw [reader_signed_of_unsigned hunsigned, reader_eq_ok]
    constructor
    · exact fun hx => .inr ⟨hunsigned, hx⟩
    · rintro (⟨op, ts₁, _, hsign, -⟩ | ⟨-, hx⟩)
      · exact absurd hsign (hunsigned op ts₁)
      · exact hx

/-- The five forms of an operand without operators before it. -/
theorem reads_primary :
    Reads (primary context ts) x rest ↔
      (∃ v lexeme offset, ts = ⟨.number v, lexeme, offset⟩ :: rest ∧ x = .constant v) ∨
      (∃ ts₁ ts₂, Sym .leftParen ts ts₁ ∧ Reads (choice context ts₁) x ts₂ ∧
        Sym .rightParen ts₂ rest) ∨
      (∃ ts₁ v, Sym .atSign ts ts₁ ∧ Reads (property context ts₁) v rest ∧ x = .var v) ∨
      (∃ name offset, ts = ⟨.identifier, name, offset⟩ :: rest ∧ Lacks .leftParen rest ∧
        x = word context name) ∨
      ∃ name offset ts₁ ts₂, ts = ⟨.identifier, name, offset⟩ :: ts₁ ∧ Sym .leftParen ts₁ ts₂ ∧
        Reads (call context name ts₂) x rest := by
  rw [← reader_eq_ok (f := primary context)]
  constructor
  · intro h
    -- The kind of the first token settles the form; only a word has two.
    rcases ts with _ | ⟨⟨kind, lexeme, offset⟩, ts⟩
    · rw [reader_primary_nil] at h
      cases h
    cases kind with
    | number v =>
      rw [reader_primary_number] at h
      cases h
      exact .inl ⟨v, lexeme, offset, rfl, rfl⟩
    | identifier =>
      rw [reader_primary_identifier, ifNext_eq_ok] at h
      simp only [reader_eq_ok, pure_eq_ok] at h
      obtain ⟨ts₁, hopen, hcall⟩ | ⟨hlacks, rfl, rfl⟩ := h
      · exact .inr (.inr (.inr (.inr ⟨lexeme, offset, ts, ts₁, rfl, hopen, hcall⟩)))
      · exact .inr (.inr (.inr (.inl ⟨lexeme, offset, rfl, hlacks, rfl⟩)))
    | symbol s =>
      by_cases hleftParen : s = .leftParen
      · subst hleftParen
        rw [reader_primary_leftParen] at h
        simp only [reader_bind_eq_ok, reader_eq_ok, closing_eq_ok] at h
        obtain ⟨y, ts₂, hy, hclose, rfl⟩ := h
        exact .inr (.inl ⟨ts, ts₂, ⟨lexeme, offset, ts⟩, hy, hclose⟩)
      by_cases hatSign : s = .atSign
      · subst hatSign
        rw [reader_primary_atSign] at h
        simp only [bind_pure_eq_ok, reader_eq_ok] at h
        obtain ⟨v, hv, rfl⟩ := h
        exact .inr (.inr (.inl ⟨ts, v, ⟨lexeme, offset, ts⟩, hv, rfl⟩))
      rw [reader_primary_symbol lexeme offset ts hleftParen hatSign] at h
      cases h
  · rintro (⟨v, lexeme, offset, rfl, rfl⟩ | ⟨_, ts₂, ⟨lexeme, offset, ts₁⟩, hx, hclose⟩ |
      ⟨_, v, ⟨lexeme, offset, ts₁⟩, hv, rfl⟩ | ⟨name, offset, rfl, hlacks, rfl⟩ |
      ⟨name, offset, ts₁, ts₂, rfl, hopen, hcall⟩)
    · exact reader_primary_number lexeme offset rest v
    · rw [reader_primary_leftParen]
      simp only [reader_bind_eq_ok, reader_eq_ok, closing_eq_ok]
      exact ⟨x, ts₂, hx, hclose, rfl⟩
    · rw [reader_primary_atSign]
      simp only [bind_pure_eq_ok, reader_eq_ok]
      exact ⟨v, hv, rfl⟩
    · rw [reader_primary_identifier, ifNext_of_lacks hlacks]
      rfl
    · rw [reader_primary_identifier, ifNext_of_sym hopen]
      exact reader_eq_ok.mpr hcall

section Call

variable {name : String}

/-- A call of the word for voltages reads one. -/
theorem reads_call_voltage (hname : Grammar.VoltageWord name) :
    Reads (call context name ts) x rest ↔
      ∃ v, Reads (voltage context ts) v rest ∧ x = .var v := by
  rw [← reader_eq_ok (f := call context name), reader_call_voltage hname]
  simp only [bind_pure_eq_ok, reader_eq_ok]

/-- A call of the word for currents reads one. -/
theorem reads_call_current (hvoltage : ¬Grammar.VoltageWord name)
    (hname : Grammar.CurrentWord name) :
    Reads (call context name ts) x rest ↔
      ∃ v, Reads (current context ts) v rest ∧ x = .var v := by
  rw [← reader_eq_ok (f := call context name), reader_call_current hvoltage hname]
  simp only [bind_pure_eq_ok, reader_eq_ok]

/-- A call has a closing parenthesis or arguments, unless its word announces a voltage or
a current. -/
theorem reads_call (hvoltage : ¬Grammar.VoltageWord name)
    (hcurrent : ¬Grammar.CurrentWord name) :
    Reads (call context name ts) x rest ↔
      (Sym .rightParen ts rest ∧ x = .call name []) ∨
        Lacks .rightParen ts ∧ ∃ args, Reads (arguments context ts) args rest ∧
          x = .call name args := by
  rw [← reader_eq_ok (f := call context name), reader_call hvoltage hcurrent]
  simp only [ifNext_eq_ok, bind_pure_eq_ok, reader_eq_ok, pure_eq_ok]
  refine or_congr_left ?_
  constructor
  · rintro ⟨_, hclose, rfl, rfl⟩
    exact ⟨hclose, rfl⟩
  · rintro ⟨hclose, rfl⟩
    exact ⟨rest, hclose, rfl, rfl⟩

end Call

/-- Arguments are read up to the closing parenthesis. -/
theorem reads_arguments {xs : List (Expr ρ)} :
    Reads (arguments context ts) xs rest ↔
      (∃ y ts₁ ts₂ ys, Reads (choice context ts) y ts₁ ∧ Sym .comma ts₁ ts₂ ∧
        Reads (arguments context ts₂) ys rest ∧ xs = y :: ys) ∨
      ∃ y ts₁, Reads (choice context ts) y ts₁ ∧ Sym .rightParen ts₁ rest ∧ xs = [y] := by
  rw [← reader_eq_ok (f := arguments context), reader_arguments]
  simp only [reader_bind_eq_ok, ifNext_eq_ok, reader_eq_ok, closing_eq_ok, pure_eq_ok]
  constructor
  · rintro ⟨y, ts₁, hy, ⟨ts₂, hcomma, ys, _, hys, rfl, rfl⟩ | ⟨-, hclose, rfl⟩⟩
    · exact .inl ⟨y, ts₁, ts₂, ys, hy, hcomma, hys, rfl⟩
    · exact .inr ⟨y, ts₁, hy, hclose, rfl⟩
  · rintro (⟨y, ts₁, ts₂, ys, hy, hcomma, hys, rfl⟩ | ⟨y, ts₁, hy, hclose, rfl⟩)
    · exact ⟨y, ts₁, hy, .inl ⟨ts₂, hcomma, ys, rest, hys, rfl, rfl⟩⟩
    · exact ⟨y, ts₁, hy, .inr ⟨hclose.lacks (by decide), hclose, rfl⟩⟩

end Parser
end Expr
end CircuitExpr
