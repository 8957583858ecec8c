/-
# The parser as readers

Each function of the parser is a reader made of the readers that it calls, errors
included: one after another, or a branch that the next token decides on.  The
statements here give these forms, and they are all that is known of the functions
afterwards: what a function reads, what it foresees and how it moves its errors follows
from what its parts do.
-/

import CircuitExpr.Proofs.Readers

namespace CircuitExpr
namespace Expr
namespace Parser

open Grammar (Sym Name Lacks)

variable {ρ α β : Type} {context : Context ρ} {ts rest : List (Token ρ)}

/-! ### Single tokens -/

/-- A symbol is read where it stands. -/
theorem reads_symbol (context : Context ρ) (s : Symbol) (wanted : Wanted) :
    Reads (symbol context s wanted ts) () rest ↔ Sym s ts rest := by
  unfold symbol
  split
  · rename_i s' lexeme offset rest'
    by_cases hs : s' = s
    · subst hs
      rw [if_pos rfl, reads_ok]
      constructor
      · rintro ⟨-, rfl⟩
        exact ⟨_, _, _⟩
      · rintro ⟨_, _, _⟩
        exact ⟨rfl, rfl⟩
    · rw [if_neg hs]
      refine iff_of_false not_reads_error ?_
      rintro ⟨_, _, _⟩
      exact hs rfl
  · rename_i hts
    refine iff_of_false not_reads_error ?_
    rintro ⟨lexeme, offset, rest⟩
    exact hts _ _ _ _ rfl

/-- Where it does not stand, the error says what was wanted. -/
theorem symbol_of_lacks {s : Symbol} (wanted : Wanted) (h : Lacks s ts) :
    symbol context s wanted ts = .error (unexpected context wanted ts) := by
  unfold symbol
  split
  · rename_i s' lexeme offset rest'
    rw [if_neg]
    rintro rfl
    exact h _ ⟨lexeme, offset, rest'⟩
  · rfl

/-- A name is read where one stands. -/
theorem reads_name (context : Context ρ) (wanted : Wanted) {word : String} :
    Reads (name context wanted ts) word rest ↔ Name ts word rest := by
  unfold name
  split
  · rw [reads_ok]
    constructor
    · rintro ⟨rfl, rfl⟩
      exact .identifier _ _ _
    · rintro ⟨⟩
      exact ⟨rfl, rfl⟩
  · rw [reads_ok]
    constructor
    · rintro ⟨rfl, rfl⟩
      exact .number _ _ _ _
    · rintro ⟨⟩
      exact ⟨rfl, rfl⟩
  · rename_i hword hnumber
    refine iff_of_false not_reads_error ?_
    rintro (⟨lexeme, offset, rest⟩ | ⟨x, lexeme, offset, rest⟩)
    · exact hword _ _ _ rfl
    · exact hnumber _ _ _ _ rfl

/-- Reads the symbol `s`, and has `x` as its result. -/
def closing (context : Context ρ) (s : Symbol) (wanted : Wanted) (x : α) : Reader ρ α :=
  reader (symbol context s wanted) >>= fun _ => pure x

section Closing

variable {s : Symbol} {wanted : Wanted} {x : α}

/-- An error at the closing symbol is the outcome. -/
theorem closing_of_error {e : ParseError} (h : symbol context s wanted ts = .error e) :
    closing context s wanted x ts = .error e :=
  bind_of_error (reader_error h)

/-- What closes gives back what it was given, after the symbol. -/
theorem closing_eq_ok {y : α} :
    closing context s wanted x ts = .ok (y, rest) ↔ Sym s ts rest ∧ y = x := by
  rw [← reads_symbol context s wanted, ← reader_eq_ok (f := symbol context s wanted)]
  simp only [closing, reader_bind_eq_ok, pure_eq_ok]
  constructor
  · rintro ⟨_, _, hs, rfl, rfl⟩
    exact ⟨hs, rfl⟩
  · rintro ⟨hs, rfl⟩
    exact ⟨(), _, hs, rfl, rfl⟩

/-- Closing succeeds where the symbol stands. -/
theorem closing_of_sym (h : Sym s ts rest) : closing context s wanted x ts = .ok (x, rest) :=
  closing_eq_ok.mpr ⟨h, rfl⟩

/-- What is closed has read a token. -/
theorem length_lt_of_closing {y : α} (h : closing context s wanted x ts = .ok (y, rest)) :
    rest.length < ts.length :=
  (closing_eq_ok.mp h).1.length_lt

/-- What is read behind a symbol. -/
theorem closing_bind (g : α → Reader ρ β) :
    closing context s wanted x >>= g = reader (symbol context s wanted) >>= fun _ => g x := by
  unfold closing
  simp only [bind_assoc, pure_bind]

/-- What follows on closing comes out after the symbol. -/
theorem closing_bind_eq_ok {g : α → Reader ρ β} {y : β} :
    (closing context s wanted x >>= g) ts = .ok (y, rest) ↔
      ∃ ts₁, Sym s ts ts₁ ∧ g x ts₁ = .ok (y, rest) := by
  simp only [reader_bind_eq_ok, closing_eq_ok]
  constructor
  · rintro ⟨_, ts₁, ⟨hs, rfl⟩, hg⟩
    exact ⟨ts₁, hs, hg⟩
  · rintro ⟨ts₁, hs, hg⟩
    exact ⟨x, ts₁, ⟨hs, rfl⟩, hg⟩

end Closing

/-! ### The special forms -/

/-- A reference node is a comma and a name, or nothing. -/
theorem reader_reference :
    reader (reference context) =
      ifNext .comma (reader (name context .referenceNodeName) >>= fun node => pure (some node))
        (pure none) := by
  funext ts
  rcases sym_or_lacks .comma ts with ⟨rest, lexeme, offset, _⟩ | hlacks
  · rw [ifNext_of_sym ⟨lexeme, offset, rest⟩]
    refine eq_bind (fun e h => reader_error (by simp only [reference, h])) fun node hnode => ?_
    simp only [reader, reference, hnode]
    rfl
  · rw [ifNext_of_lacks hlacks]
    unfold reader reference
    split
    · exact absurd ⟨_, _, _⟩ (hlacks _)
    · rfl

/-- A voltage is a name, perhaps a reference, and a parenthesis. -/
theorem reader_voltage :
    reader (voltage context) =
      reader (name context .nodeName) >>= fun node =>
        reader (reference context) >>= fun against =>
          closing context .rightParen .rightParen ⟨.voltage, node, against⟩ := by
  funext ts
  show (voltage context ts).map _ = _
  unfold voltage
  refine eq_bind (fun e h => by rw [h]; rfl) fun node hnode => ?_
  simp only [hnode]
  refine eq_bind (fun e h => by rw [h]; rfl) fun against hagainst => ?_
  simp only [hagainst]
  refine eq_bind (fun e h => by rw [h]; rfl) fun close hclose => ?_
  rw [hclose]
  rfl

/-- A current is a name and a parenthesis. -/
theorem reader_current :
    reader (current context) =
      reader (name context .deviceName) >>= fun device =>
        closing context .rightParen .rightParen (.current device) := by
  funext ts
  show (current context ts).map _ = _
  unfold current
  refine eq_bind (fun e h => by rw [h]; rfl) fun device hdevice => ?_
  simp only [hdevice]
  refine eq_bind (fun e h => by rw [h]; rfl) fun close hclose => ?_
  rw [hclose]
  rfl

/-- A property is two names, the second one in brackets. -/
theorem reader_property :
    reader (property context) =
      reader (name context .deviceName) >>= fun device =>
        closing context .leftBracket .leftBracket () >>= fun _ =>
          reader (name context .propertyName) >>= fun property =>
            closing context .rightBracket .rightBracket (.property device property) := by
  funext ts
  show (property context ts).map _ = _
  unfold property
  refine eq_bind (fun e h => by rw [h]; rfl) fun device hdevice => ?_
  simp only [hdevice]
  rw [closing_bind]
  refine eq_bind (fun e h => by rw [h]; rfl) fun opening hopening => ?_
  simp only [hopening]
  refine eq_bind (fun e h => by rw [h]; rfl) fun property hproperty => ?_
  simp only [hproperty]
  refine eq_bind (fun e h => by rw [h]; rfl) fun close hclose => ?_
  rw [hclose]
  rfl

/-! ### The functions that call each other -/

/-- A choice is a condition, and after a question mark two choices with a colon between them. -/
theorem reader_choice :
    reader (choice context) =
      reader (operands context 1) >>= fun condition =>
        ifNext .question
          (reader (choice context) >>= fun ifTrue =>
            closing context .colon .colon () >>= fun _ =>
              reader (choice context) >>= fun ifFalse =>
                pure (.conditional condition ifTrue ifFalse))
          (pure condition) := by
  funext ts
  show (choice context ts).map _ = _
  unfold choice
  refine eq_bind (fun e h => by rw [h]; rfl) fun condition hcondition => ?_
  simp only [hcondition, ifNext]
  cases after? .question condition.rest with
  | none => rfl
  | some r =>
    refine eq_bind (fun e h => by simp only [h]; rfl) fun ifTrue hifTrue => ?_
    simp only [hifTrue, closing_bind]
    refine eq_bind (fun e h => by rw [h]; rfl) fun colon hcolon => ?_
    simp only [hcolon]
    refine eq_bind (fun e h => by rw [h]; rfl) fun ifFalse hifFalse => ?_
    rw [hifFalse]
    rfl

/-- Operands are a signed one, and what can be climbed from there. -/
theorem reader_operands (least : Nat) :
    reader (operands context least) =
      reader (signed context) >>= fun left => reader (climb context least left) := by
  funext ts
  show (operands context least ts).map _ = _
  unfold operands
  refine eq_bind (fun e h => by rw [h]; rfl) fun left hleft => ?_
  simp only [hleft, reader]
  cases climb context least left.value left.rest <;> rfl

/-- Where no operator is strong enough, climbing stops. -/
theorem reader_climb_of_stops {least : Nat} {left : Expr ρ} (h : StopsBelow least ts) :
    reader (climb context least left) ts = .ok (left, ts) := by
  show (climb context least left ts).map _ = _
  unfold climb
  split
  · rfl
  · rename_i op ts₁ hlt hoperator
    rw [if_pos (h op ts₁ (operator?_eq_some.mp hoperator))]
    rfl

/-- An operator that is strong enough takes its right operand, and climbing goes on. -/
theorem reader_climb_of_operator {least : Nat} {left : Expr ρ} {op : BinaryOp}
    (hop : OperatorAt op ts rest) (hleast : least ≤ op.precedence) :
    reader (climb context least left) ts =
      (reader (operands context (rightStrength op)) >>= fun right =>
        reader (climb context least (.binary op left right))) rest := by
  have hoperator : operator? ts = some (op, ⟨rest, hop.length_lt⟩) := operator?_eq_some.mpr hop
  show (climb context least left ts).map _ = _
  unfold climb
  simp only [hoperator, if_neg (Nat.not_lt.mpr hleast)]
  refine eq_bind (fun e h => by rw [h]; rfl) fun right hright => ?_
  simp only [hright, reader]
  cases climb context least (.binary op left right.value) right.rest <;> rfl

/-- A sign is read before a signed operand. -/
theorem reader_signed_of_sign {op : UnaryOp} (hsign : Grammar.Sign op ts rest) :
    reader (signed context) ts = (reader (signed context) >>= fun x => pure (.unary op x)) rest := by
  obtain ⟨s, lexeme, offset, _, hs⟩ := hsign
  show (signed context (⟨.symbol s, lexeme, offset⟩ :: rest)).map _ = _
  unfold signed
  simp only [Grammar.signs_iff.mp hs]
  refine eq_bind (fun e h => by rw [h]; rfl) fun x hx => ?_
  rw [hx]
  rfl

/-- Without a sign an operand is read. -/
theorem reader_signed_of_unsigned (h : Unsigned ts) :
    reader (signed context) ts = reader (primary context) ts := by
  show (signed context ts).map _ = _
  unfold signed
  split
  · split
    · rfl
    · rename_i op hsign
      exact absurd ⟨_, _, _, _, Grammar.signs_iff.mpr hsign⟩ (h op _)
  · rfl

section Primary

variable (lexeme : String) (offset : Nat) (ts : List (Token ρ))

/-- At the end an operand is missing. -/
theorem reader_primary_nil :
    reader (primary context) [] = .error (unexpected context .operand []) :=
  reader_error (by unfold primary; rfl)

/-- A number is a constant. -/
theorem reader_primary_number (v : ρ) :
    reader (primary context) (⟨.number v, lexeme, offset⟩ :: ts) = .ok (.constant v, ts) := by
  show (primary context _).map _ = _
  unfold primary
  rfl

/-- A parenthesis holds a choice. -/
theorem reader_primary_leftParen :
    reader (primary context) (⟨.symbol .leftParen, lexeme, offset⟩ :: ts) =
      (reader (choice context) >>= fun x => closing context .rightParen .rightParen x) ts := by
  show (primary context _).map _ = _
  unfold primary
  refine eq_bind (fun e h => by simp only [h]; rfl) fun inner hinner => ?_
  simp only [hinner]
  refine eq_bind (fun e h => by rw [h]; rfl) fun close hclose => ?_
  rw [hclose]
  rfl

/-- An at sign starts a property. -/
theorem reader_primary_atSign :
    reader (primary context) (⟨.symbol .atSign, lexeme, offset⟩ :: ts) =
      (reader (property context) >>= fun v => pure (.var v)) ts := by
  show (primary context _).map _ = _
  unfold primary
  refine eq_bind (fun e h => by simp only [h]; rfl) fun v hv => ?_
  simp only [hv]
  rfl

/-- A word is a call if a parenthesis follows. -/
theorem reader_primary_identifier :
    reader (primary context) (⟨.identifier, lexeme, offset⟩ :: ts) =
      ifNext .leftParen (reader (call context lexeme)) (pure (word context lexeme)) ts := by
  show (primary context _).map _ = _
  unfold primary
  simp only [ifNext]
  cases after? .leftParen ts with
  | none => rfl
  | some r =>
    simp only [reader]
    cases call context lexeme r.1 <;> rfl

/-- Other symbols begin no operand. -/
theorem reader_primary_symbol {s : Symbol} (hleftParen : s ≠ .leftParen) (hatSign : s ≠ .atSign) :
    reader (primary context) (⟨.symbol s, lexeme, offset⟩ :: ts) =
      .error (unexpected context .operand (⟨.symbol s, lexeme, offset⟩ :: ts)) :=
  reader_error (by cases s <;> first | contradiction | (unfold primary; rfl))

end Primary

section Call

variable {name : String}

/-- The words for voltages are those of the grammar. -/
theorem isVoltage_iff : isVoltage name = true ↔ Grammar.VoltageWord name := by
  simp [isVoltage, Grammar.VoltageWord]

/-- The words for currents are those of the grammar. -/
theorem isCurrent_iff : isCurrent name = true ↔ Grammar.CurrentWord name := by
  simp [isCurrent, Grammar.CurrentWord]

/-- A call of the word for voltages reads nodes. -/
theorem reader_call_voltage (hname : Grammar.VoltageWord name) :
    reader (call context name) = reader (voltage context) >>= fun v => pure (.var v) := by
  funext ts
  show (call context name ts).map _ = _
  unfold call
  rw [if_pos (isVoltage_iff.mpr hname)]
  refine eq_bind (fun e h => by rw [h]; rfl) fun v hv => ?_
  rw [hv]
  rfl

/-- A call of the word for currents reads a device. -/
theorem reader_call_current (hvoltage : ¬Grammar.VoltageWord name)
    (hname : Grammar.CurrentWord name) :
    reader (call context name) = reader (current context) >>= fun v => pure (.var v) := by
  funext ts
  show (call context name ts).map _ = _
  unfold call
  rw [if_neg (mt isVoltage_iff.mp hvoltage), if_pos (isCurrent_iff.mpr hname)]
  refine eq_bind (fun e h => by rw [h]; rfl) fun v hv => ?_
  rw [hv]
  rfl

/-- Any other call reads arguments, none or some. -/
theorem reader_call (hvoltage : ¬Grammar.VoltageWord name) (hcurrent : ¬Grammar.CurrentWord name) :
    reader (call context name) =
      ifNext .rightParen (pure (.call name []))
        (reader (arguments context) >>= fun args => pure (.call name args)) := by
  funext ts
  show (call context name ts).map _ = _
  unfold call
  rw [if_neg (mt isVoltage_iff.mp hvoltage), if_neg (mt isCurrent_iff.mp hcurrent)]
  unfold ifNext
  cases after? .rightParen ts with
  | some r => rfl
  | none =>
    refine eq_bind (fun e h => by simp only [h]; rfl) fun args hargs => ?_
    simp only [hargs]
    rfl

end Call

/-- Arguments are one choice, and after a comma the others. -/
theorem reader_arguments :
    reader (arguments context) =
      reader (choice context) >>= fun first =>
        ifNext .comma (reader (arguments context) >>= fun others => pure (first :: others))
          (closing context .rightParen .rightParenOrComma [first]) := by
  funext ts
  show (arguments context ts).map _ = _
  unfold arguments
  refine eq_bind (fun e h => by rw [h]; rfl) fun first hfirst => ?_
  simp only [hfirst, ifNext]
  cases after? .comma first.rest with
  | some r =>
    refine eq_bind (fun e h => by simp only [h]; rfl) fun others hothers => ?_
    simp only [hothers]
    rfl
  | none =>
    refine eq_bind (fun e h => by simp only [h]; rfl) fun close hclose => ?_
    simp only [hclose]
    rfl

end Parser
end Expr
end CircuitExpr
