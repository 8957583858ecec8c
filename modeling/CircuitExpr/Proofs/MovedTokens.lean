/-
# The parser does not look at places

Where its tokens stand in the text is of no account for what the parser reads.  With the same
tokens at other places, and the end of the text at another place, it reads the same, and an
error of one is the error of the other at the other place.

`Moves` says this of two readers on given tokens.  As with what a reader foresees, it passes
from the parts of a reader to the whole, and so to every function of the parser.
-/

import CircuitExpr.Proofs.ViablePrefixes

namespace CircuitExpr

variable {ρ α β : Type}

/-- The token at another place, which depends on the place where it stands. -/
def Token.move (place : Nat → Nat) (t : Token ρ) : Token ρ := ⟨t.kind, t.lexeme, place t.offset⟩

/-- The error at another place. -/
def ParseError.move (place : Nat → Nat) : ParseError → ParseError
  | unexpectedCharacter c o => unexpectedCharacter c (place o)
  | invalidNumber digits o => invalidNumber digits (place o)
  | unexpectedToken wanted lexeme o => unexpectedToken wanted lexeme (place o)
  | unexpectedEnd wanted o => unexpectedEnd wanted (place o)
  | trailingToken lexeme o => trailingToken lexeme (place o)

namespace Expr
namespace Parser

open Grammar (Sym Lacks)

variable {place : Nat → Nat} {context : Context ρ} {ts rest : List (Token ρ)}

/-- The same constants, and the end of the text at another place. -/
def Context.move (place : Nat → Nat) (context : Context ρ) : Context ρ :=
  ⟨context.constant?, place context.stop⟩

/-! ### The next token -/

/-- A symbol stays a symbol when it is moved. -/
theorem sym_move {s : Symbol} (h : Sym s ts rest) :
    Sym s (ts.map (Token.move place)) (rest.map (Token.move place)) := by
  obtain ⟨lexeme, offset, _⟩ := h
  exact ⟨lexeme, place offset, _⟩

/-- A symbol at another place was a symbol before. -/
theorem exists_symbol_of_map {s : Symbol} {lexeme : String} {offset : Nat}
    (h : ts.map (Token.move place) = ⟨.symbol s, lexeme, offset⟩ :: rest) :
    ∃ offset' rest', ts = ⟨.symbol s, lexeme, offset'⟩ :: rest' := by
  obtain ⟨⟨kind, lexeme', offset'⟩, rest', rfl, ht, -⟩ := List.map_eq_cons_iff.mp h
  injection ht with hkind hlexeme
  exact ⟨offset', rest', by rw [← hkind, ← hlexeme]⟩

/-- A token that is not the symbol does not become it when it is moved. -/
theorem lacks_move {s : Symbol} (h : Lacks s ts) : Lacks s (ts.map (Token.move place)) := by
  intro rest hsym
  generalize hmap : ts.map (Token.move place) = moved at hsym
  obtain ⟨lexeme, offset, _⟩ := hsym
  obtain ⟨offset', rest', rfl⟩ := exists_symbol_of_map hmap
  exact h rest' ⟨lexeme, offset', rest'⟩

/-- Where operators stop does not depend on the places. -/
theorem stopsBelow_move {least : Nat} (h : StopsBelow least ts) :
    StopsBelow least (ts.map (Token.move place)) := by
  intro op rest hop
  generalize hmap : ts.map (Token.move place) = moved at hop
  obtain ⟨s, lexeme, offset, _, hs⟩ := hop
  obtain ⟨offset', rest', rfl⟩ := exists_symbol_of_map hmap
  exact h op rest' ⟨s, lexeme, offset', rest', hs⟩

/-- Whether a sign comes does not depend on the places. -/
theorem unsigned_move (h : Unsigned ts) : Unsigned (ts.map (Token.move place)) := by
  intro op rest hsign
  generalize hmap : ts.map (Token.move place) = moved at hsign
  obtain ⟨s, lexeme, offset, _, hs⟩ := hsign
  obtain ⟨offset', rest', rfl⟩ := exists_symbol_of_map hmap
  exact h op rest' ⟨s, lexeme, offset', rest', hs⟩

/-- An error about tokens moves with them. -/
theorem unexpected_move (wanted : Wanted) (ts : List (Token ρ)) :
    unexpected (context.move place) wanted (ts.map (Token.move place)) =
      (unexpected context wanted ts).move place := by
  cases ts <;> rfl

/-! ### Readers -/

/-- What was read and the tokens after it, or the error, all at other places. -/
def moved (place : Nat → Nat) : Except ParseError (α × List (Token ρ)) →
    Except ParseError (α × List (Token ρ))
  | .ok (x, rest) => .ok (x, rest.map (Token.move place))
  | .error e => .error (e.move place)

/-- With the tokens at other places, `f'` does what `f` does with them where they are. -/
def Moves (place : Nat → Nat) (f f' : Reader ρ α) (ts : List (Token ρ)) : Prop :=
  f' (ts.map (Token.move place)) = moved place (f ts)

namespace Moves

/-- Reading nothing moves nothing. -/
theorem pure (x : α) (ts : List (Token ρ)) :
    Moves place (pure x : Reader ρ α) (pure x) ts := rfl

/-- Both readers do what others do, possibly with fewer tokens. -/
theorem congr {f f' h h' : Reader ρ α} (hf : f ts = h rest)
    (hf' : f' (ts.map (Token.move place)) = h' (rest.map (Token.move place)))
    (hmoves : Moves place h h' rest) : Moves place f f' ts := by
  rw [Moves, hf, hf']
  exact hmoves

/-- **One reader after another.** -/
theorem bind {f f' : Reader ρ α} {k k' : α → Reader ρ β} (hf : Moves place f f' ts)
    (hk : ∀ x rest, f ts = .ok (x, rest) → Moves place (k x) (k' x) rest) :
    Moves place (f >>= k) (f' >>= k') ts := by
  unfold Moves at hf
  cases hread : f ts with
  | error e =>
    rw [hread] at hf
    rw [Moves, bind_of_error hread, bind_of_error hf]
    rfl
  | ok p =>
    rw [hread] at hf
    rw [Moves, bind_of_ok hread, bind_of_ok hf]
    exact hk p.1 p.2 hread

/-- A branch that the next token decides on. -/
theorem ifNext {s : Symbol} {f f' k k' : Reader ρ α}
    (hf : ∀ rest, Sym s ts rest → Moves place f f' rest) (hk : Moves place k k' ts) :
    Moves place (ifNext s f k) (ifNext s f' k') ts := by
  rcases sym_or_lacks s ts with ⟨rest, hs⟩ | hs
  · exact (hf rest hs).congr (ifNext_of_sym hs) (ifNext_of_sym (sym_move hs))
  · exact hk.congr (ifNext_of_lacks hs) (ifNext_of_lacks (lacks_move hs))

end Moves

/-- Reading what closes a phrase moves with the tokens. -/
theorem moves_closing (s : Symbol) (wanted : Wanted) (x : α) (ts : List (Token ρ)) :
    Moves place (closing context s wanted x) (closing (context.move place) s wanted x) ts := by
  rcases sym_or_lacks s ts with ⟨rest, hs⟩ | hs
  · rw [Moves, closing_of_sym hs, closing_of_sym (sym_move hs)]
    rfl
  · rw [Moves, closing_of_error (symbol_of_lacks wanted hs),
      closing_of_error (symbol_of_lacks wanted (lacks_move hs)), unexpected_move]
    rfl

/-- Reading a name moves with the tokens. -/
theorem moves_name (wanted : Wanted) (ts : List (Token ρ)) :
    Moves place (reader (name context wanted)) (reader (name (context.move place) wanted)) ts := by
  cases ts with
  | nil => rfl
  | cons t ts =>
    obtain ⟨kind, lexeme, offset⟩ := t
    cases kind <;> rfl

/-! ### The special forms -/

/-- Reading a reference node moves with the tokens. -/
theorem moves_reference (ts : List (Token ρ)) :
    Moves place (reader (reference context)) (reader (reference (context.move place))) ts := by
  refine .congr (congrFun reader_reference ts) (congrFun reader_reference _) ?_
  exact .ifNext (fun rest _ => (moves_name _ rest).bind fun _ _ _ => .pure _ _) (.pure _ _)

/-- Reading a voltage moves with the tokens. -/
theorem moves_voltage (ts : List (Token ρ)) :
    Moves place (reader (voltage context)) (reader (voltage (context.move place))) ts := by
  refine .congr (congrFun reader_voltage ts) (congrFun reader_voltage _) ?_
  exact (moves_name _ ts).bind fun _ ts₁ _ => (moves_reference ts₁).bind fun _ ts₂ _ =>
    moves_closing _ _ _ ts₂

/-- Reading a current moves with the tokens. -/
theorem moves_current (ts : List (Token ρ)) :
    Moves place (reader (current context)) (reader (current (context.move place))) ts := by
  refine .congr (congrFun reader_current ts) (congrFun reader_current _) ?_
  exact (moves_name _ ts).bind fun _ ts₁ _ => moves_closing _ _ _ ts₁

/-- Reading a property moves with the tokens. -/
theorem moves_property (ts : List (Token ρ)) :
    Moves place (reader (property context)) (reader (property (context.move place))) ts := by
  refine .congr (congrFun reader_property ts) (congrFun reader_property _) ?_
  exact (moves_name _ ts).bind fun _ ts₁ _ => (moves_closing _ _ _ ts₁).bind fun _ ts₂ _ =>
    (moves_name _ ts₂).bind fun _ ts₃ _ => moves_closing _ _ _ ts₃

/-! ### The functions that call each other -/

mutual

/-- **No function of the parser looks at places.** -/
theorem moves_choice (place : Nat → Nat) (context : Context ρ) (ts : List (Token ρ)) :
    Moves place (reader (choice context)) (reader (choice (context.move place))) ts := by
  refine .congr (congrFun reader_choice ts) (congrFun reader_choice _) ?_
  refine (moves_operands place context 1 ts).bind fun condition ts₁ hcondition => ?_
  have h₁ := length_lt_of_reader hcondition
  refine .ifNext (fun ts₂ hquestion => ?_) (.pure _ _)
  have h₂ := hquestion.length_lt
  refine (moves_choice place context ts₂).bind fun ifTrue ts₃ hifTrue => ?_
  have h₃ := length_lt_of_reader hifTrue
  refine (moves_closing _ _ _ ts₃).bind fun _ ts₄ hcolon => ?_
  have h₄ := length_lt_of_closing hcolon
  exact (moves_choice place context ts₄).bind fun _ _ _ => .pure _ _
termination_by (ts.length, 4)

/-- Reading operands joined by operators moves with the tokens. -/
theorem moves_operands (place : Nat → Nat) (context : Context ρ) (least : Nat)
    (ts : List (Token ρ)) :
    Moves place (reader (operands context least)) (reader (operands (context.move place) least))
      ts := by
  refine .congr (congrFun (reader_operands least) ts) (congrFun (reader_operands least) _) ?_
  refine (moves_signed place context ts).bind fun left ts₁ hleft => ?_
  have h₁ := length_lt_of_reader hleft
  exact moves_climb place context least left ts₁
termination_by (ts.length, 3)

/-- Reading the operators after an operand moves with the tokens. -/
theorem moves_climb (place : Nat → Nat) (context : Context ρ) (least : Nat) (left : Expr ρ)
    (ts : List (Token ρ)) :
    Moves place (reader (climb context least left))
      (reader (climb (context.move place) least left)) ts := by
  rcases stopsBelow_or least ts with hstops | ⟨op, ts₁, hop, hleast⟩
  · rw [Moves, reader_climb_of_stops hstops, reader_climb_of_stops (stopsBelow_move hstops)]
    rfl
  · have h₁ := hop.length_lt
    have hright : Moves place
        (reader (operands context (rightStrength op)) >>= fun right =>
          reader (climb context least (.binary op left right)))
        (reader (operands (context.move place) (rightStrength op)) >>= fun right =>
          reader (climb (context.move place) least (.binary op left right))) ts₁ := by
      refine (moves_operands place context (rightStrength op) ts₁).bind fun right ts₂ hright => ?_
      have h₂ := length_lt_of_reader hright
      exact moves_climb place context least _ ts₂
    refine hright.congr (reader_climb_of_operator hop hleast) (reader_climb_of_operator ?_ hleast)
    obtain ⟨s, lexeme, offset, _, hs⟩ := hop
    exact ⟨s, lexeme, place offset, _, hs⟩
termination_by (ts.length, 0)

/-- Reading an operand with its signs moves with the tokens. -/
theorem moves_signed (place : Nat → Nat) (context : Context ρ) (ts : List (Token ρ)) :
    Moves place (reader (signed context)) (reader (signed (context.move place))) ts := by
  rcases sign_or_unsigned ts with ⟨op, ts₁, hsign⟩ | hunsigned
  · have h₁ := hsign.length_lt
    have hoperand := (moves_signed place context ts₁).bind fun x ts₂ _ =>
      Moves.pure (Expr.unary op x) ts₂
    refine hoperand.congr (reader_signed_of_sign hsign) (reader_signed_of_sign ?_)
    obtain ⟨s, lexeme, offset, _, hs⟩ := hsign
    exact ⟨s, lexeme, place offset, _, hs⟩
  · exact (moves_primary place context ts).congr (reader_signed_of_unsigned hunsigned)
      (reader_signed_of_unsigned (unsigned_move hunsigned))
termination_by (ts.length, 2)

/-- Reading an operand without signs moves with the tokens. -/
theorem moves_primary (place : Nat → Nat) (context : Context ρ) (ts : List (Token ρ)) :
    Moves place (reader (primary context)) (reader (primary (context.move place))) ts := by
  cases ts with
  | nil =>
    rw [Moves, reader_primary_nil, List.map_nil, reader_primary_nil]
    rfl
  | cons t ts =>
    obtain ⟨kind, lexeme, offset⟩ := t
    cases kind with
    | number v =>
      exact (Moves.pure (Expr.constant v) ts).congr (reader_primary_number lexeme offset ts v)
        (reader_primary_number lexeme (place offset) _ v)
    | identifier =>
      refine .congr (reader_primary_identifier lexeme offset ts)
        (reader_primary_identifier lexeme (place offset) _) ?_
      refine .ifNext (fun ts₁ hopen => ?_) (.pure (word context lexeme) ts)
      have h₁ := hopen.length_lt
      exact moves_call place context lexeme ts₁
    | symbol s =>
      by_cases hleftParen : s = .leftParen
      · subst hleftParen
        refine .congr (reader_primary_leftParen lexeme offset ts)
          (reader_primary_leftParen lexeme (place offset) _) ?_
        exact (moves_choice place context ts).bind fun _ ts₁ _ => moves_closing _ _ _ ts₁
      · by_cases hatSign : s = .atSign
        · subst hatSign
          refine .congr (reader_primary_atSign lexeme offset ts)
            (reader_primary_atSign lexeme (place offset) _) ?_
          exact (moves_property ts).bind fun _ _ _ => .pure _ _
        · rw [Moves, reader_primary_symbol lexeme offset ts hleftParen hatSign]
          exact reader_primary_symbol lexeme (place offset) _ hleftParen hatSign
termination_by (ts.length, 1)

/-- Reading a call moves with the tokens. -/
theorem moves_call (place : Nat → Nat) (context : Context ρ) (name : String)
    (ts : List (Token ρ)) :
    Moves place (reader (call context name)) (reader (call (context.move place) name)) ts := by
  by_cases hvoltage : Grammar.VoltageWord name
  · refine .congr (congrFun (reader_call_voltage hvoltage) ts)
      (congrFun (reader_call_voltage hvoltage) _) ?_
    exact (moves_voltage ts).bind fun _ _ _ => .pure _ _
  · by_cases hcurrent : Grammar.CurrentWord name
    · refine .congr (congrFun (reader_call_current hvoltage hcurrent) ts)
        (congrFun (reader_call_current hvoltage hcurrent) _) ?_
      exact (moves_current ts).bind fun _ _ _ => .pure _ _
    · refine .congr (congrFun (reader_call hvoltage hcurrent) ts)
        (congrFun (reader_call hvoltage hcurrent) _) ?_
      exact .ifNext (fun _ _ => .pure _ _)
        ((moves_arguments place context ts).bind fun _ _ _ => .pure _ _)
termination_by (ts.length, 6)

/-- Reading arguments moves with the tokens. -/
theorem moves_arguments (place : Nat → Nat) (context : Context ρ) (ts : List (Token ρ)) :
    Moves place (reader (arguments context)) (reader (arguments (context.move place))) ts := by
  refine .congr (congrFun reader_arguments ts) (congrFun reader_arguments _) ?_
  refine (moves_choice place context ts).bind fun first ts₁ hfirst => ?_
  have h₁ := length_lt_of_reader hfirst
  refine .ifNext (fun ts₂ hcomma => ?_) (moves_closing _ _ _ ts₁)
  have h₂ := hcomma.length_lt
  exact (moves_arguments place context ts₂).bind fun _ _ _ => .pure _ _
termination_by (ts.length, 5)

end

/-- **Tokens at other places are the same tree, or the same error at the other place.** -/
theorem whole_move (place : Nat → Nat) (context : Context ρ) (ts : List (Token ρ)) :
    whole (context.move place) (ts.map (Token.move place)) =
      (whole context ts).mapError (ParseError.move place) := by
  have hmoves := moves_choice place context ts
  unfold Moves at hmoves
  cases hread : reader (choice context) ts with
  | error e =>
    rw [hread] at hmoves
    rw [whole_of_error hread, whole_of_error hmoves]
    rfl
  | ok p =>
    obtain ⟨x, rest⟩ := p
    rw [hread] at hmoves
    cases rest with
    | nil =>
      rw [whole_of_ok hread, whole_of_ok hmoves]
      rfl
    | cons t rest =>
      rw [whole_of_trailing hread, whole_of_trailing hmoves]
      rfl

end Parser
end Expr
end CircuitExpr
