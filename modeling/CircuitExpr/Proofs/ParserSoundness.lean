/-
# What the parser reads is derivable

Whatever a function of the parser reads is a phrase of the grammar at the front of
the tokens.  Only climbing needs an invariant.  The operand that `climb` holds on its
left is either signed, so that any operator may follow, or a phrase of some strength
`k` after which only operators up to `k` may follow, since the loop that read its last
operand has stopped there; of a power, which groups from the right, only those below
`k`.  An operator that does follow therefore finds on its left operands of its own
strength.

The induction is on the tokens that are left, and on the order of the functions for
equally many of them.
-/

import CircuitExpr.Proofs.ParserSteps

namespace CircuitExpr
namespace Expr
namespace Parser

open Grammar (Sym Name Lacks Sign Choice Operands Signed Primary Arguments Listed)

variable {ρ : Type} {context : Context ρ} {ts rest : List (Token ρ)}

/-- Operators that stop at one strength stop at every higher one. -/
theorem StopsBelow.mono {j k : Nat} (h : StopsBelow j ts) (hjk : j ≤ k) : StopsBelow k ts :=
  fun op rest hop => Nat.lt_of_lt_of_le (h op rest hop) hjk

/-- An operator binds its right operand one step more tightly, a power as tightly. -/
theorem rightStrength_eq (op : BinaryOp) : rightStrength op = min (op.precedence + 1) 7 := by
  cases op <;> rfl

/-- What `climb` may hold on its left, between tokens where it began and those where it
is: anything that `least` admits and that cannot be split by the next operator. -/
def LeftOperand (context : Context ρ) (least : Nat) (start : List (Token ρ)) (x : Expr ρ)
    (ts : List (Token ρ)) : Prop :=
  Signed context.constant? start x ts ∨
    ∃ k, least ≤ k ∧ k ≤ 7 ∧ Operands context.constant? k start x ts ∧
      StopsBelow (min (k + 1) 7) ts

namespace LeftOperand

variable {least : Nat} {start : List (Token ρ)} {x y : Expr ρ}

/-- What a climb holds is a phrase of operands. -/
theorem operands (h : LeftOperand context least start x ts) (hone : 1 ≤ least)
    (hseven : least ≤ 7) : Operands context.constant? least start x ts := by
  rcases h with h | ⟨k, hk, hk7, h, -⟩
  · exact .of_le hone hseven (Nat.le_refl _) (.signed h)
  · exact .of_le hone hk hk7 h

/-- **The invariant of climbing: one more operator with its right operand.** -/
theorem binary {op : BinaryOp} {ts₁ : List (Token ρ)}
    (h : LeftOperand context least start x ts) (hop : OperatorAt op ts ts₁)
    (hleast : least ≤ op.precedence)
    (hy : Operands context.constant? (rightStrength op) ts₁ y rest)
    (hstops : StopsBelow (rightStrength op) rest) :
    LeftOperand context least start (.binary op x y) rest := by
  have hpos := op.precedence_pos
  have hle := op.precedence_le
  rw [rightStrength_eq] at hy hstops
  refine .inr ⟨op.precedence, hleast, hle, ?_, hstops⟩
  rcases Nat.lt_or_ge op.precedence 7 with hlt | hge
  · -- The operator groups from the left: what stands before it has its strength.
    have hx : Operands context.constant? op.precedence start x ts := by
      rcases h with h | ⟨k, -, hk, h, hbelow⟩
      · exact .of_le hpos hle (Nat.le_refl _) (.signed h)
      · have := hbelow op ts₁ hop
        exact .of_le hpos (by omega) hk h
    rw [Nat.min_eq_left (by omega)] at hy
    exact .left hpos (by omega) hx hop hy
  · -- A power: the left operand is signed, as no power may follow anything else.
    have hseven : op.precedence = 7 := by omega
    rcases h with h | ⟨k, -, hk, h, hbelow⟩
    · rw [OperatorAt, hseven] at hop
      rw [hseven] at hy ⊢
      exact .power h hop hy
    · have := hbelow op ts₁ hop
      omega

end LeftOperand

/-- What is read of a voltage is an operand. -/
theorem voltage_sound {word : String} (offset : Nat) {ts₁ : List (Token ρ)} {v : Variable}
    (hword : Grammar.VoltageWord word) (hopen : Sym .leftParen ts ts₁)
    (h : Reads (voltage context ts₁) v rest) :
    Primary context.constant? (⟨.identifier, word, offset⟩ :: ts) (.var v) rest := by
  obtain ⟨node, ts₂, against, ts₃, hnode, hagainst, hclose, rfl⟩ := reads_voltage.mp h
  rcases reads_reference.mp hagainst with ⟨other, ts₄, hcomma, hother, rfl⟩ | ⟨-, rfl, rfl⟩
  · exact .voltageBetween offset hword hopen hnode hcomma hother hclose
  · exact .voltage offset hword hopen hnode hclose

/-- What is read of a current is an operand. -/
theorem current_sound {word : String} (offset : Nat) {ts₁ : List (Token ρ)} {v : Variable}
    (hword : Grammar.CurrentWord word) (hopen : Sym .leftParen ts ts₁)
    (h : Reads (current context ts₁) v rest) :
    Primary context.constant? (⟨.identifier, word, offset⟩ :: ts) (.var v) rest := by
  obtain ⟨device, ts₂, hdevice, hclose, rfl⟩ := reads_current.mp h
  exact .current offset hword hopen hdevice hclose

/-- What is read of a property is an operand. -/
theorem property_sound {ts₁ : List (Token ρ)} {v : Variable} (hat : Sym .atSign ts ts₁)
    (h : Reads (property context ts₁) v rest) :
    Primary context.constant? ts (.var v) rest := by
  obtain ⟨device, ts₂, ts₃, property, ts₄, hdevice, hopen, hproperty, hclose, rfl⟩ :=
    reads_property.mp h
  exact .property hat hdevice hopen hproperty hclose

/-- A word that stands alone is a constant or a variable. -/
theorem word_sound (name : String) (offset : Nat) :
    Primary context.constant? (⟨.identifier, name, offset⟩ :: rest) (word context name) rest := by
  unfold word
  split
  · rename_i x hx
    exact .constant offset rest hx
  · rename_i hnone
    exact .named offset rest hnone

mutual

/-- **What the parser reads is derivable**, for each of its functions. -/
theorem choice_sound {ts : List (Token ρ)} {x : Expr ρ} {rest : List (Token ρ)}
    (h : Reads (choice context ts) x rest) : Choice context.constant? ts x rest := by
  rcases reads_choice.mp h with
    ⟨h, -⟩ | ⟨c, ts₁, ts₂, t, ts₃, ts₄, f, hc, hquestion, ht, hcolon, hf, rfl⟩
  · exact .operands (operands_sound (by decide) (by decide) h).1
  · have h₁ := hc.length_lt
    have h₂ := hquestion.length_lt
    have h₃ := ht.length_lt
    have h₄ := hcolon.length_lt
    exact .conditional (operands_sound (by decide) (by decide) hc).1 hquestion (choice_sound ht)
      hcolon (choice_sound hf)
termination_by (ts.length, 4)

/-- What is read of operands is a phrase, and no operator of this strength is left. -/
theorem operands_sound {least : Nat} {ts : List (Token ρ)} {x : Expr ρ} {rest : List (Token ρ)}
    (hone : 1 ≤ least) (hseven : least ≤ 7) (h : Reads (operands context least ts) x rest) :
    Operands context.constant? least ts x rest ∧ StopsBelow least rest := by
  obtain ⟨left, ts₁, hleft, h⟩ := reads_operands.mp h
  have h₁ := hleft.length_lt
  exact climb_sound hone hseven (.inl (signed_sound hleft)) h
termination_by (ts.length, 3)

/-- Climbing keeps the left operand derivable at the strength that it climbs to. -/
theorem climb_sound {least : Nat} {start : List (Token ρ)} {left : Expr ρ} {ts : List (Token ρ)}
    {x : Expr ρ} {rest : List (Token ρ)} (hone : 1 ≤ least) (hseven : least ≤ 7)
    (hleft : LeftOperand context least start left ts)
    (h : Reads (climb context least left ts) x rest) :
    Operands context.constant? least start x rest ∧ StopsBelow least rest := by
  rcases reads_climb.mp h with
    ⟨hstops, rfl, rfl⟩ | ⟨op, ts₁, right, ts₂, hop, hleast, hright, h⟩
  · exact ⟨hleft.operands hone hseven, hstops⟩
  · have h₁ := hop.length_lt
    have h₂ := hright.length_lt
    have hpos := op.precedence_pos
    obtain ⟨hy, hstops⟩ := operands_sound (by rw [rightStrength_eq]; omega)
      (by rw [rightStrength_eq]; omega) hright
    exact climb_sound hone hseven (hleft.binary hop hleast hy hstops) h
termination_by (ts.length, 0)

/-- What is read as a signed operand is one. -/
theorem signed_sound {ts : List (Token ρ)} {x : Expr ρ} {rest : List (Token ρ)}
    (h : Reads (signed context ts) x rest) : Signed context.constant? ts x rest := by
  rcases reads_signed.mp h with ⟨op, ts₁, y, hsign, hy, rfl⟩ | ⟨-, h⟩
  · have h₁ := hsign.length_lt
    exact .sign hsign (signed_sound hy)
  · exact .primary (primary_sound h)
termination_by (ts.length, 2)

/-- What is read as an operand without signs is one. -/
theorem primary_sound {ts : List (Token ρ)} {x : Expr ρ} {rest : List (Token ρ)}
    (h : Reads (primary context ts) x rest) : Primary context.constant? ts x rest := by
  rcases reads_primary.mp h with
    ⟨v, lexeme, offset, rfl, rfl⟩ | ⟨ts₁, ts₂, hopen, hx, hclose⟩ | ⟨ts₁, v, hat, hv, rfl⟩ |
    ⟨name, offset, rfl, -, rfl⟩ | ⟨name, offset, ts₁, ts₂, hts, hopen, hx⟩
  · exact .number _ _ _ _
  · have h₁ := hopen.length_lt
    exact .parentheses hopen (choice_sound hx) hclose
  · exact property_sound hat hv
  · exact word_sound name offset
  · have h₁ : ts₂.length < ts.length := hts ▸ Nat.lt_succ_of_lt hopen.length_lt
    rw [hts]
    exact call_sound offset hopen hx
termination_by (ts.length, 1)

/-- Behind a word and its parenthesis stands the special form that the word announces, or
a call. -/
theorem call_sound {name : String} (offset : Nat) {ts ts₁ : List (Token ρ)} {x : Expr ρ}
    {rest : List (Token ρ)} (hopen : Sym .leftParen ts ts₁)
    (h : Reads (call context name ts₁) x rest) :
    Primary context.constant? (⟨.identifier, name, offset⟩ :: ts) x rest := by
  by_cases hvoltage : Grammar.VoltageWord name
  · obtain ⟨v, hv, rfl⟩ := (reads_call_voltage hvoltage).mp h
    exact voltage_sound offset hvoltage hopen hv
  · by_cases hcurrent : Grammar.CurrentWord name
    · obtain ⟨v, hv, rfl⟩ := (reads_call_current hvoltage hcurrent).mp h
      exact current_sound offset hcurrent hopen hv
    · rcases (reads_call hvoltage hcurrent).mp h with ⟨hclose, rfl⟩ | ⟨-, args, hargs, rfl⟩
      · exact .call offset hvoltage hcurrent hopen (.none _) hclose
      · obtain ⟨ts₂, hargs, hclose⟩ := arguments_sound hargs
        exact .call offset hvoltage hcurrent hopen (.some hargs) hclose
termination_by (ts₁.length, 6)

/-- What is read of arguments is listed before a parenthesis. -/
theorem arguments_sound {ts : List (Token ρ)} {xs : List (Expr ρ)} {rest : List (Token ρ)}
    (h : Reads (arguments context ts) xs rest) :
    ∃ ts₁, Listed context.constant? ts xs ts₁ ∧ Sym .rightParen ts₁ rest := by
  rcases reads_arguments.mp h with
    ⟨y, ts₁, ts₂, ys, hy, hcomma, hys, rfl⟩ | ⟨y, ts₁, hy, hclose, rfl⟩
  · have h₁ := hy.length_lt
    have h₂ := hcomma.length_lt
    obtain ⟨ts₃, hys, hclose⟩ := arguments_sound hys
    exact ⟨ts₃, .more (choice_sound hy) hcomma hys, hclose⟩
  · exact ⟨ts₁, .last (choice_sound hy), hclose⟩
termination_by (ts.length, 5)

end

end Parser
end Expr
end CircuitExpr
