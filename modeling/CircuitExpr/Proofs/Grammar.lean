/-
# The grammar of the notation

The grammar has one level for the choice, one for each strength of an operator, one
for the operators before an operand, and one for what stands by itself:

| phrase | made of |
| --- | --- |
| choice | operands of strength 1, or these `?` choice `:` choice |
| operands of strength `k`, `1 ≤ k ≤ 6` | these, an operator of strength `k`, operands of strength `k + 1`; or only the latter |
| operands of strength 7 | signed, or signed `^` operands of strength 7 |
| signed | `+`, `-` or `!` before signed, or primary |
| primary | a number, a choice in parentheses, `@name[name]`, a word, a word before arguments in parentheses |

A word `v` or `i`, in either case, admits only `(name)` and `(name,name)`, or
`(name)`, in place of arguments.  A name is a word or a number as it is written.

A phrase is a relation between some tokens, the tree that the phrase at their front
denotes, and the tokens after the phrase.  No rule looks at what comes after.
-/

import CircuitExpr.Expr.Parser

namespace CircuitExpr
namespace Expr
namespace Grammar

variable {ρ : Type}

/-- The symbol `s` and the tokens after it. -/
inductive Sym (s : Symbol) : List (Token ρ) → List (Token ρ) → Prop
  /-- The symbol itself. -/
  | mk (lexeme offset rest) : Sym s (⟨.symbol s, lexeme, offset⟩ :: rest) rest

namespace Sym

variable {s s' : Symbol} {ts rest rest' : List (Token ρ)}

/-- A symbol takes a token. -/
theorem length_lt (h : Sym s ts rest) : rest.length < ts.length := by
  obtain ⟨_, _, _⟩ := h
  exact Nat.lt_succ_self _

/-- What follows a symbol ends the tokens. -/
theorem suffix (h : Sym s ts rest) : rest <:+ ts := by
  obtain ⟨_, _, _⟩ := h
  exact List.suffix_cons _ _

end Sym

/-- The tokens do not start with this symbol. -/
def Lacks (s : Symbol) (ts : List (Token ρ)) : Prop := ∀ rest, ¬Sym s ts rest

/-- Where one symbol stands there is no other. -/
theorem Sym.lacks {s s' : Symbol} {ts rest : List (Token ρ)} (h : Sym s ts rest) (hs : s ≠ s') :
    Lacks s' ts := by
  rintro _ ⟨_, _, _⟩
  cases h
  exact hs rfl

/-- The name of a node, a device or a property. -/
inductive Name : List (Token ρ) → String → List (Token ρ) → Prop
  /-- A word. -/
  | identifier (lexeme offset rest) : Name (⟨.identifier, lexeme, offset⟩ :: rest) lexeme rest
  /-- A number, as it is written. -/
  | number (x lexeme offset rest) : Name (⟨.number x, lexeme, offset⟩ :: rest) lexeme rest

/-- What follows a name ends the tokens. -/
theorem Name.suffix {ts rest : List (Token ρ)} {name : String} (h : Name ts name rest) :
    rest <:+ ts := by
  cases h <;> exact List.suffix_cons _ _

/-- Is this the word before the parentheses of a voltage? -/
def VoltageWord (word : String) : Prop := word = "v" ∨ word = "V"

instance : DecidablePred VoltageWord := fun word =>
  inferInstanceAs (Decidable (word = "v" ∨ word = "V"))

/-- Is this the word before the parentheses of a current? -/
def CurrentWord (word : String) : Prop := word = "i" ∨ word = "I"

instance : DecidablePred CurrentWord := fun word =>
  inferInstanceAs (Decidable (word = "i" ∨ word = "I"))

/-- The symbol is written for an operator of strength `k` between operands. -/
inductive Joins : Symbol → BinaryOp → Nat → Prop
  /-- One operand or the other, `||`. -/
  | or : Joins .orOr .or 1
  /-- One operand and the other, `&&`. -/
  | and : Joins .andAnd .and 2
  /-- Equal, `==`. -/
  | eq : Joins .equalEqual .eq 3
  /-- Not equal, `!=`. -/
  | ne : Joins .bangEqual .ne 3
  /-- Less, `<`. -/
  | lt : Joins .less .lt 4
  /-- At most, `<=`. -/
  | le : Joins .lessEqual .le 4
  /-- Greater, `>`. -/
  | gt : Joins .greater .gt 4
  /-- At least, `>=`. -/
  | ge : Joins .greaterEqual .ge 4
  /-- The sum, `+`. -/
  | add : Joins .plus .add 5
  /-- The difference, `-`. -/
  | sub : Joins .minus .sub 5
  /-- The product, `*`. -/
  | mul : Joins .star .mul 6
  /-- The quotient, `/`. -/
  | div : Joins .slash .div 6
  /-- The remainder, `%`. -/
  | mod : Joins .percent .mod 6
  /-- The power, `^`. -/
  | pow : Joins .caret .pow 7

/-- **The parser's tables of operators are those of the grammar.** -/
theorem joins_iff {s : Symbol} {op : BinaryOp} {k : Nat} :
    Joins s op k ↔ s.operator? = some op ∧ op.precedence = k := by
  constructor
  · rintro ⟨⟩ <;> exact ⟨rfl, rfl⟩
  · rintro ⟨hs, rfl⟩
    cases s <;> cases hs <;> constructor

/-- An operator of strength `k` between operands. -/
inductive Operator (k : Nat) (op : BinaryOp) : List (Token ρ) → List (Token ρ) → Prop
  /-- Its symbol. -/
  | mk (s lexeme offset rest) : Joins s op k →
    Operator k op (⟨.symbol s, lexeme, offset⟩ :: rest) rest

/-- The strength of an operator is that which the parser climbs by. -/
theorem Operator.precedence_eq {k : Nat} {op : BinaryOp} {ts rest : List (Token ρ)}
    (h : Operator k op ts rest) : op.precedence = k := by
  obtain ⟨s, _, _, _, hs⟩ := h
  exact (joins_iff.mp hs).2

/-- An operator takes a token. -/
theorem Operator.length_lt {k : Nat} {op : BinaryOp} {ts rest : List (Token ρ)}
    (h : Operator k op ts rest) : rest.length < ts.length := by
  obtain ⟨s, _, _, _, -⟩ := h
  exact Nat.lt_succ_self _

/-- What follows an operator ends the tokens. -/
theorem Operator.suffix {k : Nat} {op : BinaryOp} {ts rest : List (Token ρ)}
    (h : Operator k op ts rest) : rest <:+ ts := by
  obtain ⟨s, _, _, _, -⟩ := h
  exact List.suffix_cons _ _

/-- The symbol is written for an operator before an operand. -/
inductive Signs : Symbol → UnaryOp → Prop
  /-- The operand itself, `+`. -/
  | plus : Signs .plus .plus
  /-- The operand with the other sign, `-`. -/
  | minus : Signs .minus .minus
  /-- The opposite answer, `!`. -/
  | not : Signs .bang .not

/-- **The parser's table of operators before an operand is that of the grammar.** -/
theorem signs_iff {s : Symbol} {op : UnaryOp} : Signs s op ↔ s.sign? = some op := by
  constructor
  · rintro ⟨⟩ <;> rfl
  · intro hs
    cases s <;> cases hs <;> constructor

/-- An operator before an operand. -/
inductive Sign (op : UnaryOp) : List (Token ρ) → List (Token ρ) → Prop
  /-- Its symbol. -/
  | mk (s lexeme offset rest) : Signs s op →
    Sign op (⟨.symbol s, lexeme, offset⟩ :: rest) rest

/-- An operator before an operand takes a token. -/
theorem Sign.length_lt {op : UnaryOp} {ts rest : List (Token ρ)} (h : Sign op ts rest) :
    rest.length < ts.length := by
  obtain ⟨s, _, _, _, -⟩ := h
  exact Nat.lt_succ_self _

/-- What follows a sign ends the tokens. -/
theorem Sign.suffix {op : UnaryOp} {ts rest : List (Token ρ)} (h : Sign op ts rest) :
    rest <:+ ts := by
  obtain ⟨s, _, _, _, -⟩ := h
  exact List.suffix_cons _ _

mutual

/-- A choice. -/
inductive Choice (constant? : String → Option ρ) :
    List (Token ρ) → Expr ρ → List (Token ρ) → Prop
  /-- Operands. -/
  | operands {ts x rest} : Operands constant? 1 ts x rest → Choice constant? ts x rest
  /-- Operands and two branches. -/
  | conditional {ts c ts₁ ts₂ t ts₃ ts₄ f rest} : Operands constant? 1 ts c ts₁ →
    Sym .question ts₁ ts₂ → Choice constant? ts₂ t ts₃ → Sym .colon ts₃ ts₄ →
    Choice constant? ts₄ f rest → Choice constant? ts (.conditional c t f) rest

/-- Operands joined by operators of a strength or more. -/
inductive Operands (constant? : String → Option ρ) :
    Nat → List (Token ρ) → Expr ρ → List (Token ρ) → Prop
  /-- An operator that groups from the left. -/
  | left {k op ts x ts₁ ts₂ y rest} : 1 ≤ k → k ≤ 6 → Operands constant? k ts x ts₁ →
    Operator k op ts₁ ts₂ → Operands constant? (k + 1) ts₂ y rest →
    Operands constant? k ts (.binary op x y) rest
  /-- Operands of the next strength. -/
  | next {k ts x rest} : 1 ≤ k → k ≤ 6 → Operands constant? (k + 1) ts x rest →
    Operands constant? k ts x rest
  /-- A power, which groups from the right. -/
  | power {op ts x ts₁ ts₂ y rest} : Signed constant? ts x ts₁ → Operator 7 op ts₁ ts₂ →
    Operands constant? 7 ts₂ y rest → Operands constant? 7 ts (.binary op x y) rest
  /-- A signed operand. -/
  | signed {ts x rest} : Signed constant? ts x rest → Operands constant? 7 ts x rest

/-- An operand with operators before it. -/
inductive Signed (constant? : String → Option ρ) :
    List (Token ρ) → Expr ρ → List (Token ρ) → Prop
  /-- One more operator. -/
  | sign {op ts ts₁ x rest} : Sign op ts ts₁ → Signed constant? ts₁ x rest →
    Signed constant? ts (.unary op x) rest
  /-- No operator. -/
  | primary {ts x rest} : Primary constant? ts x rest → Signed constant? ts x rest

/-- An operand by itself. -/
inductive Primary (constant? : String → Option ρ) :
    List (Token ρ) → Expr ρ → List (Token ρ) → Prop
  /-- A number. -/
  | number (x lexeme offset rest) :
    Primary constant? (⟨.number x, lexeme, offset⟩ :: rest) (.constant x) rest
  /-- A choice in parentheses. -/
  | parentheses {ts ts₁ x ts₂ rest} : Sym .leftParen ts ts₁ → Choice constant? ts₁ x ts₂ →
    Sym .rightParen ts₂ rest → Primary constant? ts x rest
  /-- A property of a device. -/
  | property {ts ts₁ device ts₂ ts₃ property ts₄ rest} : Sym .atSign ts ts₁ →
    Name ts₁ device ts₂ → Sym .leftBracket ts₂ ts₃ → Name ts₃ property ts₄ →
    Sym .rightBracket ts₄ rest → Primary constant? ts (.var (.property device property)) rest
  /-- A word that names a constant. -/
  | constant {word x} (offset rest) : constant? word = some x →
    Primary constant? (⟨.identifier, word, offset⟩ :: rest) (.constant x) rest
  /-- Any other word. -/
  | named {word} (offset rest) : constant? word = none →
    Primary constant? (⟨.identifier, word, offset⟩ :: rest) (.var (.named word)) rest
  /-- The voltage of a node. -/
  | voltage {word ts ts₁ node ts₂ rest} (offset) : VoltageWord word → Sym .leftParen ts ts₁ →
    Name ts₁ node ts₂ → Sym .rightParen ts₂ rest →
    Primary constant? (⟨.identifier, word, offset⟩ :: ts) (.var (.voltage node)) rest
  /-- The voltage of a node measured against another. -/
  | voltageBetween {word ts ts₁ node ts₂ ts₃ against ts₄ rest} (offset) : VoltageWord word →
    Sym .leftParen ts ts₁ → Name ts₁ node ts₂ → Sym .comma ts₂ ts₃ → Name ts₃ against ts₄ →
    Sym .rightParen ts₄ rest →
    Primary constant? (⟨.identifier, word, offset⟩ :: ts) (.var (.voltageBetween node against)) rest
  /-- The current through a device. -/
  | current {word ts ts₁ device ts₂ rest} (offset) : CurrentWord word → Sym .leftParen ts ts₁ →
    Name ts₁ device ts₂ → Sym .rightParen ts₂ rest →
    Primary constant? (⟨.identifier, word, offset⟩ :: ts) (.var (.current device)) rest
  /-- A call. -/
  | call {word ts ts₁ args ts₂ rest} (offset) : ¬VoltageWord word → ¬CurrentWord word →
    Sym .leftParen ts ts₁ → Arguments constant? ts₁ args ts₂ → Sym .rightParen ts₂ rest →
    Primary constant? (⟨.identifier, word, offset⟩ :: ts) (.call word args) rest

/-- Any number of arguments. -/
inductive Arguments (constant? : String → Option ρ) :
    List (Token ρ) → List (Expr ρ) → List (Token ρ) → Prop
  /-- No argument. -/
  | none (ts) : Arguments constant? ts [] ts
  /-- Some arguments. -/
  | some {ts xs rest} : Listed constant? ts xs rest → Arguments constant? ts xs rest

/-- At least one argument. -/
inductive Listed (constant? : String → Option ρ) :
    List (Token ρ) → List (Expr ρ) → List (Token ρ) → Prop
  /-- The last argument. -/
  | last {ts x rest} : Choice constant? ts x rest → Listed constant? ts [x] rest
  /-- An argument before others. -/
  | more {ts x ts₁ ts₂ xs rest} : Choice constant? ts x ts₁ → Sym .comma ts₁ ts₂ →
    Listed constant? ts₂ xs rest → Listed constant? ts (x :: xs) rest

end

section

variable {constant? : String → Option ρ}

/-- Operands are operands of every lesser strength too. -/
theorem Operands.of_le {j k : Nat} {ts : List (Token ρ)} {x : Expr ρ} {rest : List (Token ρ)}
    (hj : 1 ≤ j) (hjk : j ≤ k) (hk : k ≤ 7) (h : Operands constant? k ts x rest) :
    Operands constant? j ts x rest := by
  induction hjk with
  | refl => exact h
  | step hjk ih =>
    have hpos := Nat.le_trans hj hjk
    exact ih (by omega) (.next hpos (by omega) h)

/-- Signed operands on both sides of an operator. -/
theorem Operands.binary_of_signed {op : BinaryOp} {x y : Expr ρ}
    {ts ts₁ ts₂ rest : List (Token ρ)}
    (hx : Signed constant? ts x ts₁) (hop : Operator op.precedence op ts₁ ts₂)
    (hy : Signed constant? ts₂ y rest) :
    Operands constant? op.precedence ts (.binary op x y) rest := by
  have hpos := op.precedence_pos
  have hle := op.precedence_le
  rcases Nat.lt_or_ge op.precedence 7 with hlt | hge
  · exact .left hpos (by omega) (.of_le hpos hle (Nat.le_refl 7) (.signed hx)) hop
      (.of_le (by omega) hlt (Nat.le_refl 7) (.signed hy))
  · have hseven : op.precedence = 7 := by omega
    rw [hseven] at hop ⊢
    exact .power hx hop (.signed hy)

/-- Signed operands are a choice. -/
theorem Choice.of_signed {ts : List (Token ρ)} {x : Expr ρ} {rest : List (Token ρ)}
    (h : Signed constant? ts x rest) : Choice constant? ts x rest :=
  .operands (.of_le (by decide) (by decide) (Nat.le_refl 7) (.signed h))

/-! ### What follows a phrase is the end of the tokens -/

mutual

/-- What follows a choice ends the tokens. -/
theorem Choice.suffix {ts : List (Token ρ)} {x : Expr ρ} {rest : List (Token ρ)} :
    Choice constant? ts x rest → rest <:+ ts
  | .operands h => h.suffix
  | .conditional hc hquestion ht hcolon hf =>
    hf.suffix.trans (hcolon.suffix.trans (ht.suffix.trans (hquestion.suffix.trans hc.suffix)))

/-- What follows operands joined by operators ends the tokens. -/
theorem Operands.suffix {k : Nat} {ts : List (Token ρ)} {x : Expr ρ} {rest : List (Token ρ)} :
    Operands constant? k ts x rest → rest <:+ ts
  | .left _ _ hx hop hy => hy.suffix.trans (hop.suffix.trans hx.suffix)
  | .next _ _ h => h.suffix
  | .power hx hop hy => hy.suffix.trans (hop.suffix.trans hx.suffix)
  | .signed h => h.suffix

/-- What follows an operand with its signs ends the tokens. -/
theorem Signed.suffix {ts : List (Token ρ)} {x : Expr ρ} {rest : List (Token ρ)} :
    Signed constant? ts x rest → rest <:+ ts
  | .sign hsign hx => hx.suffix.trans hsign.suffix
  | .primary h => h.suffix

/-- What follows an operand without signs ends the tokens. -/
theorem Primary.suffix {ts : List (Token ρ)} {x : Expr ρ} {rest : List (Token ρ)} :
    Primary constant? ts x rest → rest <:+ ts
  | .number _ _ _ _ => List.suffix_cons _ _
  | .parentheses hopen hx hclose => hclose.suffix.trans (hx.suffix.trans hopen.suffix)
  | .property hat hdevice hopen hproperty hclose =>
    hclose.suffix.trans (hproperty.suffix.trans (hopen.suffix.trans
      (hdevice.suffix.trans hat.suffix)))
  | .constant _ _ _ => List.suffix_cons _ _
  | .named _ _ _ => List.suffix_cons _ _
  | .voltage _ _ hopen hnode hclose =>
    (hclose.suffix.trans (hnode.suffix.trans hopen.suffix)).trans (List.suffix_cons _ _)
  | .voltageBetween _ _ hopen hnode hcomma hagainst hclose =>
    (hclose.suffix.trans (hagainst.suffix.trans (hcomma.suffix.trans
      (hnode.suffix.trans hopen.suffix)))).trans (List.suffix_cons _ _)
  | .current _ _ hopen hdevice hclose =>
    (hclose.suffix.trans (hdevice.suffix.trans hopen.suffix)).trans (List.suffix_cons _ _)
  | .call _ _ _ hopen hargs hclose =>
    (hclose.suffix.trans (hargs.suffix.trans hopen.suffix)).trans (List.suffix_cons _ _)

/-- What follows arguments ends the tokens. -/
theorem Arguments.suffix {ts : List (Token ρ)} {xs : List (Expr ρ)} {rest : List (Token ρ)} :
    Arguments constant? ts xs rest → rest <:+ ts
  | .none _ => List.suffix_refl _
  | .some h => h.suffix

/-- What follows a list of arguments ends the tokens. -/
theorem Listed.suffix {ts : List (Token ρ)} {xs : List (Expr ρ)} {rest : List (Token ρ)} :
    Listed constant? ts xs rest → rest <:+ ts
  | .last h => h.suffix
  | .more hx hcomma hxs => hxs.suffix.trans (hcomma.suffix.trans hx.suffix)

end

end

/-- The tokens are, as a whole, a choice that denotes the tree. -/
def Sentence (constant? : String → Option ρ) (ts : List (Token ρ)) (x : Expr ρ) : Prop :=
  Choice constant? ts x []

end Grammar
end Expr
end CircuitExpr
