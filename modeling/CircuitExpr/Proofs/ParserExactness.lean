/-
# The parser reads exactly the grammar

A phrase of the grammar is read by the function for it, provided that what follows
does not continue it: no parenthesis after a word, no question mark and no operator
after a choice.  For operands of strength `k` this is stated with the rest of the
loop still to come: if `climb` goes on from the phrase to `y`, then the loop started
at the front of the phrase reads `y`.  In this form the statement passes through the
operators that group from the left, where the derivation nests on its left end and
the loop runs forward.

Together with soundness this settles which texts are read, and as what tree.
-/

import CircuitExpr.Double
import CircuitExpr.Proofs.ParserSoundness

namespace CircuitExpr
namespace Expr
namespace Parser

open Grammar (Sym Name Lacks Operator Sign Choice Operands Signed Primary Arguments Listed Sentence)

variable {ρ : Type} {context : Context ρ} {ts rest : List (Token ρ)}

/-- The tokens do not continue a choice. -/
structure Ends (rest : List (Token ρ)) : Prop where
  /-- They do not continue operands. -/
  operator (op : BinaryOp) (ts : List (Token ρ)) : ¬OperatorAt op rest ts
  /-- They do not continue a condition. -/
  question : Lacks .question rest
  /-- They do not continue a word. -/
  leftParen : Lacks .leftParen rest

/-- Nothing continues at the end. -/
theorem ends_nil : Ends ([] : List (Token ρ)) where
  operator := by rintro _ _ ⟨⟩
  question := by rintro _ ⟨⟩
  leftParen := by rintro _ ⟨⟩

/-- A symbol that is no operator starts none. -/
theorem not_operatorAt {s : Symbol} (hs : s.operator? = none) (h : Sym s ts rest)
    (op : BinaryOp) (ts' : List (Token ρ)) : ¬OperatorAt op ts ts' := by
  rintro ⟨_, _, _, _, hop⟩
  cases h
  cases hs.symm.trans (Grammar.joins_iff.mp hop).1

/-- A symbol that is no operator, question mark or parenthesis continues nothing. -/
theorem ends_of_sym {s : Symbol} (h : Sym s ts rest) (hoperator : s.operator? = none)
    (hquestion : s ≠ .question) (hleftParen : s ≠ .leftParen) : Ends ts where
  operator := not_operatorAt hoperator h
  question := h.lacks hquestion
  leftParen := h.lacks hleftParen

/-- What continues nothing stops the operators at every strength. -/
theorem StopsBelow.of_ends {least : Nat} (h : Ends ts) : StopsBelow least ts :=
  fun op rest hop => absurd hop (h.operator op rest)

/-- Where an operator comes, no parenthesis does. -/
theorem lacks_leftParen_of_operator {k : Nat} {op : BinaryOp} (h : Operator k op ts rest) :
    Lacks .leftParen ts := by
  obtain ⟨s, _, _, _, hs⟩ := h
  rintro _ ⟨⟩
  cases hs

/-- A weaker operator stops the climb. -/
theorem stopsBelow_of_operator {k least : Nat} {op : BinaryOp} (h : Operator k op ts rest)
    (hless : k < least) : StopsBelow least ts := by
  obtain rfl := h.precedence_eq
  intro op' rest' h'
  obtain ⟨rfl, -⟩ := operatorAt_unique h h'
  exact hless

/-- A climb that an end stops keeps what it has. -/
theorem reads_climb_of_stops {least : Nat} {x : Expr ρ} (h : StopsBelow least ts) :
    Reads (climb context least x ts) x ts :=
  reads_climb.mpr (.inl ⟨h, rfl, rfl⟩)

/-- Climbing takes an operator with the right operand that its strength asks for. -/
theorem reads_climb_of_operator {k m least : Nat} {op : BinaryOp} {x y z : Expr ρ}
    {ts₁ ts₂ : List (Token ρ)} (hop : Operator k op ts ts₁) (hk : least ≤ k)
    (hm : m = min (k + 1) 7) (hy : Reads (operands context m ts₁) y ts₂)
    (hz : Reads (climb context least (.binary op x y) ts₂) z rest) :
    Reads (climb context least x ts) z rest := by
  obtain rfl := hop.precedence_eq
  rw [hm, ← rightStrength_eq] at hy
  exact reads_climb.mpr (.inr ⟨_, _, _, _, hop, hk, hy, hz⟩)

/-- An operand without signs starts with none. -/
theorem unsigned_of_primary {x : Expr ρ} (h : Primary context.constant? ts x rest) :
    Unsigned ts := by
  rintro op _ ⟨s, _, _, _, hs⟩
  cases h with
  | parentheses hopen => cases hopen; cases hs
  | property hat => cases hat; cases hs

/-- Nothing that can be an argument starts with a closing parenthesis. -/
theorem lacks_rightParen_of_reads {x : Expr ρ} (h : Reads (choice context ts) x rest) :
    Lacks .rightParen ts := by
  have hsigned : ∃ y ts₁, Reads (signed context ts) y ts₁ := by
    rcases reads_choice.mp h with ⟨h, -⟩ | ⟨_, _, _, _, _, _, _, h, -⟩
    · obtain ⟨y, ts₁, h, -⟩ := reads_operands.mp h
      exact ⟨y, ts₁, h⟩
    · obtain ⟨y, ts₁, h, -⟩ := reads_operands.mp h
      exact ⟨y, ts₁, h⟩
  obtain ⟨y, ts₁, h⟩ := hsigned
  rintro _ ⟨_, _, _⟩
  rcases reads_signed.mp h with ⟨op, _, _, ⟨_, _, _, _, hs⟩, -⟩ | ⟨-, h⟩
  · cases hs
  · rcases reads_primary.mp h with
      ⟨_, _, _, hts, -⟩ | ⟨_, _, hts, -⟩ | ⟨_, _, hts, -⟩ | ⟨_, _, hts, -⟩ |
      ⟨_, _, _, _, hts, -⟩ <;> cases hts

mutual

/-- **What is derivable is read**, if nothing that follows could be read too. -/
theorem choice_complete {ts : List (Token ρ)} {x : Expr ρ} {rest : List (Token ρ)} :
    Choice context.constant? ts x rest → Ends rest → Reads (choice context ts) x rest
  | .operands h, hends =>
    reads_choice.mpr (.inl ⟨operands_complete h (by decide) (by decide) hends.leftParen
      (.of_ends hends) (reads_climb_of_stops (.of_ends hends)), hends.question⟩)
  | .conditional hc hquestion ht hcolon hf, hends => by
    have hstops : ∀ least, StopsBelow least _ := fun _ op _ hop =>
      absurd hop (not_operatorAt rfl hquestion op _)
    have hc := operands_complete hc (Nat.le_refl 1) (Nat.le_refl 1) (hquestion.lacks (by decide))
      (hstops _) (reads_climb_of_stops (hstops _))
    have ht := choice_complete ht (ends_of_sym hcolon rfl (by decide) (by decide))
    exact reads_choice.mpr (.inr ⟨_, _, _, _, _, _, _, hc, hquestion, ht, hcolon,
      choice_complete hf hends, rfl⟩)

/-- Operands of strength `k` are read by any climb that reaches down to `k`: what remains
of the climb goes on behind them. -/
theorem operands_complete {k : Nat} {ts : List (Token ρ)} {x : Expr ρ} {rest : List (Token ρ)} :
    Operands context.constant? k ts x rest → ∀ {least : Nat} {y : Expr ρ} {rest' : List (Token ρ)},
      1 ≤ least → least ≤ k → Lacks .leftParen rest → StopsBelow (min (k + 1) 7) rest →
      Reads (climb context least x rest) y rest' → Reads (operands context least ts) y rest'
  | .left hone hsix hx hop hy, least, _, _, hleast, hk, hrest, hstops, hclimb => by
    -- The loop that reads the right operand stops where the derivation says it ends.
    have hright := operands_complete hy (Nat.le_add_left _ _) (Nat.le_refl _) hrest
      (hstops.mono (by omega)) (reads_climb_of_stops (hstops.mono (by omega)))
    exact operands_complete hx hleast hk (lacks_leftParen_of_operator hop)
      (stopsBelow_of_operator hop (by omega))
      (reads_climb_of_operator hop hk (by omega) hright hclimb)
  | .next hone hsix h, least, _, _, hleast, hk, hrest, hstops, hclimb =>
    operands_complete h hleast (Nat.le_succ_of_le hk) hrest (hstops.mono (by omega)) hclimb
  | .power hx hop hy, least, _, _, hleast, hk, hrest, hstops, hclimb =>
    have hright := operands_complete hy (by decide) (Nat.le_refl _) hrest hstops
      (reads_climb_of_stops hstops)
    reads_operands.mpr ⟨_, _, signed_complete hx (lacks_leftParen_of_operator hop),
      reads_climb_of_operator hop hk rfl hright hclimb⟩
  | .signed h, least, _, _, hleast, hk, hrest, hstops, hclimb =>
    reads_operands.mpr ⟨_, _, signed_complete h hrest, hclimb⟩

/-- Every signed operand is read. -/
theorem signed_complete {ts : List (Token ρ)} {x : Expr ρ} {rest : List (Token ρ)} :
    Signed context.constant? ts x rest → Lacks .leftParen rest →
      Reads (signed context ts) x rest
  | .sign hsign hx, hrest =>
    reads_signed.mpr (.inl ⟨_, _, _, hsign, signed_complete hx hrest, rfl⟩)
  | .primary h, hrest =>
    reads_signed.mpr (.inr ⟨unsigned_of_primary h, primary_complete h hrest⟩)

/-- Every operand without signs is read. -/
theorem primary_complete {ts : List (Token ρ)} {x : Expr ρ} {rest : List (Token ρ)} :
    Primary context.constant? ts x rest → Lacks .leftParen rest →
      Reads (primary context ts) x rest
  | .number _ _ _ _, _ => reads_primary.mpr (.inl ⟨_, _, _, rfl, rfl⟩)
  | .parentheses hopen hx hclose, _ =>
    reads_primary.mpr (.inr (.inl ⟨_, _, hopen,
      choice_complete hx (ends_of_sym hclose rfl (by decide) (by decide)), hclose⟩))
  | .property hat hdevice hopen hproperty hclose, _ =>
    reads_primary.mpr (.inr (.inr (.inl ⟨_, _, hat,
      reads_property.mpr ⟨_, _, _, _, _, hdevice, hopen, hproperty, hclose, rfl⟩, rfl⟩)))
  | .constant offset rest h, hrest =>
    reads_primary.mpr (.inr (.inr (.inr (.inl ⟨_, _, rfl, hrest, by simp only [word, h]⟩))))
  | .named offset rest h, hrest =>
    reads_primary.mpr (.inr (.inr (.inr (.inl ⟨_, _, rfl, hrest, by simp only [word, h]⟩))))
  | .voltage offset hword hopen hnode hclose, _ =>
    reads_primary.mpr (.inr (.inr (.inr (.inr ⟨_, _, _, _, rfl, hopen,
      (reads_call_voltage hword).mpr ⟨_, reads_voltage.mpr ⟨_, _, _, _, hnode,
        reads_reference.mpr (.inr ⟨hclose.lacks (by decide), rfl, rfl⟩), hclose, rfl⟩, rfl⟩⟩))))
  | .voltageBetween offset hword hopen hnode hcomma hagainst hclose, _ =>
    reads_primary.mpr (.inr (.inr (.inr (.inr ⟨_, _, _, _, rfl, hopen,
      (reads_call_voltage hword).mpr ⟨_, reads_voltage.mpr ⟨_, _, _, _, hnode,
        reads_reference.mpr (.inl ⟨_, _, hcomma, hagainst, rfl⟩), hclose, rfl⟩, rfl⟩⟩))))
  | .current offset hword hopen hdevice hclose, _ =>
    have hvoltage : ¬Grammar.VoltageWord _ := by
      rcases hword with rfl | rfl <;> simp [Grammar.VoltageWord]
    reads_primary.mpr (.inr (.inr (.inr (.inr ⟨_, _, _, _, rfl, hopen,
      (reads_call_current hvoltage hword).mpr
        ⟨_, reads_current.mpr ⟨_, _, hdevice, hclose, rfl⟩, rfl⟩⟩))))
  | .call offset hvoltage hcurrent hopen hargs hclose, _ =>
    reads_primary.mpr (.inr (.inr (.inr (.inr ⟨_, _, _, _, rfl, hopen,
      (reads_call hvoltage hcurrent).mpr (arguments_complete hargs hclose)⟩))))

/-- All arguments are read, none as well as some. -/
theorem arguments_complete {ts ts₁ : List (Token ρ)} {xs : List (Expr ρ)} {rest : List (Token ρ)}
    {name : String} : Arguments context.constant? ts xs ts₁ → Sym .rightParen ts₁ rest →
      (Sym .rightParen ts rest ∧ Expr.call name xs = .call name []) ∨
        Lacks .rightParen ts ∧ ∃ args, Reads (arguments context ts) args rest ∧
          Expr.call name xs = .call name args
  | .none _, hclose => .inl ⟨hclose, rfl⟩
  | .some h, hclose => by
    have hargs := listed_complete h hclose
    refine .inr ⟨?_, _, hargs, rfl⟩
    rcases reads_arguments.mp hargs with ⟨_, _, _, _, hfirst, -⟩ | ⟨_, _, hfirst, -⟩
    · exact lacks_rightParen_of_reads hfirst
    · exact lacks_rightParen_of_reads hfirst

/-- Every list of arguments before a parenthesis is read. -/
theorem listed_complete {ts ts₁ : List (Token ρ)} {xs : List (Expr ρ)} {rest : List (Token ρ)} :
    Listed context.constant? ts xs ts₁ → Sym .rightParen ts₁ rest →
      Reads (arguments context ts) xs rest
  | .last h, hclose =>
    reads_arguments.mpr (.inr ⟨_, _,
      choice_complete h (ends_of_sym hclose rfl (by decide) (by decide)), hclose, rfl⟩)
  | .more hx hcomma hxs, hclose =>
    reads_arguments.mpr (.inl ⟨_, _, _, _,
      choice_complete hx (ends_of_sym hcomma rfl (by decide) (by decide)), hcomma,
      listed_complete hxs hclose, rfl⟩)

end

/-! ### Whole texts -/

/-- A choice with nothing after it is read to the end. -/
theorem whole_eq_ok_iff (context : Context ρ) {x : Expr ρ} :
    whole context ts = .ok x ↔ Sentence context.constant? ts x := by
  have hwhole : whole context ts = .ok x ↔ Reads (choice context ts) x [] := by
    unfold whole
    constructor
    · intro h
      split at h
      · cases h
      · rename_i p hp
        split at h
        · rename_i hrest
          cases h
          exact ⟨p, hp, rfl, hrest⟩
        · cases h
    · rintro ⟨p, hp, rfl, hrest⟩
      simp only [hp, hrest]
  rw [hwhole]
  exact ⟨choice_sound, fun h => choice_complete h ends_nil⟩

/-- The trees of a text that consists of tokens are those of its tokens. -/
theorem parse_eq_ok_iff [Scalar ρ] (constant? : String → Option ρ) (text : String) (x : Expr ρ) :
    Expr.parse constant? text = .ok x ↔
      ∃ ts : Tokens ρ, Tokens.ofText text = .ok ts ∧ Sentence constant? ts.tokens x := by
  unfold Expr.parse
  cases hts : (Tokens.ofText text : Except ParseError (Tokens ρ)) with
  | error e => simp
  | ok ts => simp [whole_eq_ok_iff]

/-- **The parser reads exactly the grammar.**  A text is read as a tree when it
consists of tokens that the grammar derives for that tree, and the grammar derives
one tree at most.  On whatever tokens, the parser comes to an end: with an error, or
with a choice at the front, after which the others are left. -/
theorem parse_exact [Scalar ρ] (constant? : String → Option ρ) :
    (∀ text x, Expr.parse constant? text = .ok x ↔
      ∃ ts : Tokens ρ, Tokens.ofText text = .ok ts ∧ Sentence constant? ts.tokens x) ∧
    (∀ (ts : List (Token ρ)) x y, Sentence constant? ts x → Sentence constant? ts y → x = y) ∧
    ∀ stop (ts : List (Token ρ)), (∃ e, choice ⟨constant?, stop⟩ ts = .error e) ∨
      ∃ p, choice ⟨constant?, stop⟩ ts = .ok p ∧ Choice constant? ts p.value p.rest ∧
        ∃ read, read ≠ [] ∧ ts = read ++ p.rest := by
  refine ⟨parse_eq_ok_iff constant?, fun ts x y hx hy => ?_, fun stop ts => ?_⟩
  · have hx := (whole_eq_ok_iff ⟨constant?, 0⟩).mpr hx
    rw [(whole_eq_ok_iff ⟨constant?, 0⟩).mpr hy] at hx
    exact (Except.ok.inj hx).symm
  · cases hp : choice ⟨constant?, stop⟩ ts with
    | error e => exact .inl ⟨e, rfl⟩
    | ok p =>
      have h : Choice constant? ts p.value p.rest :=
        choice_sound (show Reads (choice ⟨constant?, stop⟩ ts) _ _ from ⟨p, hp, rfl, rfl⟩)
      obtain ⟨read, hread⟩ := h.suffix
      refine .inr ⟨p, rfl, h, read, ?_, hread.symm⟩
      rintro rfl
      have hlt := p.rest_length
      have hlength : p.rest.length = ts.length := congrArg List.length hread
      omega

/-- The tokens of `-a-b-+c^!d^e`. -/
def chainTokens : List (Token Double) :=
  [⟨.symbol .minus, "-", 0⟩, ⟨.identifier, "a", 1⟩, ⟨.symbol .minus, "-", 2⟩,
    ⟨.identifier, "b", 3⟩, ⟨.symbol .minus, "-", 4⟩, ⟨.symbol .plus, "+", 5⟩,
    ⟨.identifier, "c", 6⟩, ⟨.symbol .caret, "^", 7⟩, ⟨.symbol .bang, "!", 8⟩,
    ⟨.identifier, "d", 9⟩, ⟨.symbol .caret, "^", 10⟩, ⟨.identifier, "e", 11⟩]

/-- The tree of the powers at the end of `chainTokens`, which group from the right. -/
def powerTree : Expr Double :=
  .binary .pow (.unary .plus (.var (.named "c")))
    (.binary .pow (.unary .not (.var (.named "d"))) (.var (.named "e")))

/-- The tree of `chainTokens`: differences group from the left, and an operator before an
operand binds more tightly than any between operands. -/
def chainTree : Expr Double :=
  .binary .sub (.binary .sub (.unary .minus (.var (.named "a"))) (.var (.named "b"))) powerTree

/-- The tokens `-a-b-+c^!d^e` are a choice that denotes one tree. -/
theorem chainTree_unique :
    Sentence (fun _ => none) chainTokens chainTree ∧
      ∀ x, Sentence (fun _ => none) chainTokens x → x = chainTree := by
  have hword (word : String) (offset : Nat) (rest : List (Token Double)) :
      Signed (fun _ => none) (⟨.identifier, word, offset⟩ :: rest) (.var (.named word)) rest :=
    .primary (.named offset rest rfl)
  have hpow : Operands (fun _ => none) 7 (chainTokens.drop 5) powerTree [] :=
    .power (.sign ⟨_, _, _, _, .plus⟩ (hword ..)) ⟨_, _, _, _, .pow⟩
      (.power (.sign ⟨_, _, _, _, .not⟩ (hword ..)) ⟨_, _, _, _, .pow⟩ (.signed (hword ..)))
  have ha : Operands (fun _ => none) 5 chainTokens (.unary .minus (.var (.named "a")))
      (chainTokens.drop 2) :=
    .of_le (by decide) (by decide) (Nat.le_refl 7) (.signed (.sign ⟨_, _, _, _, .minus⟩ (hword ..)))
  have hb : Operands (fun _ => none) 6 (chainTokens.drop 3) (.var (.named "b"))
      (chainTokens.drop 4) :=
    .of_le (by decide) (by decide) (Nat.le_refl 7) (.signed (hword ..))
  have hab : Operands (fun _ => none) 5 chainTokens
      (.binary .sub (.unary .minus (.var (.named "a"))) (.var (.named "b"))) (chainTokens.drop 4) :=
    .left (by decide) (by decide) ha ⟨_, _, _, _, .sub⟩ hb
  have hchain : Sentence (fun _ => none) chainTokens chainTree :=
    .operands (.of_le (by decide) (by decide) (by decide : 5 ≤ 7)
      (.left (by decide) (by decide) hab ⟨_, _, _, _, .sub⟩
        (.next (by decide) (by decide) hpow)))
  exact ⟨hchain, fun x hx => (parse_exact _).2.1 _ x chainTree hx hchain⟩

end Parser
end Expr
end CircuitExpr
