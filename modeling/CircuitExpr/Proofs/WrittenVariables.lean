/-
# Variables as they are written

The variables of a text can be listed without reading it as a tree: `mentions` goes over
the tokens once and takes a variable wherever one is written, whatever stands around it.
The parser groups the operands of a text in its own way, but never changes their order, so
a phrase of the grammar mentions the leaves of its tree, from left to right
(`mentions_choice`).  Only the word at the end of a phrase needs to know what follows: it
is a variable unless a parenthesis comes next.
-/

import CircuitExpr.Proofs.ParserExactness
import CircuitExpr.Proofs.StackedEquations

namespace CircuitExpr
namespace Expr

open Grammar (Sym Name Lacks Operator Sign Choice Operands Signed Primary Arguments Listed
  VoltageWord CurrentWord)

variable {ρ : Type} {constant? : String → Option ρ}

/-- The variables written in some tokens, from left to right with their repetitions:
`@device[property]`, `V(node)`, `V(node,reference)`, `I(device)`, and the words that are
neither constants nor before a parenthesis. -/
def mentions (constant? : String → Option ρ) : List (Token ρ) → List Variable
  | [] => []
  | ⟨.symbol .atSign, _, _⟩ :: device :: _ :: property :: ts =>
    .property device.lexeme property.lexeme :: mentions constant? ts
  | ⟨.identifier, word, _⟩ :: ⟨.symbol .leftParen, _, _⟩ :: ts =>
    if VoltageWord word then
      match ts with
      | node :: ⟨.symbol .comma, _, _⟩ :: reference :: ts =>
        .voltageBetween node.lexeme reference.lexeme :: mentions constant? ts
      | node :: ts => .voltage node.lexeme :: mentions constant? ts
      | [] => []
    else if CurrentWord word then
      match ts with
      | device :: ts => .current device.lexeme :: mentions constant? ts
      | [] => []
    else mentions constant? ts
  | ⟨.identifier, word, _⟩ :: ts =>
    if (constant? word).isNone then .named word :: mentions constant? ts
    else mentions constant? ts
  | _ :: ts => mentions constant? ts

/-! ### One token after the other -/

variable {ts ts₁ rest : List (Token ρ)}

/-- A symbol mentions nothing, except the at sign. -/
theorem mentions_symbol {s : Symbol} (hs : s ≠ .atSign) (lexeme : String) (offset : Nat) :
    mentions constant? (⟨.symbol s, lexeme, offset⟩ :: rest) = mentions constant? rest := by
  cases s <;> first | exact absurd rfl hs | rfl

/-- Only one symbol mentions anything. -/
theorem mentions_sym {s : Symbol} (hs : s ≠ .atSign) (h : Sym s ts rest) :
    mentions constant? ts = mentions constant? rest := by
  obtain ⟨lexeme, offset, -⟩ := h
  exact mentions_symbol hs lexeme offset

/-- An operator mentions nothing. -/
theorem mentions_operator {k : Nat} {op : BinaryOp} (h : Operator k op ts rest) :
    mentions constant? ts = mentions constant? rest := by
  obtain ⟨s, lexeme, offset, _, hs⟩ := h
  refine mentions_symbol ?_ lexeme offset
  rintro rfl
  cases hs

/-- A sign mentions nothing. -/
theorem mentions_sign {op : UnaryOp} (h : Sign op ts rest) :
    mentions constant? ts = mentions constant? rest := by
  obtain ⟨s, lexeme, offset, _, hs⟩ := h
  refine mentions_symbol ?_ lexeme offset
  rintro rfl
  cases hs

/-- A word without a parenthesis is a variable or a constant. -/
theorem mentions_word (word : String) (offset : Nat) (h : Lacks .leftParen rest) :
    mentions constant? (⟨.identifier, word, offset⟩ :: rest) =
      if (constant? word).isNone then .named word :: mentions constant? rest
      else mentions constant? rest := by
  rw [mentions]
  rintro lexeme offset ts rfl
  exact h ts ⟨lexeme, offset, ts⟩

/-- The word before a parenthesis is no variable by itself. -/
theorem mentions_call {word : String} (offset : Nat) (hvoltage : ¬VoltageWord word)
    (hcurrent : ¬CurrentWord word) (h : Sym .leftParen ts ts₁) :
    mentions constant? (⟨.identifier, word, offset⟩ :: ts) = mentions constant? ts₁ := by
  obtain ⟨_, _, _⟩ := h
  -- The equations of `mentions` tell apart what stands in the parentheses; the definition does not.
  rw [mentions.eq_def]
  exact (if_neg hvoltage).trans (if_neg hcurrent)

/-- A voltage between two nodes is mentioned as one variable. -/
theorem mentions_voltageBetween {word node reference : String} {ts₂ ts₃ : List (Token ρ)}
    (offset : Nat) (hword : VoltageWord word) (hopen : Sym .leftParen ts ts₁)
    (hnode : Name ts₁ node ts₂) (hcomma : Sym .comma ts₂ ts₃)
    (hreference : Name ts₃ reference rest) :
    mentions constant? (⟨.identifier, word, offset⟩ :: ts) =
      .voltageBetween node reference :: mentions constant? rest := by
  obtain ⟨_, _, _⟩ := hopen
  obtain ⟨_, _, _⟩ := hcomma
  cases hnode <;> cases hreference <;> simp only [mentions, if_pos hword]

/-- The voltage of a node is mentioned as one variable. -/
theorem mentions_voltage {word node : String} {ts₂ : List (Token ρ)} (offset : Nat)
    (hword : VoltageWord word) (hopen : Sym .leftParen ts ts₁) (hnode : Name ts₁ node ts₂)
    (hclose : Sym .rightParen ts₂ rest) :
    mentions constant? (⟨.identifier, word, offset⟩ :: ts) =
      .voltage node :: mentions constant? rest := by
  obtain ⟨_, _, _⟩ := hopen
  obtain ⟨lexeme, offset, _⟩ := hclose
  rw [← mentions_symbol (s := .rightParen) (by decide) lexeme offset]
  cases hnode <;> simp only [mentions, if_pos hword]

/-- The current of a device is mentioned as one variable. -/
theorem mentions_current {word device : String} (offset : Nat) (hword : CurrentWord word)
    (hopen : Sym .leftParen ts ts₁) (hdevice : Name ts₁ device rest) :
    mentions constant? (⟨.identifier, word, offset⟩ :: ts) =
      .current device :: mentions constant? rest := by
  have hvoltage : ¬VoltageWord word := by rcases hword with rfl | rfl <;> decide
  obtain ⟨_, _, _⟩ := hopen
  rw [mentions.eq_def]
  cases hdevice <;> exact (if_neg hvoltage).trans (if_pos hword)

/-- A property is mentioned as one variable. -/
theorem mentions_property {device property : String} {ts₂ ts₃ : List (Token ρ)}
    (hat : Sym .atSign ts ts₁) (hdevice : Name ts₁ device ts₂) (hopen : Sym .leftBracket ts₂ ts₃)
    (hproperty : Name ts₃ property rest) :
    mentions constant? ts = .property device property :: mentions constant? rest := by
  obtain ⟨_, _, _⟩ := hat
  obtain ⟨_, _, _⟩ := hopen
  cases hdevice <;> cases hproperty <;> rfl

/-! ### Phrases -/

mutual

/-- **A phrase mentions the leaves of its tree,** and what follows it mentions the rest. -/
theorem mentions_choice {ts : List (Token ρ)} {x : Expr ρ} {rest : List (Token ρ)} :
    Choice constant? ts x rest → Lacks .leftParen rest →
      mentions constant? ts = x.leaves ++ mentions constant? rest
  | .operands h, hrest => mentions_operands h hrest
  | .conditional hc hquestion ht hcolon hf, hrest => by
    rw [mentions_operands hc (hquestion.lacks (by decide)), mentions_sym (by decide) hquestion,
      mentions_choice ht (hcolon.lacks (by decide)), mentions_sym (by decide) hcolon,
      mentions_choice hf hrest, leaves, List.append_assoc, List.append_assoc]

/-- However operands are grouped, they stay in order. -/
theorem mentions_operands {k : Nat} {ts : List (Token ρ)} {x : Expr ρ} {rest : List (Token ρ)} :
    Operands constant? k ts x rest → Lacks .leftParen rest →
      mentions constant? ts = x.leaves ++ mentions constant? rest
  | .left _ _ hx hop hy, hrest => by
    rw [mentions_operands hx (Parser.lacks_leftParen_of_operator hop), mentions_operator hop,
      mentions_operands hy hrest, leaves, List.append_assoc]
  | .next _ _ h, hrest => mentions_operands h hrest
  | .power hx hop hy, hrest => by
    rw [mentions_signed hx (Parser.lacks_leftParen_of_operator hop), mentions_operator hop,
      mentions_operands hy hrest, leaves, List.append_assoc]
  | .signed h, hrest => mentions_signed h hrest

/-- An operand with its signs mentions the leaves of its tree. -/
theorem mentions_signed {ts : List (Token ρ)} {x : Expr ρ} {rest : List (Token ρ)} :
    Signed constant? ts x rest → Lacks .leftParen rest →
      mentions constant? ts = x.leaves ++ mentions constant? rest
  | .sign hsign hx, hrest => by rw [mentions_sign hsign, mentions_signed hx hrest, leaves]
  | .primary h, hrest => mentions_primary h hrest

/-- An operand without signs mentions the leaves of its tree. -/
theorem mentions_primary {ts : List (Token ρ)} {x : Expr ρ} {rest : List (Token ρ)} :
    Primary constant? ts x rest → Lacks .leftParen rest →
      mentions constant? ts = x.leaves ++ mentions constant? rest
  | .number _ _ _ _, _ => rfl
  | .parentheses hopen hx hclose, _ => by
    rw [mentions_sym (by decide) hopen, mentions_choice hx (hclose.lacks (by decide)),
      mentions_sym (by decide) hclose]
  | .property hat hdevice hopen hproperty hclose, _ => by
    rw [mentions_property hat hdevice hopen hproperty, mentions_sym (by decide) hclose]
    rfl
  | .constant offset _ h, hrest => by
    rw [mentions_word _ offset hrest, h]
    rfl
  | .named offset _ h, hrest => by
    rw [mentions_word _ offset hrest, h]
    rfl
  | .voltage offset hword hopen hnode hclose, _ => mentions_voltage offset hword hopen hnode hclose
  | .voltageBetween offset hword hopen hnode hcomma hagainst hclose, _ => by
    rw [mentions_voltageBetween offset hword hopen hnode hcomma hagainst,
      mentions_sym (by decide) hclose]
    rfl
  | .current offset hword hopen hdevice hclose, _ => by
    rw [mentions_current offset hword hopen hdevice, mentions_sym (by decide) hclose]
    rfl
  | .call offset hvoltage hcurrent hopen hargs hclose, _ => by
    rw [mentions_call offset hvoltage hcurrent hopen,
      mentions_arguments hargs (hclose.lacks (by decide)), mentions_sym (by decide) hclose, leaves]

/-- Arguments mention the leaves of their trees. -/
theorem mentions_arguments {ts : List (Token ρ)} {xs : List (Expr ρ)} {rest : List (Token ρ)} :
    Arguments constant? ts xs rest → Lacks .leftParen rest →
      mentions constant? ts = leavesAll xs ++ mentions constant? rest
  | .none _, _ => rfl
  | .some h, hrest => mentions_listed h hrest

/-- A list of arguments mentions the leaves of its trees. -/
theorem mentions_listed {ts : List (Token ρ)} {xs : List (Expr ρ)} {rest : List (Token ρ)} :
    Listed constant? ts xs rest → Lacks .leftParen rest →
      mentions constant? ts = leavesAll xs ++ mentions constant? rest
  | .last h, hrest => by
    rw [mentions_choice h hrest, leavesAll, leavesAll, List.append_nil]
  | .more hx hcomma hxs, hrest => by
    rw [mentions_choice hx (hcomma.lacks (by decide)), mentions_sym (by decide) hcomma,
      mentions_listed hxs hrest, leavesAll, List.append_assoc]

end

/-! ### Texts -/

/-- The occurrences of variables in a tree are those written in its text. -/
theorem occurrences_of_parse [Scalar ρ] {text : String} {e : Expr ρ}
    (h : Expr.parse constant? text = .ok e) :
    ∃ ts : Tokens ρ, Tokens.ofText text = .ok ts ∧ e.occurrences = mentions constant? ts.tokens := by
  obtain ⟨ts, hts, hsentence⟩ := (Parser.parse_eq_ok_iff constant? text e).mp h
  refine ⟨ts, hts, ?_⟩
  rw [mentions_choice hsentence Parser.ends_nil.leftParen, occurrences_eq_leaves, mentions,
    List.append_nil]

end Expr

namespace EquationSystem

open Attempt Equation

variable {ρ S α σ : Type} [Scalar ρ] {s : Setting ρ S α}

/-- What is read from texts depends on the variables that the texts mention. -/
theorem occurrences_of_read {texts : List String} {exprs : List (String × Expr ρ)}
    (h : List.Forall₂ (fun text t => read s text = .ok t.2 ∧ t.1 = text) texts exprs) :
    ∃ tss : List (Tokens ρ), List.Forall₂ (fun text ts => Tokens.ofText text = .ok ts) texts tss ∧
      (exprs.flatMap fun t => t.2.occurrences) =
        tss.flatMap fun ts => Expr.mentions s.vocabulary.constant? ts.tokens := by
  induction h with
  | nil => exact ⟨[], .nil, rfl⟩
  | cons hread _ ih =>
    obtain ⟨ts, hts, hfirst⟩ := Expr.occurrences_of_parse (mapError_eq_ok.mp hread.1)
    obtain ⟨tss, htss, hothers⟩ := ih
    exact ⟨ts :: tss, .cons hts htss, congrArg₂ (· ++ ·) hfirst hothers⟩

/-- **The variables of a system are those of its texts, one text after the other.** -/
theorem vars_of_ofTexts {host : Resolver σ S} {texts : List String} {state : σ}
    {y : EquationSystem ρ S α} (h : (ofTexts s host texts state).1 = .ok y) :
    ∃ tss : List (Tokens ρ), List.Forall₂ (fun text ts => Tokens.ofText text = .ok ts) texts tss ∧
      y.vars = OrderedMap.distinct
        (tss.flatMap fun ts => Expr.mentions s.vocabulary.constant? ts.tokens) := by
  obtain ⟨exprs, hexprs, hvars, -⟩ := ofTexts_eq_ok.mp h
  obtain ⟨tss, htss, hoccurrences⟩ := occurrences_of_read hexprs
  refine ⟨tss, htss, ?_⟩
  rw [hvars, unionOfVariables, List.flatMap_map, ← hoccurrences]
  exact OrderedMap.distinct_flatMap_distinct (fun t : String × Expr ρ => t.2.occurrences) exprs

end EquationSystem

/-- **Variables are listed in the order in which they are written.**  The variables of a
text that can be read are those that its tokens mention, from left to right and each where
it is mentioned first, whatever constants are known; and the variables of a system are
listed in this way over all its texts, in the order of the texts. -/
theorem variables_in_written_order {ρ : Type} [Scalar ρ] :
    (∀ (constant? : String → Option ρ) (text : String) (e : Expr ρ),
      Expr.parse constant? text = .ok e →
      ∃ ts : Tokens ρ, Tokens.ofText text = .ok ts ∧
        e.occurrences = Expr.mentions constant? ts.tokens ∧
        e.vars = OrderedMap.distinct (Expr.mentions constant? ts.tokens) ∧
        OrderedMap.FirstOccurrences e.vars (Expr.mentions constant? ts.tokens)) ∧
    ∀ {S α σ : Type} (s : Setting ρ S α) (host : Resolver σ S) (texts : List String) (state : σ)
      (y : EquationSystem ρ S α), (EquationSystem.ofTexts s host texts state).1 = .ok y →
      ∃ tss : List (Tokens ρ),
        List.Forall₂ (fun text ts => Tokens.ofText text = .ok ts) texts tss ∧
        y.vars = OrderedMap.distinct
          (tss.flatMap fun ts => Expr.mentions s.vocabulary.constant? ts.tokens) ∧
        OrderedMap.FirstOccurrences y.vars
          (tss.flatMap fun ts => Expr.mentions s.vocabulary.constant? ts.tokens) := by
  refine ⟨fun constant? text e h => ?_, fun s host texts state y h => ?_⟩
  · obtain ⟨ts, hts, hoccurrences⟩ := Expr.occurrences_of_parse h
    have hvars : e.vars = OrderedMap.distinct (Expr.mentions constant? ts.tokens) :=
      congrArg OrderedMap.distinct hoccurrences
    exact ⟨ts, hts, hoccurrences, hvars, hvars ▸ OrderedMap.firstOccurrences_distinct _⟩
  · obtain ⟨tss, htss, hvars⟩ := EquationSystem.vars_of_ofTexts h
    exact ⟨tss, htss, hvars, hvars ▸ OrderedMap.firstOccurrences_distinct _⟩

/-- The tokens of `b-V(a,b)*b`. -/
def nodesTokens : List (Token ℝ) :=
  [⟨.identifier, "b", 0⟩, ⟨.symbol .minus, "-", 1⟩, ⟨.identifier, "V", 2⟩,
    ⟨.symbol .leftParen, "(", 3⟩, ⟨.identifier, "a", 4⟩, ⟨.symbol .comma, ",", 5⟩,
    ⟨.identifier, "b", 6⟩, ⟨.symbol .rightParen, ")", 7⟩, ⟨.symbol .star, "*", 8⟩,
    ⟨.identifier, "b", 9⟩]

/-- Its tree. -/
def nodesTree : Expr ℝ :=
  .binary .sub (.var (.named "b"))
    (.binary .mul (.var (.voltageBetween "a" "b")) (.var (.named "b")))

/-- The text `b-V(a,b)*b` has these tokens. -/
theorem ofText_nodes :
    Tokens.ofText "b-V(a,b)*b" = .ok (⟨nodesTokens, 10⟩ : Tokens ℝ) := by cbv

/-- The text has this tree. -/
theorem parse_nodes :
    Expr.parse Vocabulary.builtin.constant? "b-V(a,b)*b" = .ok nodesTree := by
  have hb : (Vocabulary.builtin : Vocabulary ℝ).constant? "b" = none := constant?_b
  -- Only what the constants say of `b` matters, so they are not evaluated.
  generalize (Vocabulary.builtin : Vocabulary ℝ).constant? = constant? at hb ⊢
  cbv
  rw [hb]
  rfl

/-- A word alone is one token. -/
theorem ofText_single : Tokens.ofText "a" = .ok (⟨[⟨.identifier, "a", 0⟩], 1⟩ : Tokens ℝ) := by cbv

/-- The texts `a`, `b-V(a,b)*b` and `a`: what is written again does not count again, and
the names of the nodes do not count at all. -/
theorem nodesSystem_in_written_order :
    Expr.parse Vocabulary.builtin.constant? "b-V(a,b)*b" = .ok nodesTree ∧
    nodesTree.vars = [.named "b", .voltageBetween "a" "b"] ∧
    ∃ y : EquationSystem ℝ Variable ℝ,
      (EquationSystem.ofTexts exactSetting (.recording some) ["a", "b-V(a,b)*b", "a"] []).1 =
        .ok y ∧
      y.vars = [.named "a", .named "b", .voltageBetween "a" "b"] := by
  have hvars : nodesTree.vars = [.named "b", .voltageBetween "a" "b"] := by
    obtain ⟨ts, hts, -, hvars, -⟩ :=
      variables_in_written_order.1 Vocabulary.builtin.constant? "b-V(a,b)*b" _ parse_nodes
    obtain rfl := Except.ok.inj (ofText_nodes.symm.trans hts)
    exact hvars
  refine ⟨parse_nodes, hvars, ?_⟩
  have hhost := Resolver.steady_recording (S := Variable) some
  have ha : ∃ q : Equation ℝ Variable ℝ,
      (Equation.ofText exactSetting (.recording some) "a" []).1 = .ok q :=
    ⟨_, Equation.ofText_eq_ok.mpr ⟨_, read_a, by rw [Expr.vars_var, ofExpr_var]⟩⟩
  have hnodes : ∃ q : Equation ℝ Variable ℝ,
      (Equation.ofText exactSetting (.recording some) "b-V(a,b)*b" []).1 = .ok q := by
    have hbuildable : nodesTree.Buildable (exactSetting : Setting ℝ Variable ℝ) some :=
      ⟨_, rfl⟩
    obtain ⟨ds, hds⟩ : ∃ ds, nodesTree.derivatives .builtin nodesTree.vars = some ds := by
      rw [hvars]
      exact ⟨_, rfl⟩
    obtain ⟨q, hq, -⟩ := Equation.exists_assemble hhost hbuildable
      (fun v _ => Expr.buildable_derivatives hbuildable hds v) "b-V(a,b)*b" []
    have hderive : nodesTree.derive .builtin nodesTree.vars = some ds :=
      (Expr.derive_eq_derivatives ..).trans hds
    refine ⟨q, Equation.ofText_eq_ok.mpr ⟨_, mapError_eq_ok.mpr parse_nodes, ?_⟩⟩
    rw [Equation.ofExpr, exactSetting, hderive]
    exact hq
  obtain ⟨y, hy⟩ := (EquationSystem.exists_ofTexts_iff hhost ["a", "b-V(a,b)*b", "a"] [] []).mpr
    (List.forall_mem_cons.mpr
      ⟨ha, List.forall_mem_cons.mpr ⟨hnodes, List.forall_mem_singleton.mpr ha⟩⟩)
  refine ⟨y, hy, ?_⟩
  obtain ⟨tss, htss, hy, -⟩ := variables_in_written_order.2 _ _ _ _ y hy
  obtain _ | ⟨hfirst, _ | ⟨hsecond, _ | ⟨hthird, _ | _⟩⟩⟩ := htss
  obtain rfl := Except.ok.inj (ofText_single.symm.trans hfirst)
  obtain rfl := Except.ok.inj (ofText_nodes.symm.trans hsecond)
  obtain rfl := Except.ok.inj (ofText_single.symm.trans hthird)
  exact hy

end CircuitExpr
