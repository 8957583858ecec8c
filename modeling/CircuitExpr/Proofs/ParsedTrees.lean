/-
# The trees that texts are read as

A tree that was read from a text can be written and read again without a change.  All
its parts come from tokens: the names are words and numbers of the text, the constants
are numbers of the text or have a name, and neither kind has a sign; no symbol stands
for exclusive or.  So the tree is printable and in normal form.

The proof is by whole derivations, one case for each rule of the grammar.  What the
rules need to know of a token is that it is valid and, if it is a number, *plain*:
finite and without a sign.
-/

import Mathlib
import CircuitExpr.Proofs.DoubleText

namespace CircuitExpr
namespace Expr

open Lexer
open Grammar (Sym Name Operator Sign Choice Operands Signed Primary Arguments Listed Sentence)

variable {ρ : Type} [Scalar ρ]

/-- The constant is finite and has no sign. -/
structure Plain (c : ρ) : Prop where
  /-- It is defined. -/
  isNaN : Scalar.isNaN c = false
  /-- It is not infinite. -/
  isInf : Scalar.isInf c = false
  /-- Its sign is not set. -/
  isNegative : Scalar.isNegative c = false

/-- The tokens are valid, their numbers are plain, and so are the constants with a name. -/
structure PlainSource (constant? : String → Option ρ) (ts : List (Token ρ)) : Prop where
  /-- The tokens are valid. -/
  valid : ∀ t ∈ ts, Lexer.Valid t
  /-- Their numbers are plain. -/
  number : ∀ t ∈ ts, ∀ x, t.kind = .number x → Plain x
  /-- The constants with a name are plain. -/
  constant : ∀ w c, constant? w = some c → Plain c

/-- The tree is printable and has nothing to normalise. -/
structure Normal (constant? : String → Option ρ) (x : Expr ρ) : Prop where
  /-- It is printable. -/
  printable : Printable constant? x
  /-- It is its own normal form. -/
  normalise_eq : x.normalise = x

/-- The end of a plain source is plain. -/
theorem PlainSource.suffix {constant? : String → Option ρ} {ts rest : List (Token ρ)}
    (h : PlainSource constant? ts) (hrest : rest <:+ ts) : PlainSource constant? rest where
  valid := fun t ht => h.valid t (hrest.subset ht)
  number := fun t ht => h.number t (hrest.subset ht)
  constant := h.constant

/-- A plain constant is normal. -/
theorem normal_constant {constant? : String → Option ρ} {c : ρ} (hc : Plain c) :
    Normal constant? (.constant c) where
  printable := .constant hc.isNaN hc.isInf
  normalise_eq := if_neg (by rw [hc.isNegative]; exact Bool.false_ne_true)

/-- An operator between normal trees is normal, except `xor`, which has no symbol. -/
theorem normal_binary {constant? : String → Option ρ} {op : BinaryOp} {x y : Expr ρ}
    (hop : op ≠ .xor) (hx : Normal constant? x) (hy : Normal constant? y) :
    Normal constant? (.binary op x y) where
  printable := .binary hx.printable hy.printable
  normalise_eq := by
    have h : (Expr.binary op x y).normalise = .binary op x.normalise y.normalise := by
      cases op <;> first | rfl | exact absurd rfl hop
    rw [h, hx.normalise_eq, hy.normalise_eq]

/-- A list of normal trees has nothing to normalise. -/
theorem normaliseAll_eq {xs : List (Expr ρ)} (h : ∀ x ∈ xs, x.normalise = x) :
    normaliseAll xs = xs := by
  induction xs with
  | nil => rfl
  | cons x xs ih =>
    rw [normaliseAll, h x List.mem_cons_self, ih fun y hy => h y (List.mem_cons_of_mem x hy)]

omit [Scalar ρ] in
/-- No symbol stands for exclusive or. -/
theorem ne_xor_of_operator {k : Nat} {op : BinaryOp} {ts rest : List (Token ρ)}
    (h : Operator k op ts rest) : op ≠ .xor := by
  obtain ⟨s, _, _, _, hs⟩ := h
  rintro rfl
  cases hs

/-- A name in a plain source is a name. -/
theorem isName_of_name {constant? : String → Option ρ} {ts rest : List (Token ρ)} {w : String}
    (h : Name ts w rest) (hts : PlainSource constant? ts) : IsName w := by
  cases h with
  | identifier lexeme offset => exact .inl (hts.valid _ List.mem_cons_self)
  | number x lexeme offset => exact .inr (hts.valid _ List.mem_cons_self).1

section Trees

variable {constant? : String → Option ρ}

mutual

/-- A choice read from a plain source is normal. -/
theorem normal_of_choice {ts : List (Token ρ)} {x : Expr ρ} {rest : List (Token ρ)} :
    Choice constant? ts x rest → PlainSource constant? ts → Normal constant? x
  | .operands h, hts => normal_of_operands h hts
  | .conditional hc hquestion ht hcolon hf, hts =>
    have ht' := hquestion.suffix.trans hc.suffix
    have hf' := hcolon.suffix.trans (ht.suffix.trans ht')
    have hc := normal_of_operands hc hts
    have ht := normal_of_choice ht (hts.suffix ht')
    have hf := normal_of_choice hf (hts.suffix hf')
    ⟨.conditional hc.printable ht.printable hf.printable, by
      rw [normalise, hc.normalise_eq, ht.normalise_eq, hf.normalise_eq]⟩

/-- Operands read from a plain source with their operators are normal. -/
theorem normal_of_operands {k : Nat} {ts : List (Token ρ)} {x : Expr ρ} {rest : List (Token ρ)} :
    Operands constant? k ts x rest → PlainSource constant? ts → Normal constant? x
  | .left _ _ hx hop hy, hts =>
    normal_binary (ne_xor_of_operator hop) (normal_of_operands hx hts)
      (normal_of_operands hy (hts.suffix (hop.suffix.trans hx.suffix)))
  | .next _ _ h, hts => normal_of_operands h hts
  | .power hx hop hy, hts =>
    normal_binary (ne_xor_of_operator hop) (normal_of_signed hx hts)
      (normal_of_operands hy (hts.suffix (hop.suffix.trans hx.suffix)))
  | .signed h, hts => normal_of_signed h hts

/-- An operand read from a plain source with its signs is normal. -/
theorem normal_of_signed {ts : List (Token ρ)} {x : Expr ρ} {rest : List (Token ρ)} :
    Signed constant? ts x rest → PlainSource constant? ts → Normal constant? x
  | .sign hsign hx, hts =>
    have hx := normal_of_signed hx (hts.suffix hsign.suffix)
    ⟨.unary hx.printable, by rw [normalise, hx.normalise_eq]⟩
  | .primary h, hts => normal_of_primary h hts

/-- An operand read from a plain source without signs is normal. -/
theorem normal_of_primary {ts : List (Token ρ)} {x : Expr ρ} {rest : List (Token ρ)} :
    Primary constant? ts x rest → PlainSource constant? ts → Normal constant? x
  | .number _ _ _ _, hts => normal_constant (hts.number _ List.mem_cons_self _ rfl)
  | .parentheses hopen hx _, hts => normal_of_choice hx (hts.suffix hopen.suffix)
  | .property hat hdevice hopen hproperty _, hts =>
    have hdevice' := hat.suffix
    have hproperty' := hopen.suffix.trans (hdevice.suffix.trans hdevice')
    ⟨.var ⟨isName_of_name hdevice (hts.suffix hdevice'), _, rfl,
      isName_of_name hproperty (hts.suffix hproperty')⟩, rfl⟩
  | .constant _ _ hx, hts => normal_constant (hts.constant _ _ hx)
  | .named _ _ hnone, hts => ⟨.var ⟨hts.valid _ List.mem_cons_self, hnone, rfl⟩, rfl⟩
  | .voltage _ _ hopen hnode _, hts =>
    have hnode' := hopen.suffix.trans (List.suffix_cons _ _)
    ⟨.var ⟨isName_of_name hnode (hts.suffix hnode'), nofun⟩, rfl⟩
  | .voltageBetween _ _ hopen hnode hcomma hagainst _, hts =>
    have hnode' := hopen.suffix.trans (List.suffix_cons _ _)
    have hagainst' := hcomma.suffix.trans (hnode.suffix.trans hnode')
    ⟨.var ⟨isName_of_name hnode (hts.suffix hnode'), by
      rintro _ ⟨⟩
      exact isName_of_name hagainst (hts.suffix hagainst')⟩, rfl⟩
  | .current _ _ hopen hdevice _, hts =>
    have hdevice' := hopen.suffix.trans (List.suffix_cons _ _)
    ⟨.var ⟨isName_of_name hdevice (hts.suffix hdevice'), rfl⟩, rfl⟩
  | .call _ hvoltage hcurrent hopen hargs _, hts =>
    have hargs' := hopen.suffix.trans (List.suffix_cons _ _)
    have hargs := normal_of_arguments hargs (hts.suffix hargs')
    ⟨.call (hts.valid _ List.mem_cons_self) hvoltage hcurrent fun x hx => (hargs x hx).printable, by
      rw [normalise, normaliseAll_eq fun x hx => (hargs x hx).normalise_eq]⟩

/-- Arguments read from a plain source are normal. -/
theorem normal_of_arguments {ts : List (Token ρ)} {xs : List (Expr ρ)} {rest : List (Token ρ)} :
    Arguments constant? ts xs rest → PlainSource constant? ts → ∀ x ∈ xs, Normal constant? x
  | .none _, _ => nofun
  | .some h, hts => normal_of_listed h hts

/-- A list of arguments read from a plain source is normal. -/
theorem normal_of_listed {ts : List (Token ρ)} {xs : List (Expr ρ)} {rest : List (Token ρ)} :
    Listed constant? ts xs rest → PlainSource constant? ts → ∀ x ∈ xs, Normal constant? x
  | .last h, hts => List.forall_mem_singleton.mpr (normal_of_choice h hts)
  | .more h hcomma hxs, hts =>
    List.forall_mem_cons.mpr ⟨normal_of_choice h hts,
      normal_of_listed hxs (hts.suffix (hcomma.suffix.trans h.suffix))⟩

end

end Trees

/-! ### Texts and trees -/

/-- A text that yields an operand is read as it. -/
theorem parse_of_yieldsOperand {constant? : String → Option ρ} {text : String} {x : Expr ρ}
    (h : YieldsOperand constant? text.toList x) : Expr.parse constant? text = .ok x := by
  obtain ⟨ts, offset, hts, hscan⟩ := h 0 [] delimited_nil
  rw [List.append_nil, scanFrom_nil] at hscan
  have hofText : (Tokens.ofText text : Except ParseError (Tokens ρ)) = .ok ⟨ts, offset⟩ := by
    unfold Tokens.ofText scan
    rw [hscan]
    simp [Scan.prepend]
  have hsigned := hts []
  rw [List.append_nil] at hsigned
  exact (Parser.parse_eq_ok_iff constant? text x).mpr ⟨_, hofText, .of_signed hsigned⟩

/-- The tokens of a text are valid. -/
theorem valid_of_ofText {text : String} {ts : Tokens ρ} (h : Tokens.ofText text = .ok ts) :
    ∀ t ∈ ts.tokens, Lexer.Valid t := by
  unfold Tokens.ofText at h
  simp only at h
  split at h
  · cases h
    exact valid_of_mem_scanFrom 0 text.toList
  · cases h


/-- The parts of a printable tree are printable, so its constants are finite. -/
theorem Printable.finite {constant? : String → Option ρ} {t : Expr ρ}
    (ht : Printable constant? t) :
    ∀ c ∈ t.constants, Scalar.isNaN c = false ∧ Scalar.isInf c = false := by
  induction ht with
  | constant hnan hinf => exact List.forall_mem_singleton.mpr ⟨hnan, hinf⟩
  | var hv => exact nofun
  | unary hx ih => exact ih
  | binary hx hy ihx ihy => exact List.forall_mem_append.mpr ⟨ihx, ihy⟩
  | call hname hvoltage hcurrent hargs ih =>
    intro c hc
    obtain ⟨x, hx, hc⟩ := exists_of_mem_constantsAll hc
    exact ih x hx c hc
  | conditional hc ht hf ihc iht ihf =>
    exact List.forall_mem_append.mpr ⟨List.forall_mem_append.mpr ⟨ihc, iht⟩, ihf⟩

/-! ### Double precision numbers -/

/-- The decimal texts of the constants in the tree, without their signs, are read as the
constants. -/
def ReadsBack (t : Expr Double) : Prop :=
  ∀ c ∈ t.constants, Double.ReadsBack c.abs

section Doubles

variable {constant? : String → Option Double}

/-- The text of a printable tree is read as the normal form of the tree. -/
theorem parse_text {t : Expr Double} (ht : Printable constant? t) (hread : t.ReadsBack) :
    Expr.parse constant? t.text = .ok t.normalise := by
  refine parse_of_yieldsOperand (yields_text ht fun c hc => ?_)
  obtain ⟨hnan, hinf⟩ := ht.finite c hc
  exact Double.yields_constant constant? hnan hinf (hread c hc)

/-- Numbers of a text have no sign, so they are plain unless they overflow. -/
theorem plainSource_of_ofText {text : String} {ts : Tokens Double}
    (hconstant : ∀ w c, constant? w = some c → Plain c)
    (hts : Tokens.ofText text = .ok ts)
    (hfinite : ∀ t ∈ ts.tokens, ∀ x, t.kind = .number x → Scalar.isInf x = false) :
    PlainSource constant? ts.tokens where
  valid := valid_of_ofText hts
  number := by
    intro t ht x hx
    have hvalid := valid_of_ofText hts t ht
    rw [Lexer.Valid, hx] at hvalid
    obtain ⟨hnan, hneg⟩ := Double.numberValue?_eq_some hvalid.2
    exact ⟨hnan, hfinite t ht x hx, hneg⟩
  constant := hconstant

/-- A tree that a text is read as is printable and in normal form. -/
theorem normal_of_parse {text : String} {ts : Tokens Double} {e : Expr Double}
    (hconstant : ∀ w c, constant? w = some c → Plain c)
    (hts : Tokens.ofText text = .ok ts)
    (hfinite : ∀ t ∈ ts.tokens, ∀ x, t.kind = .number x → Scalar.isInf x = false)
    (he : Expr.parse constant? text = .ok e) : Normal constant? e := by
  obtain ⟨ts', hts', hsentence⟩ := (Parser.parse_eq_ok_iff constant? text e).mp he
  obtain rfl : ts = ts' := Except.ok.inj (hts.symm.trans hts')
  exact normal_of_choice hsentence (plainSource_of_ofText hconstant hts hfinite)

end Doubles

/-- **Reading the text of a tree gives the tree back up to its normal form.**  A tree
that was read from a text is printable and has nothing to normalise, so writing and
reading it once more changes nothing. -/
theorem parse_text_roundTrip (constant? : String → Option Double) :
    (∀ t : Expr Double, Printable constant? t → t.ReadsBack →
      Expr.parse constant? t.text = .ok t.normalise) ∧
    ((∀ w c, constant? w = some c → Plain c) →
      ∀ (text : String) (ts : Tokens Double) (e : Expr Double),
        Tokens.ofText text = .ok ts →
        (∀ t ∈ ts.tokens, ∀ x, t.kind = .number x → Scalar.isInf x = false) →
        Expr.parse constant? text = .ok e →
        Printable constant? e ∧ e.normalise = e ∧
          (e.ReadsBack → Expr.parse constant? e.text = Expr.parse constant? text)) := by
  refine ⟨fun t => parse_text, fun hconstant text ts e hts hfinite he => ?_⟩
  have hnormal := normal_of_parse hconstant hts hfinite he
  refine ⟨hnormal.printable, hnormal.normalise_eq, fun hread => ?_⟩
  rw [parse_text hnormal.printable hread, hnormal.normalise_eq, he]

/-- Exclusive or between a constant with a sign and a voltage. -/
def signedXor : Expr Double :=
  .binary .xor (.constant (-Double.ofDecimal 15 (-1))) (.var (.voltage "out"))

/-- A minus sign before a constant and `xor` between two are read back as a sign before a
constant and a call. -/
theorem signedXor_roundTrip :
    Expr.parse (ρ := Double) (fun _ => none) signedXor.text =
        .ok (.call "xor" [.unary .minus (.constant (-Double.ofDecimal 15 (-1)).abs),
          .var (.voltage "out")]) ∧
      Expr.parse (ρ := Double) (fun _ => none) signedXor.normalise.text =
        Expr.parse (fun _ => none) signedXor.text := by
  have hnan : (-Double.ofDecimal 15 (-1)).isNaN = false := by decide +kernel
  have hinf : (-Double.ofDecimal 15 (-1)).isInf = false := by decide +kernel
  have hneg : (-Double.ofDecimal 15 (-1)).isNegative = true := by decide +kernel
  have hout : Lexer.IsWord "out".toList :=
    ⟨'o', ['u', 't'], rfl, by decide, List.all_eq_true.mp rfl⟩
  have hprintable : Printable (fun _ => none) signedXor :=
    .binary (.constant hnan hinf) (.var ⟨.inl hout, nofun⟩)
  have hnormal : signedXor.normalise =
      .call "xor" [.unary .minus (.constant (-Double.ofDecimal 15 (-1)).abs),
        .var (.voltage "out")] := by
    simp [signedXor, normalise, Scalar.isNegative, Scalar.abs, hneg]
  have hread : signedXor.ReadsBack :=
    List.forall_mem_singleton.mpr (by unfold Double.ReadsBack; decide +kernel)
  have hread' : signedXor.normalise.ReadsBack :=
    List.forall_mem_singleton.mpr (by unfold Double.ReadsBack; decide +kernel)
  have hparse := (parse_text_roundTrip _).1 signedXor hprintable hread
  have hfinite : (match (Tokens.ofText signedXor.text : Except ParseError (Tokens Double)) with
      | .ok ts => ts.tokens.all fun t => match t.kind with
        | .number x => !Scalar.isInf x
        | _ => true
      | .error _ => false) = true := by
    decide +kernel
  cases hts : (Tokens.ofText signedXor.text : Except ParseError (Tokens Double)) with
  | error e => simp [hts] at hfinite
  | ok ts =>
    rw [hts] at hfinite
    have h := (parse_text_roundTrip fun _ => none).2 (fun _ _ h => nomatch h) signedXor.text ts _
      hts
      (fun t ht x hx => by
        have := List.all_eq_true.mp hfinite t ht
        simpa [hx] using this) hparse
    exact ⟨hnormal ▸ hparse, h.2.2 hread'⟩

end Expr
end CircuitExpr
