/-
# Reading the text of a tree

The text of a tree is read as the tree, up to two things that the notation has no way
to say:

| in the tree | read back |
| --- | --- |
| a constant with a sign | a minus before the constant without it |
| exclusive or between operands | a call of `xor` |

`normalise` makes these replacements.  A tree is *printable* when its names can be
read as names: a word or a number for nodes, devices and properties, a word for
functions and quantities, and this word must not mean something else.

The text of every printable tree yields a signed operand of the grammar, whatever
delimited text follows; a closing parenthesis, a comma and a blank, which are all that
ever follows a part of a text, do delimit.
-/

import Mathlib
import CircuitExpr.Expr.Text
import CircuitExpr.Proofs.ParserExactness
import CircuitExpr.Proofs.Scanning

namespace CircuitExpr

open Lexer (IsWord IsName)

variable {ρ : Type}

/-- The text of the variable is read as the variable. -/
def Variable.Printable (constant? : String → Option ρ) (v : Variable) : Prop :=
  match v.kind with
  | .voltage => IsName v.name ∧ ∀ reference ∈ v.reference, IsName reference
  | .current => IsName v.name ∧ v.reference = none
  | .property => IsName v.name ∧ ∃ property, v.reference = some property ∧ IsName property
  | .named => IsWord v.name.toList ∧ constant? v.name = none ∧ v.reference = none

namespace Expr

mutual

/-- The constants of a tree, from left to right. -/
def constants : Expr ρ → List ρ
  | .constant c => [c]
  | .var _ => []
  | .unary _ x => constants x
  | .binary _ x y => constants x ++ constants y
  | .call _ args => constantsAll args
  | .conditional c t f => constants c ++ constants t ++ constants f

/-- The constants of some trees. -/
def constantsAll : List (Expr ρ) → List ρ
  | [] => []
  | x :: xs => constants x ++ constantsAll xs

end

/-- The constants of an argument are among those of the arguments. -/
theorem mem_constantsAll {c : ρ} {x : Expr ρ} :
    ∀ {args : List (Expr ρ)}, x ∈ args → c ∈ x.constants → c ∈ constantsAll args
  | [], hx, _ => absurd hx List.not_mem_nil
  | y :: args, hx, hc => by
    rcases List.mem_cons.mp hx with rfl | hx
    · exact List.mem_append_left _ hc
    · exact List.mem_append_right _ (mem_constantsAll hx hc)

/-- Each constant of the arguments is one of an argument. -/
theorem exists_of_mem_constantsAll {c : ρ} : ∀ {args : List (Expr ρ)}, c ∈ constantsAll args →
    ∃ x ∈ args, c ∈ x.constants
  | [], hc => absurd hc List.not_mem_nil
  | x :: args, hc => by
    rcases List.mem_append.mp hc with hc | hc
    · exact ⟨x, List.mem_cons_self, hc⟩
    · obtain ⟨y, hy, hc⟩ := exists_of_mem_constantsAll hc
      exact ⟨y, List.mem_cons_of_mem x hy, hc⟩

variable [Scalar ρ]

mutual

/-- The tree that the text of a tree is read as. -/
def normalise : Expr ρ → Expr ρ
  | .constant c =>
    if Scalar.isNegative c then .unary .minus (.constant (Scalar.abs c)) else .constant c
  | .var v => .var v
  | .unary op x => .unary op (normalise x)
  | .binary .xor x y => .call "xor" [normalise x, normalise y]
  | .binary op x y => .binary op (normalise x) (normalise y)
  | .call name args => .call name (normaliseAll args)
  | .conditional c t f => .conditional (normalise c) (normalise t) (normalise f)

/-- The trees that the texts of some trees are read as. -/
def normaliseAll : List (Expr ρ) → List (Expr ρ)
  | [] => []
  | x :: xs => normalise x :: normaliseAll xs

end

/-- The names in the tree can be read as what they are, and its constants are finite. -/
inductive Printable (constant? : String → Option ρ) : Expr ρ → Prop
  /-- A finite constant. -/
  | constant {c} : Scalar.isNaN c = false → Scalar.isInf c = false →
    Printable constant? (.constant c)
  /-- A variable with a text of its own. -/
  | var {v} : v.Printable constant? → Printable constant? (.var v)
  /-- An operator before an operand. -/
  | unary {op x} : Printable constant? x → Printable constant? (.unary op x)
  /-- An operator between operands. -/
  | binary {op x y} : Printable constant? x → Printable constant? y →
    Printable constant? (.binary op x y)
  /-- A call that is not written like a variable. -/
  | call {name args} : IsWord name.toList → ¬Grammar.VoltageWord name →
    ¬Grammar.CurrentWord name → (∀ x ∈ args, Printable constant? x) →
    Printable constant? (.call name args)
  /-- A choice. -/
  | conditional {c t f} : Printable constant? c → Printable constant? t →
    Printable constant? f → Printable constant? (.conditional c t f)

section Texts

open Lexer
open Grammar (Sym Name Operator Sign Choice Operands Signed Primary Arguments Listed Sentence)

variable {constant? : String → Option ρ}

/-- A blank delimits. -/
theorem delimited_blank (rest : List Char) : Delimited (' ' :: rest) :=
  delimited_cons (by decide)

/-- An opening parenthesis delimits. -/
theorem delimited_leftParen (rest : List Char) : Delimited ('(' :: rest) :=
  delimited_cons (by decide)

/-- A closing parenthesis delimits. -/
theorem delimited_rightParen (rest : List Char) : Delimited (')' :: rest) :=
  delimited_cons (by decide)

/-- A comma delimits. -/
theorem delimited_comma (rest : List Char) : Delimited (',' :: rest) :=
  delimited_cons (by decide)

/-- The characters are read as the operand `x`. -/
abbrev YieldsOperand (constant? : String → Option ρ) (cs : List Char) (x : Expr ρ) : Prop :=
  Yields Delimited cs fun ts after => Signed constant? ts x after

/-- A word with a parenthesis after it. -/
theorem yields_wordParen {w : String} (hw : IsWord w.toList) :
    Yields Anything (w.toList ++ ['(']) fun (ts after : List (Token ρ)) =>
      ∃ offset ts₁, ts = ⟨.identifier, w, offset⟩ :: ts₁ ∧ Sym .leftParen ts₁ after := by
  refine ((yields_word hw).mark (s := .leftParen) delimited_leftParen rfl (by decide)).mono ?_
  rintro _ _ ⟨ts₁, ⟨offset, rfl⟩, h⟩
  rw [String.ofList_toList]
  exact ⟨offset, ts₁, rfl, h⟩

/-- The text of a printable variable is read as the variable. -/
theorem yields_variable {v : Variable} (hv : v.Printable constant?) :
    YieldsOperand constant? v.text.toList (.var v) := by
  obtain ⟨kind, name, reference⟩ := v
  cases kind with
  | voltage =>
    obtain ⟨hname, hreference⟩ := hv
    have hV : IsWord "V".toList := ⟨'V', [], rfl, by decide, List.forall_mem_nil _⟩
    -- the text is put together piece by piece, and the tokens of the pieces are those of a rule
    have hopen := (yields_wordParen (ρ := ρ) hV).before (yields_name hname)
    cases reference with
    | none =>
      have h := hopen.mark (s := .rightParen) delimited_rightParen rfl (by decide)
      simp only [Variable.text, String.toList_append]
      refine (h.weaken fun _ _ => trivial).mono ?_
      rintro _ after ⟨_, ⟨_, ⟨offset, _, rfl, hparen⟩, hname⟩, hclose⟩
      exact .primary (.voltage offset (.inr rfl) hparen hname hclose)
    | some reference =>
      have h := ((hopen.mark (s := .comma) delimited_comma rfl (by decide)).before
        (yields_name (hreference reference rfl))).mark (s := .rightParen) delimited_rightParen rfl
        (by decide)
      simp only [Variable.text, String.toList_append]
      refine (h.weaken fun _ _ => trivial).mono ?_
      rintro _ after ⟨_, ⟨_, ⟨_, ⟨_, ⟨offset, _, rfl, hparen⟩, hname⟩, hcomma⟩, hagainst⟩, hclose⟩
      exact .primary (.voltageBetween offset (.inr rfl) hparen hname hcomma hagainst hclose)
  | current =>
    obtain ⟨hname, rfl⟩ := hv
    have hI : IsWord "I".toList := ⟨'I', [], rfl, by decide, List.forall_mem_nil _⟩
    have h := ((yields_wordParen (ρ := ρ) hI).before (yields_name hname)).mark (s := .rightParen)
      delimited_rightParen rfl (by decide)
    simp only [Variable.text, String.toList_append]
    refine (h.weaken fun _ _ => trivial).mono ?_
    rintro _ after ⟨_, ⟨_, ⟨offset, _, rfl, hparen⟩, hname⟩, hclose⟩
    exact .primary (.current offset (.inr rfl) hparen hname hclose)
  | property =>
    obtain ⟨hname, property, rfl, hproperty⟩ := hv
    have hat : Yields Anything ['@'] (Sym .atSign : List (Token ρ) → _) :=
      yields_mark rfl (by decide)
    have h := (((hat.before (yields_name hname)).mark (c := '[') (s := .leftBracket)
      (fun _ => delimited_cons (by decide)) rfl (by decide)).before (yields_name hproperty)).mark
      (c := ']') (s := .rightBracket) (fun _ => delimited_cons (by decide)) rfl (by decide)
    simp only [Variable.text, String.toList_append]
    refine (h.weaken fun _ _ => trivial).mono ?_
    rintro _ after ⟨_, ⟨_, ⟨_, ⟨_, hat, hname⟩, hopen⟩, hproperty⟩, hclose⟩
    exact .primary (.property hat hname hopen hproperty hclose)
  | named =>
    obtain ⟨hname, hnone, rfl⟩ := hv
    refine (yields_word hname).mono ?_
    rintro _ after ⟨offset, rfl⟩
    rw [String.ofList_toList]
    exact .primary (.named offset after hnone)

variable [Numeral ρ] {x y z : Expr ρ} {xs : List (Expr ρ)}

/-- A sign is printed before parentheses. -/
theorem yields_unary (op : UnaryOp) (hx : YieldsOperand constant? x.text.toList y) :
    YieldsOperand constant? (Expr.unary op x).text.toList (.unary op y) := by
  have h := (((yields_sign (ρ := ρ) op).mark (s := .leftParen) (fun more => ⟨more, rfl⟩) rfl
    (by decide)).before hx).mark (s := .rightParen) delimited_rightParen rfl (by decide)
  simp only [text, String.toList_append]
  refine (h.weaken fun _ _ => trivial).mono ?_
  rintro _ after ⟨_, ⟨_, ⟨_, hsign, hopen⟩, hx⟩, hclose⟩
  exact .sign hsign (.primary (.parentheses hopen (.of_signed hx) hclose))

/-- An operator and its operands are printed in parentheses. -/
theorem yields_binary {op : BinaryOp} {u w : Expr ρ} (hop : op ≠ .xor)
    (hx : YieldsOperand constant? x.text.toList u) (hy : YieldsOperand constant? y.text.toList w) :
    YieldsOperand constant? (Expr.binary op x y).text.toList (.binary op u w) := by
  have hopen : Yields Anything ['('] (Sym .leftParen : List (Token ρ) → _) :=
    yields_mark rfl (by decide)
  have h := ((((((hopen.before hx).blank delimited_blank).before (yields_operator hop)).blank
    (fun more => ⟨more, rfl⟩)).before hy).mark (s := .rightParen) delimited_rightParen rfl
    (by decide))
  have htext : (Expr.binary op x y).text =
      "(" ++ x.text ++ " " ++ op.symbol ++ " " ++ y.text ++ ")" := by
    cases op <;> first | rfl | exact absurd rfl hop
  rw [htext]
  simp only [String.toList_append]
  refine (h.weaken fun _ _ => trivial).mono ?_
  rintro _ after ⟨_, ⟨_, ⟨_, ⟨_, hopen, hx⟩, hop⟩, hy⟩, hclose⟩
  exact .primary (.parentheses hopen (.operands (.of_le (by decide) op.precedence_pos
    op.precedence_le (.binary_of_signed hx hop hy))) hclose)

/-- A choice is printed in parentheses. -/
theorem yields_conditional {c t f c' t' f' : Expr ρ}
    (hc : YieldsOperand constant? c.text.toList c') (ht : YieldsOperand constant? t.text.toList t')
    (hf : YieldsOperand constant? f.text.toList f') :
    YieldsOperand constant? (Expr.conditional c t f).text.toList (.conditional c' t' f') := by
  have hopen : Yields Anything ['('] (Sym .leftParen : List (Token ρ) → _) :=
    yields_mark rfl (by decide)
  have hquestion : Yields Anything ['?'] (Sym .question : List (Token ρ) → _) :=
    yields_mark rfl (by decide)
  have hcolon : Yields Anything [':'] (Sym .colon : List (Token ρ) → _) :=
    yields_mark rfl (by decide)
  have hcondition := (((hopen.before hc).blank delimited_blank).before hquestion).blank
    fun _ => trivial
  have hbranches := (((hcondition.before ht).blank delimited_blank).before hcolon).blank
    fun _ => trivial
  have h := (hbranches.before hf).mark (s := .rightParen) delimited_rightParen rfl (by decide)
  have htext : (Expr.conditional c t f).text.toList =
      ['('] ++ c.text.toList ++ [' '] ++ ['?'] ++ [' '] ++ t.text.toList ++ [' '] ++ [':'] ++ [' ']
        ++ f.text.toList ++ [')'] := by
    simp [text, String.toList_append]
  rw [htext]
  refine (h.weaken fun _ _ => trivial).mono ?_
  rintro _ after ⟨_, ⟨_, ⟨_, ⟨_, ⟨_, ⟨_, hopen, hc⟩, hquestion⟩, ht⟩, hcolon⟩, hf⟩, hclose⟩
  have hc := Operands.of_le (by decide : 1 ≤ 1) (by decide) (Nat.le_refl 7) (.signed hc)
  exact .primary (.parentheses hopen (.conditional hc hquestion (.of_signed ht) hcolon
    (.of_signed hf)) hclose)

/-- Texts of arguments, at least one, are read as the arguments. -/
theorem yields_arguments : ∀ {args : List (Expr ρ)}, args ≠ [] →
    (∀ x ∈ args, YieldsOperand constant? x.text.toList x.normalise) →
    Yields Delimited (argsText args).toList
      fun (ts after : List (Token ρ)) => Listed constant? ts (normaliseAll args) after
  | [], hne, _ => absurd rfl hne
  | [x], _, h => (h x List.mem_cons_self).mono fun _ _ hx => .last (.of_signed hx)
  | x :: y :: xs, _, h => by
    have hfirst := ((h x List.mem_cons_self).mark (s := .comma) delimited_comma rfl
      (by decide)).blank fun _ => trivial
    have hothers := yields_arguments (List.cons_ne_nil y xs) fun z hz =>
      h z (List.mem_cons_of_mem x hz)
    have htext : (argsText (x :: y :: xs)).toList =
        x.text.toList ++ [','] ++ [' '] ++ (argsText (y :: xs)).toList := by
      simp [argsText, String.toList_append]
    rw [htext]
    refine (hfirst.before hothers).mono ?_
    rintro _ after ⟨_, ⟨_, hx, hcomma⟩, hothers⟩
    exact .more (.of_signed hx) hcomma hothers

/-- A call is printed with its arguments, which are choices. -/
theorem yields_call {name : String} {args : List (Expr ρ)} (hname : IsWord name.toList)
    (hvoltage : ¬Grammar.VoltageWord name) (hcurrent : ¬Grammar.CurrentWord name)
    (hargs : ∀ x ∈ args, YieldsOperand constant? x.text.toList x.normalise) :
    YieldsOperand constant? (name ++ "(" ++ argsText args ++ ")").toList
      (.call name (normaliseAll args)) := by
  have hopen := yields_wordParen (ρ := ρ) hname
  have harguments : Yields Anything (name.toList ++ ['('] ++ (argsText args).toList ++ [')'])
      fun (ts after : List (Token ρ)) => ∃ offset ts₁ ts₂ ts₃,
        ts = ⟨.identifier, name, offset⟩ :: ts₁ ∧
        Sym .leftParen ts₁ ts₂ ∧ Arguments constant? ts₂ (normaliseAll args) ts₃ ∧
        Sym .rightParen ts₃ after := by
    by_cases hne : args = []
    · subst hne
      have h := hopen.mark (c := ')') (s := .rightParen) (fun _ => trivial) rfl (by decide)
      simp only [argsText, String.toList_empty, List.append_nil]
      refine h.mono ?_
      rintro _ after ⟨ts₂, ⟨offset, ts₁, rfl, hopen⟩, hclose⟩
      exact ⟨offset, ts₁, ts₂, ts₂, rfl, hopen, .none _, hclose⟩
    · have h := (hopen.before (yields_arguments hne hargs)).mark (s := .rightParen)
        delimited_rightParen rfl (by decide)
      refine h.mono ?_
      rintro _ after ⟨ts₃, ⟨ts₂, ⟨offset, ts₁, rfl, hopen⟩, hargs⟩, hclose⟩
      exact ⟨offset, ts₁, ts₂, ts₃, rfl, hopen, .some hargs, hclose⟩
  simp only [String.toList_append]
  refine (harguments.weaken fun _ _ => trivial).mono ?_
  rintro _ after ⟨offset, _, _, _, rfl, hopen, hargs, hclose⟩
  exact .primary (.call offset hvoltage hcurrent hopen hargs hclose)

/-- Exclusive or is read as a call. -/
theorem yields_xor (hx : YieldsOperand constant? x.text.toList x.normalise)
    (hy : YieldsOperand constant? y.text.toList y.normalise) :
    YieldsOperand constant? (Expr.binary .xor x y).text.toList
      (Expr.binary .xor x y).normalise := by
  have hxor : IsWord "xor".toList := ⟨'x', ['o', 'r'], rfl, by decide, List.all_eq_true.mp rfl⟩
  have h : YieldsOperand constant? ("xor" ++ "(" ++ argsText [x, y] ++ ")").toList
      (.call "xor" (normaliseAll [x, y])) := by
    refine yields_call hxor (by decide) (by decide) fun z hz => ?_
    simp only [List.mem_cons, List.not_mem_nil, or_false] at hz
    rcases hz with rfl | rfl
    · exact hx
    · exact hy
  have htext : (Expr.binary .xor x y).text.toList =
      ("xor" ++ "(" ++ argsText [x, y] ++ ")").toList := by
    simp [text, argsText, String.toList_append]
  rw [htext]
  exact h

/-- **The text of a printable tree is read as its normal form**, if the texts of its
constants are. -/
theorem yields_text {t : Expr ρ} (ht : Printable constant? t)
    (hconstants : ∀ c ∈ t.constants,
      YieldsOperand constant? (Numeral.text c).toList (normalise (.constant c))) :
    YieldsOperand constant? t.text.toList t.normalise := by
  induction t using Expr.induction with
  | constant c => exact hconstants c List.mem_cons_self
  | var v =>
    cases ht with
    | var hv => exact yields_variable hv
  | unary op x ih =>
    cases ht with
    | unary hx => exact yields_unary op (ih hx hconstants)
  | binary op x y ihx ihy =>
    cases ht with
    | binary hx hy =>
      have hx := ihx hx fun c hc => hconstants c (List.mem_append_left _ hc)
      have hy := ihy hy fun c hc => hconstants c (List.mem_append_right _ hc)
      by_cases hop : op = .xor
      · subst hop
        exact yields_xor hx hy
      · have hnormalise : (Expr.binary op x y).normalise = .binary op x.normalise y.normalise := by
          cases op <;> first | rfl | exact absurd rfl hop
        rw [hnormalise]
        exact yields_binary hop hx hy
  | call name args ih =>
    cases ht with
    | call hname hvoltage hcurrent hargs =>
      exact yields_call hname hvoltage hcurrent fun x hx => ih x hx (hargs x hx) fun c hc =>
        hconstants c (mem_constantsAll hx hc)
  | conditional c t f ihc iht ihf =>
    cases ht with
    | conditional hc ht hf =>
      exact yields_conditional
        (ihc hc fun a ha => hconstants a (List.mem_append_left _ (List.mem_append_left _ ha)))
        (iht ht fun a ha => hconstants a (List.mem_append_left _ (List.mem_append_right _ ha)))
        (ihf hf fun a ha => hconstants a (List.mem_append_right _ ha))

end Texts
end Expr
end CircuitExpr
