/-
# Readers of tokens

A reader takes tokens from the front and leaves the others.  The functions of the
parser are readers that also return a bound on what they leave, for the sake of their
termination; `reader` forgets the bound, and what is left of a function is then made of
smaller readers: one after another, or one of two as the next token decides.

Reading one thing after another is a chain of matches in a function, and a chain of
binds as a reader; `eq_bind` is a step along both.
-/

import CircuitExpr.Proofs.Grammar

namespace CircuitExpr
namespace Expr
namespace Parser

open Grammar (Sym Name Lacks)

variable {ρ α β : Type} {context : Context ρ} {ts rest : List (Token ρ)}

/-! ### Outcomes -/

section Outcome

variable {n : Nat}

/-- The outcome is `x`, with `rest` left. -/
def Reads (o : Outcome ρ α n) (x : α) (rest : List (Token ρ)) : Prop :=
  ∃ p, o = .ok p ∧ p.value = x ∧ p.rest = rest

/-- What is read takes at least one token. -/
theorem Reads.length_lt {o : Outcome ρ α n} {x : α} {rest : List (Token ρ)} (h : Reads o x rest) :
    rest.length < n := by
  obtain ⟨p, -, -, rfl⟩ := h
  exact p.rest_length

/-- An error reads nothing. -/
theorem not_reads_error {e : ParseError} {x : α} {rest : List (Token ρ)} :
    ¬Reads (.error e : Outcome ρ α n) x rest := by
  rintro ⟨p, hp, -⟩
  cases hp

/-- An outcome reads its value and leaves its rest. -/
theorem reads_ok {p : Parsed ρ α n} {x : α} {rest : List (Token ρ)} :
    Reads (.ok p : Outcome ρ α n) x rest ↔ p.value = x ∧ p.rest = rest := by
  constructor
  · rintro ⟨q, hq, rfl, rfl⟩
    cases hq
    exact ⟨rfl, rfl⟩
  · exact fun h => ⟨p, rfl, h⟩

end Outcome

/-! ### What the next token is -/

/-- A symbol comes after what it takes. -/
theorem after?_eq_some {s : Symbol} {ts : List (Token ρ)} {r : Shorter ts} :
    after? s ts = some r ↔ Sym s ts r.1 := by
  constructor
  · intro h
    unfold after? at h
    split at h
    · split at h
      · rename_i hs
        subst hs
        cases h
        exact ⟨_, _, _⟩
      · cases h
    · cases h
  · obtain ⟨rest, hrest⟩ := r
    intro h
    obtain ⟨lexeme, offset, _⟩ : Sym s ts rest := h
    simp [after?]

/-- A symbol does not come where it lacks. -/
theorem after?_eq_none {s : Symbol} {ts : List (Token ρ)} : after? s ts = none ↔ Lacks s ts := by
  constructor
  · rintro h _ ⟨lexeme, offset, rest⟩
    simp [after?] at h
  · intro h
    cases hr : after? s ts with
    | none => rfl
    | some r => exact absurd (after?_eq_some.mp hr) (h _)

/-- A symbol comes or lacks. -/
theorem sym_or_lacks (s : Symbol) (ts : List (Token ρ)) :
    (∃ rest, Sym s ts rest) ∨ Lacks s ts := by
  by_cases h : ∃ rest, Sym s ts rest
  · exact .inl h
  · exact .inr fun rest hs => h ⟨rest, hs⟩

/-- The operator `op` and the tokens after it. -/
abbrev OperatorAt (op : BinaryOp) (ts rest : List (Token ρ)) : Prop :=
  Grammar.Operator op.precedence op ts rest

/-- An operator comes after what it takes. -/
theorem operator?_eq_some {ts : List (Token ρ)} {op : BinaryOp} {r : Shorter ts} :
    operator? ts = some (op, r) ↔ OperatorAt op ts r.1 := by
  constructor
  · intro h
    unfold operator? at h
    split at h
    · rename_i s _ _ _
      simp only [Option.map_eq_some_iff, Prod.mk.injEq] at h
      obtain ⟨_, hs, rfl, rfl⟩ := h
      exact ⟨s, _, _, _, Grammar.joins_iff.mpr ⟨hs, rfl⟩⟩
    · cases h
  · obtain ⟨rest, hrest⟩ := r
    intro h
    obtain ⟨s, lexeme, offset, _, hs⟩ : OperatorAt op ts rest := h
    simp [operator?, (Grammar.joins_iff.mp hs).1]

/-- At most one operator comes first. -/
theorem operatorAt_unique {op op' : BinaryOp} {ts rest rest' : List (Token ρ)}
    (h : OperatorAt op ts rest) (h' : OperatorAt op' ts rest') : op = op' ∧ rest = rest' := by
  obtain ⟨s, _, _, _, hs⟩ := h
  obtain ⟨_, _, _, _, hs'⟩ := h'
  have hops := (Grammar.joins_iff.mp hs).1.symm.trans (Grammar.joins_iff.mp hs').1
  exact ⟨Option.some.inj hops, rfl⟩

/-- No operator of this strength or more comes first. -/
def StopsBelow (least : Nat) (ts : List (Token ρ)) : Prop :=
  ∀ op rest, OperatorAt op ts rest → op.precedence < least

/-- An operator that is strong enough comes first, or none. -/
theorem stopsBelow_or (least : Nat) (ts : List (Token ρ)) :
    StopsBelow least ts ∨ ∃ op rest, OperatorAt op ts rest ∧ least ≤ op.precedence := by
  by_cases h : ∃ op rest, OperatorAt op ts rest ∧ least ≤ op.precedence
  · exact .inr h
  · exact .inl fun op rest hop => Nat.lt_of_not_le fun hleast => h ⟨op, rest, hop, hleast⟩

/-- At most one operator before an operand comes first. -/
theorem sign_unique {op op' : UnaryOp} {ts rest rest' : List (Token ρ)}
    (h : Grammar.Sign op ts rest) (h' : Grammar.Sign op' ts rest') : op = op' ∧ rest = rest' := by
  obtain ⟨s, _, _, _, hs⟩ := h
  obtain ⟨_, _, _, _, hs'⟩ := h'
  exact ⟨Option.some.inj ((Grammar.signs_iff.mp hs).symm.trans (Grammar.signs_iff.mp hs')), rfl⟩

/-- No operator before an operand comes first. -/
def Unsigned (ts : List (Token ρ)) : Prop := ∀ op rest, ¬Grammar.Sign op ts rest

/-- A sign comes or not. -/
theorem sign_or_unsigned (ts : List (Token ρ)) :
    (∃ op rest, Grammar.Sign op ts rest) ∨ Unsigned ts := by
  by_cases h : ∃ op rest, Grammar.Sign op ts rest
  · exact .inl h
  · exact .inr fun op rest hsign => h ⟨op, rest, hsign⟩

/-! ### Readers -/

/-- Reads from the front of the tokens and leaves the others. -/
abbrev Reader (ρ : Type) := StateT (List (Token ρ)) (Except ParseError)

/-- A function of the parser, without the bound on what it leaves. -/
def reader {n : List (Token ρ) → Nat} (f : (ts : List (Token ρ)) → Outcome ρ α (n ts)) :
    Reader ρ α :=
  fun ts => (f ts).map fun p => (p.value, p.rest)

/-- Reads by `f` behind the symbol `s`, and by `g` where another token comes. -/
def ifNext (s : Symbol) (f g : Reader ρ α) : Reader ρ α := fun ts =>
  match after? s ts with
  | some r => f r.1
  | none => g ts

section Reader

variable {n : List (Token ρ) → Nat} {f : (ts : List (Token ρ)) → Outcome ρ α (n ts)}

/-- What is parsed is read, with its rest. -/
theorem reader_ok {p : Parsed ρ α (n ts)} (h : f ts = .ok p) :
    reader f ts = .ok (p.value, p.rest) := by
  rw [reader, h]
  rfl

/-- An error is an error. -/
theorem reader_error {e : ParseError} (h : f ts = .error e) : reader f ts = .error e := by
  rw [reader, h]
  rfl

/-- A reader comes out with what is read. -/
theorem reader_eq_ok {x : α} : reader f ts = .ok (x, rest) ↔ Reads (f ts) x rest := by
  constructor
  · intro h
    cases hf : f ts with
    | error e =>
      rw [reader_error hf] at h
      cases h
    | ok p =>
      rw [reader_ok hf] at h
      cases h
      exact ⟨p, rfl, rfl, rfl⟩
  · rintro ⟨p, hp, rfl, rfl⟩
    exact reader_ok hp

/-- An error of the reader is one of the parser. -/
theorem eq_error_of_reader {e : ParseError} (h : reader f ts = .error e) : f ts = .error e := by
  cases hf : f ts with
  | error e' =>
    rw [reader_error hf] at h
    cases h
    rfl
  | ok p =>
    rw [reader_ok hf] at h
    cases h

/-- A reader leaves less than it was given. -/
theorem length_lt_of_reader {x : α} (h : reader f ts = .ok (x, rest)) : rest.length < n ts :=
  (reader_eq_ok.mp h).length_lt

end Reader

/-- Reading nothing leaves all tokens. -/
theorem pure_eq_ok {x y : α} : (pure x : Reader ρ α) ts = .ok (y, rest) ↔ y = x ∧ rest = ts := by
  constructor
  · intro h
    cases h
    exact ⟨rfl, rfl⟩
  · rintro ⟨rfl, rfl⟩
    rfl

section Bind

variable {f : Reader ρ α} {g : α → Reader ρ β}

/-- What follows on a reader goes on with its rest. -/
theorem bind_of_ok {x : α} (h : f ts = .ok (x, rest)) : (f >>= g) ts = g x rest := by
  show (f ts).bind _ = _
  rw [h]
  rfl

/-- What follows on a reader is not come to after an error. -/
theorem bind_of_error {e : ParseError} (h : f ts = .error e) : (f >>= g) ts = .error e := by
  show (f ts).bind _ = _
  rw [h]
  rfl

/-- What `r` does is to read by a function of the parser and to go on by `g`. -/
theorem eq_bind {n : List (Token ρ) → Nat} {f : (ts : List (Token ρ)) → Outcome ρ α (n ts)}
    {r : Except ParseError (β × List (Token ρ))} (herror : ∀ e, f ts = .error e → r = .error e)
    (hok : ∀ p, f ts = .ok p → r = g p.value p.rest) : r = (reader f >>= g) ts := by
  cases hf : f ts with
  | error e => rw [bind_of_error (reader_error hf), herror e hf]
  | ok p => rw [bind_of_ok (reader_ok hf), hok p hf]

/-- One reader after another has read if both have. -/
theorem reader_bind_eq_ok {y : β} : (f >>= g) ts = .ok (y, rest) ↔
    ∃ x ts₁, f ts = .ok (x, ts₁) ∧ g x ts₁ = .ok (y, rest) := by
  constructor
  · intro h
    cases hf : f ts with
    | error e =>
      rw [bind_of_error hf] at h
      cases h
    | ok p =>
      rw [bind_of_ok hf] at h
      exact ⟨p.1, p.2, rfl, h⟩
  · rintro ⟨x, ts₁, hf, hg⟩
    rw [bind_of_ok hf, hg]

/-- A reader whose result is wrapped has read what it read before. -/
theorem bind_pure_eq_ok {h : α → β} {y : β} :
    (f >>= fun x => (pure (h x) : Reader ρ β)) ts = .ok (y, rest) ↔
      ∃ x, f ts = .ok (x, rest) ∧ y = h x := by
  simp only [reader_bind_eq_ok, pure_eq_ok]
  constructor
  · rintro ⟨x, _, hf, rfl, rfl⟩
    exact ⟨x, hf, rfl⟩
  · rintro ⟨x, hf, rfl⟩
    exact ⟨x, rest, hf, rfl, rfl⟩

end Bind

section IfNext

variable {s : Symbol} {f g : Reader ρ α}

/-- After the symbol the first reader goes on. -/
theorem ifNext_of_sym (h : Sym s ts rest) : ifNext s f g ts = f rest := by
  have hafter : after? s ts = some ⟨rest, h.length_lt⟩ := after?_eq_some.mpr h
  simp only [ifNext, hafter]

/-- Without the symbol the second reader goes on. -/
theorem ifNext_of_lacks (h : Lacks s ts) : ifNext s f g ts = g ts := by
  simp only [ifNext, after?_eq_none.mpr h]

/-- A branch has read if the side has read that the next token decides on. -/
theorem ifNext_eq_ok {x : α} : ifNext s f g ts = .ok (x, rest) ↔
    (∃ ts₁, Sym s ts ts₁ ∧ f ts₁ = .ok (x, rest)) ∨ Lacks s ts ∧ g ts = .ok (x, rest) := by
  rcases sym_or_lacks s ts with ⟨ts₁, hs⟩ | hlacks
  · rw [ifNext_of_sym hs]
    constructor
    · exact fun hf => .inl ⟨ts₁, hs, hf⟩
    · rintro (⟨ts₂, hs', hf⟩ | ⟨hlacks, -⟩)
      · obtain ⟨lexeme, offset, _⟩ := hs
        obtain ⟨_, _, _⟩ := hs'
        exact hf
      · exact absurd hs (hlacks ts₁)
  · rw [ifNext_of_lacks hlacks]
    constructor
    · exact fun hg => .inr ⟨hlacks, hg⟩
    · rintro (⟨ts₁, hs, -⟩ | ⟨-, hg⟩)
      · exact absurd hs (hlacks ts₁)
      · exact hg

/-- What comes after a branch comes after both sides of it. -/
theorem ifNext_bind (k : α → Reader ρ β) :
    ifNext s f g >>= k = ifNext s (f >>= k) (g >>= k) := by
  funext ts
  rcases sym_or_lacks s ts with ⟨rest, hs⟩ | hlacks
  · rw [ifNext_of_sym hs]
    show (ifNext s f g ts).bind _ = _
    rw [ifNext_of_sym hs]
    rfl
  · rw [ifNext_of_lacks hlacks]
    show (ifNext s f g ts).bind _ = _
    rw [ifNext_of_lacks hlacks]
    rfl

end IfNext

end Parser
end Expr
end CircuitExpr
