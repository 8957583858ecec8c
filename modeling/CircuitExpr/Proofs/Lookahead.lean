/-
# Readers that decide by the next token

A reader takes tokens from the front and leaves the others.  One that decides by the
next token has two properties.  What it has read, it reads again when something else
follows, as long as that begins with the same token or continues nothing.  And where
it fails, the tokens before the place can be completed to something that it reads,
while with the token at the place they cannot be completed.

`Foresees` says both of a reader on given tokens.  It passes from the parts of a
reader to the whole; for a reader that stops before its next part, this takes that the
next part can begin with tokens that do not continue what was read, which is
`Startable`.
-/

import CircuitExpr.Proofs.ParserExactness

namespace CircuitExpr
namespace Expr
namespace Parser

open Grammar (Sym Lacks)

variable {ρ α β : Type} {context : Context ρ} {ts rest rest' : List (Token ρ)}

/-! ### What comes next -/

/-- What is read before stands first, and the rest only counts if nothing is read. -/
theorem head?_append_congr (read : List (Token ρ)) (h : rest'.head? = rest.head?) :
    (read ++ rest').head? = (read ++ rest).head? := by
  rw [List.head?_append, List.head?_append, h]

/-- Whether a symbol comes is a matter of the first token. -/
theorem lacks_congr {s : Symbol} (h : rest'.head? = rest.head?) (hlacks : Lacks s rest) :
    Lacks s rest' := by
  rintro _ ⟨lexeme, offset, more⟩
  obtain ⟨after, rfl⟩ := List.head?_eq_some_iff.mp h.symm
  exact hlacks after ⟨lexeme, offset, after⟩

/-- Where operators stop depends on the next token. -/
theorem StopsBelow.congr {least : Nat} (h : rest'.head? = rest.head?)
    (hstops : StopsBelow least rest) : StopsBelow least rest' := by
  rintro op _ ⟨s, lexeme, offset, more, hs⟩
  obtain ⟨after, rfl⟩ := List.head?_eq_some_iff.mp h.symm
  exact hstops op after ⟨s, lexeme, offset, after, hs⟩

/-- Whether a sign comes depends on the next token. -/
theorem Unsigned.congr (h : rest'.head? = rest.head?) (hunsigned : Unsigned rest) :
    Unsigned rest' := by
  rintro op _ ⟨s, lexeme, offset, more, hs⟩
  obtain ⟨after, rfl⟩ := List.head?_eq_some_iff.mp h.symm
  exact hunsigned op after ⟨s, lexeme, offset, after, hs⟩

/-- The error about a token depends on the next token. -/
theorem unexpected_congr (wanted : Wanted) (h : rest'.head? = rest.head?) :
    unexpected context wanted rest' = unexpected context wanted rest := by
  cases rest with
  | nil => rw [List.head?_eq_none_iff.mp h]
  | cons t rest =>
    obtain ⟨after, rfl⟩ := List.head?_eq_some_iff.mp h
    rfl

/-- Where reading has stopped before `rest`, it stops before `rest'`: the same token comes,
or nothing that continues anything. -/
def StopsAlike (rest rest' : List (Token ρ)) : Prop := rest'.head? = rest.head? ∨ Ends rest'

/-- Rests that stop alike do so after the same tokens. -/
theorem StopsAlike.append (read : List (Token ρ)) (h : StopsAlike rest rest') :
    StopsAlike (read ++ rest) (read ++ rest') := by
  cases read with
  | nil => exact h
  | cons t read => exact .inl rfl

/-! ### Readers that foresee -/

/-- The reader reads some tokens that do not continue what stands before them. -/
def Startable (f : Reader ρ α) : Prop :=
  ∃ more y, ∀ tail, Ends tail → Ends (more ++ tail) ∧ f (more ++ tail) = .ok (y, tail)

/-- Reading nothing can start anywhere. -/
theorem Startable.pure (x : α) : Startable (pure x : Reader ρ α) :=
  ⟨[], x, fun _ h => ⟨h, rfl⟩⟩

/-- Readers that can start anywhere can follow one another. -/
theorem Startable.bind {f : Reader ρ α} {g : α → Reader ρ β} (hf : Startable f)
    (hg : ∀ x, Startable (g x)) : Startable (f >>= g) := by
  obtain ⟨more, x, hmore⟩ := hf
  obtain ⟨more', y, hmore'⟩ := hg x
  refine ⟨more ++ more', y, fun tail htail => ?_⟩
  obtain ⟨hends', hy⟩ := hmore' tail htail
  obtain ⟨hends, hx⟩ := hmore _ hends'
  rw [List.append_assoc, bind_of_ok hx]
  exact ⟨hends, hy⟩

/-- A reader that goes on at one symbol can stop at any end that lacks it. -/
theorem startable_ifNext_pure {s : Symbol} {f : Reader ρ α} {x : α}
    (hs : ∀ tail : List (Token ρ), Ends tail → Lacks s tail) : Startable (ifNext s f (pure x)) :=
  ⟨[], x, fun tail htail => ⟨htail, ifNext_of_lacks (hs tail htail)⟩⟩

/-- What a reader does with `ts` is decided by the tokens it reads and the next one. -/
inductive Foresees (context : Context ρ) (f : Reader ρ α) (ts : List (Token ρ)) : Prop
  /-- It reads `read`, whatever follows that does not continue it. -/
  | reads (x read rest) : ts = read ++ rest →
    (∀ rest', StopsAlike rest rest' → f (read ++ rest') = .ok (x, rest')) → Foresees context f ts
  /-- It fails behind `read` because of the next token, and `read` can be completed. -/
  | fails (wanted read rest) : ts = read ++ rest →
    (∀ rest', rest'.head? = rest.head? →
      f (read ++ rest') = .error (unexpected context wanted rest)) →
    (∃ more y, ∀ tail, Ends tail → f (read ++ (more ++ tail)) = .ok (y, tail)) →
    Foresees context f ts

namespace Foresees

/-- Reading nothing foresees everything. -/
theorem pure (x : α) (ts : List (Token ρ)) : Foresees context (pure x : Reader ρ α) ts :=
  .reads x [] ts rfl fun _ _ => rfl

/-- **One reader after another.** -/
theorem bind {f : Reader ρ α} {g : α → Reader ρ β} (hf : Foresees context f ts)
    (hg : ∀ x rest, f ts = .ok (x, rest) → Foresees context (g x) rest)
    (hstart : ∀ x, Startable (g x)) : Foresees context (f >>= g) ts := by
  cases hf with
  | reads x read rest hts hread =>
    have hx : f ts = .ok (x, rest) := by
      rw [hts]
      exact hread rest (.inl rfl)
    cases hg x rest hx with
    | reads y read' rest' hrest hread' =>
      refine .reads y (read ++ read') rest' (by rw [hts, hrest, List.append_assoc])
        fun after hafter => ?_
      rw [List.append_assoc, bind_of_ok (hread _ (hrest ▸ hafter.append read'))]
      exact hread' after hafter
    | fails wanted read' rest' hrest herror hmore =>
      refine .fails wanted (read ++ read') rest' (by rw [hts, hrest, List.append_assoc])
        (fun after hafter => ?_) ?_
      · rw [List.append_assoc, bind_of_ok (hread _ (.inl (hrest ▸ head?_append_congr read' hafter)))]
        exact herror after hafter
      · cases read' with
        | nil =>
          -- The completion must not continue `read`, so it is the one that `g x` can start with.
          obtain ⟨more, y, hmore⟩ := hstart x
          refine ⟨more, y, fun tail htail => ?_⟩
          obtain ⟨hends, hy⟩ := hmore tail htail
          rw [List.append_nil, bind_of_ok (hread _ (.inr hends))]
          exact hy
        | cons t read' =>
          obtain ⟨more, y, hmore⟩ := hmore
          refine ⟨more, y, fun tail htail => ?_⟩
          rw [List.append_assoc, bind_of_ok (hread _ (.inl (by rw [hrest]; rfl)))]
          exact hmore tail htail
  | fails wanted read rest hts herror hmore =>
    obtain ⟨more, x, hmore⟩ := hmore
    obtain ⟨more', y, hmore'⟩ := hstart x
    refine .fails wanted read rest hts (fun after hafter => bind_of_error (herror after hafter))
      ⟨more ++ more', y, fun tail htail => ?_⟩
    obtain ⟨hends, hy⟩ := hmore' tail htail
    rw [List.append_assoc, bind_of_ok (hmore _ hends)]
    exact hy

/-- Behind a token that decides, the reader goes on as another one. -/
theorem token {f g : Reader ρ α} {t : Token ρ} (hfg : ∀ ts, f (t :: ts) = g ts)
    (hg : Foresees context g ts) : Foresees context f (t :: ts) := by
  cases hg with
  | reads x read rest hts hread =>
    exact .reads x (t :: read) rest (by rw [hts]; rfl)
      fun after hafter => (hfg _).trans (hread after hafter)
  | fails wanted read rest hts herror hmore =>
    obtain ⟨more, y, hmore⟩ := hmore
    exact .fails wanted (t :: read) rest (by rw [hts]; rfl)
      (fun after hafter => (hfg _).trans (herror after hafter))
      ⟨more, y, fun tail htail => (hfg _).trans (hmore tail htail)⟩

/-- Before a token that decides, the reader goes on as another one; if that one may read
nothing, it must also do so before whatever ends a choice. -/
theorem ofHead {f g : Reader ρ α} (hg : Foresees context g ts)
    (hhead : ∀ ts', ts'.head? = ts.head? → f ts' = g ts') (hstart : Startable f)
    (hstop : (∀ x rest, g ts = .ok (x, rest) → rest.length < ts.length) ∨
      ∀ tail, Ends tail → f tail = g tail) :
    Foresees context f ts := by
  cases hg with
  | reads x read rest hts hread =>
    refine .reads x read rest hts fun after hafter => ?_
    have hfg : f (read ++ after) = g (read ++ after) := by
      cases read with
      | cons t read => exact hhead _ (by rw [hts]; rfl)
      | nil =>
        rcases hafter with hsame | hends
        · exact hhead _ (by rw [hts]; exact hsame)
        · rcases hstop with hshorter | hagree
          · have hx : g ts = .ok (x, rest) := by
              rw [hts]
              exact hread rest (.inl rfl)
            have hlt := hshorter x rest hx
            rw [hts] at hlt
            exact absurd hlt (Nat.lt_irrefl _)
          · exact hagree after hends
    exact hfg.trans (hread after hafter)
  | fails wanted read rest hts herror hmore =>
    refine .fails wanted read rest hts (fun after hafter => ?_) ?_
    · exact (hhead _ (by rw [hts]; exact head?_append_congr read hafter)).trans
        (herror after hafter)
    · cases read with
      | nil =>
        obtain ⟨more, y, hmore⟩ := hstart
        exact ⟨more, y, fun tail htail => (hmore tail htail).2⟩
      | cons t read =>
        obtain ⟨more, y, hmore⟩ := hmore
        exact ⟨more, y, fun tail htail => (hhead _ (by rw [hts]; rfl)).trans (hmore tail htail)⟩

/-- The next token is none that the reader can begin with. -/
theorem unexpected {f : Reader ρ α} (wanted : Wanted)
    (hf : ∀ ts', ts'.head? = ts.head? → f ts' = .error (Parser.unexpected context wanted ts'))
    (hstart : Startable f) : Foresees context f ts := by
  obtain ⟨more, y, hmore⟩ := hstart
  exact .fails wanted [] ts rfl
    (fun after hafter => (hf after hafter).trans (by rw [unexpected_congr wanted hafter]))
    ⟨more, y, fun tail htail => (hmore tail htail).2⟩

/-- A branch that the next token decides on. -/
theorem ifNext {s : Symbol} {f g : Reader ρ α}
    (hf : ∀ rest, Sym s ts rest → Foresees context f rest) (hg : Foresees context g ts)
    (hstart : Startable (ifNext s f g))
    (hstop : (∀ x rest, g ts = .ok (x, rest) → rest.length < ts.length) ∨
      ∀ tail : List (Token ρ), Ends tail → Lacks s tail) :
    Foresees context (ifNext s f g) ts := by
  rcases sym_or_lacks s ts with ⟨rest, hs⟩ | hlacks
  · have hrest := hf rest hs
    obtain ⟨lexeme, offset, _⟩ := hs
    exact hrest.token fun ts' => ifNext_of_sym ⟨lexeme, offset, ts'⟩
  · exact hg.ofHead (fun ts' hts' => ifNext_of_lacks (lacks_congr hts' hlacks)) hstart
      (hstop.imp_right fun h tail htail => ifNext_of_lacks (h tail htail))

end Foresees

end Parser
end Expr
end CircuitExpr
