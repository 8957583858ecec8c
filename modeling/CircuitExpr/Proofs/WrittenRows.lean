/-
# What stands in the places afterwards

Writing values or derivatives into places can fail, and then some of the places may have
been written already.  Of the values it is all or none.  Of the matrix it is some rows from
the top: inside a row nothing can fail once its first place is written, because an equation
of a system has a derivative by each of the variables or by none (`fillRow_cases`).  So
there is a row `k` up to which all is written and from which on all is kept
(`FilledUpTo`), and the error says why row `k` was not written (`StopsAt`).
-/

import CircuitExpr.Proofs.JacobianPaths

namespace CircuitExpr

namespace Equation

variable {ρ S α : Type} [Scalar ρ] {q : Equation ρ S α} {vars : List Variable}

/-- An equation with derivatives has one by each variable that it covers. -/
theorem exists_slopeBy (b : Backend ρ S α) (memory : S → α)
    (hq : q.Covers (OrderedMap.distinct vars)) (h : q.isDifferentiable = true) {v : Variable}
    (hv : v ∈ vars) : ∃ slot, q.slopeBy b memory v = .ok slot := by
  obtain ⟨slopes, hslopes⟩ := Option.isSome_iff_exists.mp (hq.slopes.trans h)
  have hkey : v ∈ slopes.keys := by
    rw [hq.keys slopes hslopes]
    exact OrderedMap.mem_distinct.mpr hv
  obtain ⟨slope, hslope⟩ := Option.isSome_iff_exists.mp ((slopes.contains_iff v).mpr hkey)
  exact ⟨slope.value? b memory, by rw [slopeBy, derivativeBy_eq_ok hslopes hslope]; rfl⟩

/-- The derivatives of the equation by the variables, place by place. -/
def Slopes (b : Backend ρ S α) (memory : S → α) (vars : List Variable) (q : Equation ρ S α)
    (row : List (Option α)) : Prop :=
  List.Forall₂ (fun v slot => q.slopeBy b memory v = .ok slot) vars row

end Equation

namespace EquationSystem

open Equation

variable {ρ S α σ : Type} [Scalar ρ] {s : Setting ρ S α} {host : Resolver σ S} {b : Backend ρ S α}
  {memory : S → α} {vars : List Variable}

/-- **Place by place, the values of all equations are written** when there are as many
places. -/
theorem fillValues_eq_map (b : Backend ρ S α) (memory : S → α) {rows : List (Equation ρ S α)}
    {places : List (Option α)} (h : places.length = rows.length) :
    fillValues b memory rows places = rows.map (Equation.eval b memory) := by
  induction rows generalizing places with
  | nil =>
    obtain rfl := List.length_eq_zero_iff.mp h
    rfl
  | cons q rows ih =>
    obtain ⟨place, places, rfl⟩ := List.exists_cons_of_length_eq_add_one h
    rw [fillValues, ih (Nat.succ.inj h), List.map_cons]

/-- **A row is written as a whole or not at all.** -/
theorem fillRow_cases (b : Backend ρ S α) (memory : S → α) {q : Equation ρ S α}
    (hq : q.Covers (OrderedMap.distinct vars)) {row : List (Option α)}
    (hrow : row.length = vars.length) :
    (∃ written, fillRow b memory q vars row = (.ok (), written) ∧ q.Slopes b memory vars written) ∨
      q.isDifferentiable = false ∧
        fillRow b memory q vars row = (.error (.notDifferentiable q.text), row) := by
  obtain ⟨houtcome, hresults⟩ := fillRow_delivers b memory q hrow
  cases h : q.isDifferentiable with
  | true =>
    obtain ⟨written, hwritten⟩ :=
      exists_mapM_eq_ok.mpr fun v hv => exists_slopeBy b memory hq h hv
    refine .inl ⟨written, Prod.ext ?_ (hresults written hwritten), mapM_eq_ok.mp hwritten⟩
    rw [houtcome, hwritten]
    rfl
  | false =>
    have hslopes : q.slopes = none := by
      rw [← Option.isNone_iff_eq_none, ← Option.isSome_eq_false_iff, hq.slopes, h]
    cases vars with
    | nil =>
      obtain rfl := List.length_eq_zero_iff.mp hrow
      exact .inl ⟨[], rfl, .nil⟩
    | cons v vs =>
      obtain ⟨place, places, rfl⟩ := List.exists_cons_of_length_eq_add_one hrow
      refine .inr ⟨rfl, ?_⟩
      rw [fillRow, derivativeBy, hslopes]

/-- The rows before row `k` hold the derivatives of their equations, and the others are as
they were. -/
structure FilledUpTo (b : Backend ρ S α) (memory : S → α) (vars : List Variable)
    (rows : List (Equation ρ S α)) (k : Nat) (before after : List (List (Option α))) : Prop where
  /-- There are so many equations. -/
  le : k ≤ rows.length
  /-- No row gets longer or shorter. -/
  shape : after.map List.length = before.map List.length
  /-- The first rows are written. -/
  filled : List.Forall₂ (Slopes b memory vars) (rows.take k) (after.take k)
  /-- The others are kept. -/
  kept : after.drop k = before.drop k

/-- Places that are not touched are filled up to no row. -/
theorem filledUpTo_zero {rows : List (Equation ρ S α)} (places : List (List (Option α))) :
    FilledUpTo b memory vars rows 0 places places :=
  ⟨Nat.zero_le _, rfl, .nil, rfl⟩

/-- One more row on top. -/
theorem FilledUpTo.cons {rows : List (Equation ρ S α)} {k : Nat}
    {before after : List (List (Option α))} (h : FilledUpTo b memory vars rows k before after)
    {q : Equation ρ S α} {row written : List (Option α)} (hrow : row.length = vars.length)
    (hq : q.Slopes b memory vars written) :
    FilledUpTo b memory vars (q :: rows) (k + 1) (row :: before) (written :: after) where
  le := Nat.succ_le_succ h.le
  shape := by rw [List.map_cons, List.map_cons, h.shape, hrow, ← hq.length_eq]
  filled := .cons hq h.filled
  kept := h.kept

/-- The error that says why row `k` is not written: it has the wrong length, or its
equation has no derivatives. -/
def StopsAt (vars : List Variable) (rows : List (Equation ρ S α))
    (places : List (List (Option α))) (k : Nat) (err : EquationError) : Prop :=
  ∃ q row, rows[k]? = some q ∧ places[k]? = some row ∧
    (row.length ≠ vars.length ∧ err = .invalidOutputLength vars.length row.length ∨
      row.length = vars.length ∧ q.isDifferentiable = false ∧ err = .notDifferentiable q.text)

/-- **Rows are written from the top, up to one that cannot be.** -/
theorem exists_filledUpTo (b : Backend ρ S α) (memory : S → α) {rows : List (Equation ρ S α)}
    (hcovers : ∀ q ∈ rows, q.Covers (OrderedMap.distinct vars))
    {places : List (List (Option α))} (hrows : places.length = rows.length) :
    ∃ k, FilledUpTo b memory vars rows k places (fillRows b memory vars rows places).2 ∧
      ((fillRows b memory vars rows places).1 = .ok () ∧ k = rows.length ∨
        ∃ err, (fillRows b memory vars rows places).1 = .error err ∧
          StopsAt vars rows places k err) := by
  induction rows generalizing places with
  | nil =>
    obtain rfl := List.length_eq_zero_iff.mp hrows
    exact ⟨0, filledUpTo_zero [], .inl ⟨rfl, rfl⟩⟩
  | cons q rows ih =>
    obtain ⟨row, places, rfl⟩ := List.exists_cons_of_length_eq_add_one hrows
    obtain ⟨hq, hcovers⟩ := List.forall_mem_cons.mp hcovers
    by_cases hrow : row.length = vars.length
    · rw [fillRows, if_pos hrow]
      obtain ⟨written, hfill, hwritten⟩ | ⟨hnot, hfill⟩ := fillRow_cases b memory hq hrow
      · obtain ⟨k, hfilled, houtcome⟩ := ih hcovers (Nat.succ.inj hrows)
        rw [hfill]
        refine ⟨k + 1, hfilled.cons hrow hwritten, ?_⟩
        exact houtcome.imp (And.imp_right (congrArg Nat.succ)) id
      · rw [hfill]
        exact ⟨0, filledUpTo_zero _, .inr ⟨_, rfl, q, row, rfl, rfl, .inr ⟨hrow, hnot, rfl⟩⟩⟩
    · rw [fillRows, if_neg hrow]
      exact ⟨0, filledUpTo_zero _, .inr ⟨_, rfl, q, row, rfl, rfl, .inl ⟨hrow, rfl⟩⟩⟩

end EquationSystem

open EquationSystem

/-- **No row is left half written.**  Whatever the places for the values, either their
number is wrong, which is the error, and they are kept, or each gets the value that the
system has.  Whatever the places for the matrix, there is a number `k` of rows such that
row for row the first `k` hold the derivatives by the variables and the others are kept.
All went well if `k` is the number of rows, of the system as of the places.  Otherwise the
error says that the number of rows is wrong, and then none is written, or that row `k` has
the wrong length, or that the equation of row `k`, which has the right one, has no
derivatives; it is never that a derivative is missing. -/
theorem rows_written_whole {ρ S α σ : Type} [Scalar ρ] {s : Setting ρ S α} {host : Resolver σ S}
    {y : EquationSystem ρ S α} (hy : y.Made s host) (b : Backend ρ S α) (memory : S → α) :
    (∀ places : List (Option α),
      (places.length ≠ y.size ∧ y.evalInto b memory places =
        (.error (.invalidOutputLength y.size places.length), places)) ∨
      places.length = y.size ∧ y.evalInto b memory places = (.ok (), y.eval b memory)) ∧
    ∀ places : List (List (Option α)),
      ∃ k, FilledUpTo b memory y.vars y.rows k places (y.jacobianInto b memory places).2 ∧
        ((y.jacobianInto b memory places).1 = .ok () ↔ k = y.size ∧ k = places.length) ∧
        (∀ err, (y.jacobianInto b memory places).1 = .error err →
          (places.length ≠ y.size ∧ k = 0 ∧ err = .invalidOutputLength y.size places.length) ∨
          places.length = y.size ∧ StopsAt y.vars y.rows places k err) ∧
        ∀ v, (y.jacobianInto b memory places).1 ≠ .error (.derivativeNotFound v) := by
  refine ⟨fun places => ?_, fun places => ?_⟩
  · rw [evalInto]
    split
    · rename_i h
      exact .inr ⟨h, congrArg _ (fillValues_eq_map b memory h)⟩
    · rename_i h
      exact .inl ⟨h, rfl⟩
  · by_cases hrows : places.length = y.size
    · rw [jacobianInto, if_pos hrows]
      obtain ⟨k, hfilled, ⟨hok, rfl⟩ | ⟨err, herr, hstops⟩⟩ :=
        exists_filledUpTo b memory hy.covers hrows
      · refine ⟨_, hfilled, iff_of_true hok ⟨rfl, hrows.symm⟩, ?_, ?_⟩ <;> rw [hok]
        · rintro _ ⟨⟩
        · rintro _ ⟨⟩
      · refine ⟨k, hfilled, ?_, ?_, ?_⟩
        · rw [herr]
          refine iff_of_false (by rintro ⟨⟩) ?_
          rintro ⟨hk, -⟩
          obtain ⟨q, -, hq, -⟩ := hstops
          exact (hk ▸ (List.getElem?_eq_some_iff.mp hq).1).false
        · rintro err' herr'
          obtain rfl := Except.error.inj (herr.symm.trans herr')
          exact .inr ⟨hrows, hstops⟩
        · rintro v hv
          obtain rfl := Except.error.inj (herr.symm.trans hv)
          obtain ⟨_, _, -, -, ⟨-, ⟨⟩⟩ | ⟨-, -, ⟨⟩⟩⟩ := hstops
    · rw [jacobianInto, if_neg hrows]
      refine ⟨0, filledUpTo_zero places, ?_, ?_, ?_⟩
      · refine iff_of_false (by rintro ⟨⟩) ?_
        rintro ⟨hsize, hlength⟩
        exact hrows (hlength.symm.trans hsize)
      · rintro err herr
        exact .inl ⟨hrows, rfl, (Except.error.inj herr).symm⟩
      · rintro _ ⟨⟩

/-- The system of `a` and `a<b` by `a`: the first row is written, the second is kept. -/
theorem comparedSystem_written_whole :
    ∃ y : EquationSystem ℝ Variable ℝ, y.Made exactSetting (.recording some) ∧ y.size = 2 ∧
      y.vars = [.named "a"] ∧ ∀ memory,
        (y.jacobianInto exactSetting.backend memory [[none], [some 3]]).1 =
          .error (.notDifferentiable "a<b") ∧
        FilledUpTo exactSetting.backend memory y.vars y.rows 1 [[none], [some 3]]
          (y.jacobianInto exactSetting.backend memory [[none], [some 3]]).2 := by
  let a : Variable := .named "a"
  let comparison : Expr ℝ := .binary .lt (.var a) (.var (.named "b"))
  have hread : readAll (exactSetting : Setting ℝ Variable ℝ) ["a", "a<b"] =
      .ok [("a", (.var a : Expr ℝ)), ("a<b", comparison)] := by
    simp only [readAll, List.mapM_cons, read_a, read_comparison]
    rfl
  have hderive : comparison.derive .builtin [a] = none :=
    (Expr.derive_eq_derivatives ..).trans rfl
  let y : EquationSystem ℝ Variable ℝ := ⟨[variableEquation "a" a, ⟨"a<b", comparison, [a], none,
    .binary .lt (.read a) (.read (.named "b")), none⟩], [a]⟩
  have hmade : y.Made exactSetting (.recording some) := by
    refine ⟨["a", "a<b"], [], .inr ⟨[a], ?_⟩⟩
    rw [ofTextsBy, Attempt.fst_andThen, Attempt.fst_ofExcept, hread]
    change (ofExprs exactSetting (.recording some) [("a", .var a), ("a<b", comparison)] [a] []).1 = _
    rw [ofExprs, Attempt.fst_andThen, Attempt.each, Attempt.fst_andThen, ofExpr_var]
    simp only [Attempt.each, Equation.ofExpr, exactSetting, hderive]
    rfl
  refine ⟨y, hmade, rfl, rfl, fun memory => ⟨rfl, ?_⟩⟩
  obtain ⟨k, hfilled, -, herror, -⟩ :=
    (rows_written_whole hmade exactSetting.backend memory).2 [[none], [some 3]]
  obtain ⟨hsize, -⟩ | ⟨-, q, row, hq, hrow, hreason⟩ := herror _ rfl
  · exact absurd rfl hsize
  · obtain _ | _ | k := k
    · obtain rfl := Option.some.inj hq
      obtain rfl := Option.some.inj hrow
      obtain ⟨hlength, -⟩ | ⟨-, hnot, -⟩ := hreason
      · exact absurd rfl hlength
      · cases hnot
    · exact hfilled
    · cases hq

end CircuitExpr
