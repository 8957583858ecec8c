/-
# Zeros with a sign, and undefined results

As constants, the two zeros count as one and so do all undefined results
(`Double.same_iff`).  Arithmetic shows the sign of a zero only where it divides by it:
every other operation gives, for operands that count as one, results that do.  On numbers
taken apart this is an equation for each operation, `unsign_add` and its like.

Powers are not computed from numbers taken apart.  Of a base that is not zero they see
the number itself, and under the exponent zero they are one, whatever its sign.
-/

import Mathlib
import CircuitExpr.Proofs.AlikeTrees
import CircuitExpr.Proofs.DoubleSigns

namespace CircuitExpr
namespace Double

open Float.Model (UnpackedFloat Format)
open Float.Model.UnpackedFloat

/-! ### Numbers taken apart -/

/-- The number, a zero without its sign. -/
def unsign : UnpackedFloat → UnpackedFloat
  | .zero _ => .zero .positive
  | u => u

/-- Numbers that differ at most in the sign of zero are the same or both zero. -/
theorem eq_or_zero_of_unsign_eq {u v : UnpackedFloat} (h : unsign u = unsign v) :
    u = v ∨ ∃ s t, u = .zero s ∧ v = .zero t := by
  cases u <;> cases v <;> first | exact .inl h | exact .inr ⟨_, _, rfl, rfl⟩ | cases h

/-- The sign of zero does not matter for changing the sign. -/
theorem unsign_neg (u : UnpackedFloat) : unsign u.neg = unsign (unsign u).neg := by
  cases u <;> rfl

/-- The sign of zero does not matter for sums. -/
theorem unsign_add (u v : UnpackedFloat) :
    unsign (add Format.binary64 u v) = unsign (add Format.binary64 (unsign u) (unsign v)) := by
  cases u with
  | zero s => cases v with
    | zero t => cases s <;> cases t <;> rfl
    | _ => rfl
  | _ => cases v <;> rfl

/-- The sign of zero does not matter for differences. -/
theorem unsign_sub (u v : UnpackedFloat) :
    unsign (sub Format.binary64 u v) = unsign (sub Format.binary64 (unsign u) (unsign v)) := by
  cases u with
  | zero s => cases v with
    | zero t => cases s <;> cases t <;> rfl
    | _ => rfl
  | _ => cases v <;> rfl

/-- The sign of zero does not matter for products. -/
theorem unsign_mul (u v : UnpackedFloat) :
    unsign (mul Format.binary64 u v) = unsign (mul Format.binary64 (unsign u) (unsign v)) := by
  cases u <;> cases v <;> rfl

/-- The sign of zero does not matter for quotients by numbers that are not zero. -/
theorem unsign_div (u v : UnpackedFloat) (hv : ∀ s, v ≠ .zero s) :
    unsign (div Format.binary64 u v) = unsign (div Format.binary64 (unsign u) (unsign v)) := by
  cases v with
  | zero s => exact absurd rfl (hv s)
  | _ => cases u <;> rfl

/-- The sign of zero does not matter for comparisons. -/
theorem compare_unsign (u v : UnpackedFloat) :
    UnpackedFloat.compare u v = UnpackedFloat.compare (unsign u) (unsign v) := by
  cases u with
  | infinity s => cases s <;> cases v <;> rfl
  | finite s => cases s <;> cases v <;> rfl
  | notANumber => cases v <;> rfl
  | zero s => cases v with
    | infinity t => cases t <;> rfl
    | finite t => cases t <;> rfl
    | _ => rfl

/-! ### Constants that count as one -/

/-- Two constants are both undefined, or numbers that differ at most in the sign of a
zero. -/
inductive Same : Double → Double → Prop
  /-- Results of undefined operations. -/
  | undefined (s t : Bool) : Same (.undefined s) (.undefined t)
  /-- Numbers. -/
  | defined {x y : Float} (hx : x.isNaN = false) (hy : y.isNaN = false) :
    unsign x.toModel.unpack = unsign y.toModel.unpack → Same (.defined x hx) (.defined y hy)

/-- A number is equal to zero if it is one, of either sign. -/
theorem beq_zero_iff (x : Float) : (x == 0) = true ↔ ∃ s, x.toModel.unpack = .zero s := by
  change (UnpackedFloat.beq x.toModel.unpack (.zero .positive)) = true ↔ _
  cases x.toModel.unpack with
  | infinity s => cases s <;> simp [UnpackedFloat.beq, UnpackedFloat.compare]
  | finite s => cases s <;> simp [UnpackedFloat.beq, UnpackedFloat.compare]
  | _ => simp [UnpackedFloat.beq, UnpackedFloat.compare]

/-- Defined numbers are equal if they unpack equally. -/
theorem eq_of_unpack_eq {x y : Float} (hx : x.isNaN = false) (hy : y.isNaN = false)
    (h : x.toModel.unpack = y.toModel.unpack) : x = y := by
  rw [← ofModel_pack_unpack x hx, h, ofModel_pack_unpack y hy]

/-- Zero is defined. -/
theorem isNaN_zero : (0 : Float).isNaN = false := rfl

/-- The key of a number is a number, the same up to the sign of a zero. -/
theorem exists_key_defined {x : Float} (hx : x.isNaN = false) :
    ∃ y, ∃ hy : y.isNaN = false, key (defined x hx) = defined y hy ∧
      unsign y.toModel.unpack = unsign x.toModel.unpack ∧
        ((∃ s, x.toModel.unpack = .zero s) → y = 0) := by
  simp only [key]
  split
  · rename_i h
    obtain ⟨s, hs⟩ := (beq_zero_iff x).mp h
    exact ⟨0, isNaN_zero, ofFloat_eq_defined isNaN_zero, by rw [hs]; rfl, fun _ => rfl⟩
  · rename_i h
    exact ⟨x, hx, rfl, rfl, fun hzero => absurd ((beq_zero_iff x).mpr hzero) h⟩

/-- **Constants count as one if they differ at most in the sign of a zero.** -/
theorem same_iff {c d : Double} : Scalar.same c d = true ↔ Same c d := by
  rw [Scalar.same_iff]
  change key c = key d ↔ Same c d
  cases c with
  | undefined s => cases d with
    | undefined t => exact ⟨fun _ => .undefined s t, fun _ => rfl⟩
    | defined y hy =>
      obtain ⟨y', hy', hkey, -, -⟩ := exists_key_defined hy
      rw [hkey]
      exact ⟨nofun, nofun⟩
  | defined x hx =>
    obtain ⟨x', hx', hkey, hsame, hzero⟩ := exists_key_defined hx
    rw [hkey]
    cases d with
    | undefined t => exact ⟨nofun, nofun⟩
    | defined y hy =>
      obtain ⟨y', hy', hkey', hsame', hzero'⟩ := exists_key_defined hy
      rw [hkey']
      constructor
      · intro h
        injection h with h
        exact .defined hx hy (by rw [← hsame, h, hsame'])
      · rintro ⟨⟩
        rename_i h
        have hxy : x' = y' := by
          obtain heq | ⟨s, t, hs, ht⟩ := eq_or_zero_of_unsign_eq h
          · obtain rfl := eq_of_unpack_eq hx hy heq
            injection hkey.symm.trans hkey'
          · rw [hzero ⟨s, hs⟩, hzero' ⟨t, ht⟩]
        subst hxy
        rfl

/-- Constants count as one if they are equal, both zeros, or both undefined. -/
theorem same_iff_eq {a b : Double} :
    Scalar.same a b = true ↔ a = b ∨ (Scalar.eq a 0 = true ∧ Scalar.eq b 0 = true) ∨
      (Scalar.isNaN a = true ∧ Scalar.isNaN b = true) := by
  rw [same_iff]
  constructor
  · rintro (_ | @⟨x, y, hx, hy, h⟩)
    · exact .inr (.inr ⟨rfl, rfl⟩)
    · obtain heq | ⟨s, t, hs, ht⟩ := eq_or_zero_of_unsign_eq h
      · obtain rfl := eq_of_unpack_eq hx hy heq
        exact .inl rfl
      · exact .inr (.inl ⟨(beq_zero_iff x).mpr ⟨s, hs⟩, (beq_zero_iff y).mpr ⟨t, ht⟩⟩)
  · rintro (rfl | ⟨ha, hb⟩ | ⟨ha, hb⟩)
    · exact same_iff.mp (Scalar.same_refl a)
    · cases a with
      | undefined s => cases ha
      | defined x hx =>
        cases b with
        | undefined s => cases hb
        | defined y hy =>
          obtain ⟨s, hs⟩ := (beq_zero_iff x).mp ha
          obtain ⟨t, ht⟩ := (beq_zero_iff y).mp hb
          exact .defined hx hy (by rw [hs, ht]; rfl)
    · cases a with
      | undefined s =>
        cases b with
        | undefined t => exact .undefined s t
        | defined y hy => cases hb
      | defined x hx => cases ha

/-- Packing and taking apart again shows no more of the sign of a zero. -/
theorem same_ofModel {u v : UnpackedFloat} (h : unsign u = unsign v) :
    Scalar.same (ofFloat (.ofModel (.pack u))) (ofFloat (.ofModel (.pack v))) = true := by
  obtain rfl | ⟨s, t, rfl, rfl⟩ := eq_or_zero_of_unsign_eq h
  · exact Scalar.same_refl _
  · cases s <;> cases t <;> decide

/-- An operation that shows no sign of a zero in numbers taken apart shows none in
constants; the second operand may be restricted. -/
theorem same_lift₂ {op : UnpackedFloat → UnpackedFloat → UnpackedFloat} {c c' d d' : Double}
    (hop : ∀ u v, (∀ {y : Float} {hy}, d = defined y hy → unsign v = unsign y.toModel.unpack) →
      unsign (op u v) = unsign (op (unsign u) (unsign v)))
    (hc : Scalar.same c c' = true) (hd : Scalar.same d d' = true) :
    Scalar.same
      (lift₂ (fun x y => .ofModel (.pack (op x.toModel.unpack y.toModel.unpack))) c d)
      (lift₂ (fun x y => .ofModel (.pack (op x.toModel.unpack y.toModel.unpack))) c' d') = true := by
  cases same_iff.mp hc with
  | undefined s t => exact same_iff.mpr (.undefined s t)
  | @defined x x' hx hx' hxx' =>
    cases same_iff.mp hd with
    | undefined s t => exact same_iff.mpr (.undefined s t)
    | @defined y y' hy hy' hyy' =>
      have hy₁ := hop x.toModel.unpack y.toModel.unpack fun h => by cases h; rfl
      have hy₂ := hop x'.toModel.unpack y'.toModel.unpack fun h => by cases h; exact hyy'.symm
      exact same_ofModel (by rw [hy₁, hy₂, hxx', hyy'])

/-- A comparison of numbers does not see the sign of a zero. -/
theorem compare_same {r : Float → Float → Bool} (test : Option Ordering → Bool)
    {c c' d d' : Double}
    (hr : ∀ x y : Float, r x y = test (UnpackedFloat.compare x.toModel.unpack y.toModel.unpack))
    (hc : Same c c') (hd : Same d d') : compare r c d = compare r c' d' := by
  cases hc with
  | undefined s t => rfl
  | defined hx hx' hxx' =>
    cases hd with
    | undefined s t => rfl
    | defined hy hy' hyy' =>
      change r _ _ = r _ _
      rw [hr, hr, compare_unsign, hxx', hyy', ← compare_unsign]

/-- Numbers that are the same compare as equal with the same numbers. -/
theorem eq_same {c c' d d' : Double} (hc : Same c c') (hd : Same d d') :
    Scalar.eq c d = Scalar.eq c' d' :=
  compare_same (· == some .eq) (fun _ _ => rfl) hc hd

/-- A constant that is not zero counts as one with itself only, unless it is undefined. -/
theorem eq_or_undefined_of_same {c d : Double} (h : Same c d) (hc : Scalar.eq c 0 = false) :
    c = d ∨ ∃ s t, c = undefined s ∧ d = undefined t := by
  cases h with
  | undefined s t => exact .inr ⟨s, t, rfl, rfl⟩
  | @defined x y hx hy h =>
    obtain heq | ⟨s, t, hs, -⟩ := eq_or_zero_of_unsign_eq h
    · obtain rfl := eq_of_unpack_eq hx hy heq
      exact .inl rfl
    · have hzero : (x == 0) = true := (beq_zero_iff x).mpr ⟨s, hs⟩
      have : (x == 0) = false := hc
      rw [hzero] at this
      cases this

/-- Numbers that are the same are the same integer, if any. -/
theorem toInt?_same {c d : Double} (h : Same c d) : Scalar.toInt? c = Scalar.toInt? d := by
  cases h with
  | undefined s t => rfl
  | @defined x y hx hy h =>
    obtain heq | ⟨s, t, hs, ht⟩ := eq_or_zero_of_unsign_eq h
    · obtain rfl := eq_of_unpack_eq hx hy heq
      rfl
    · change Exact.toInt? x = Exact.toInt? y
      rw [Exact.toInt?, Exact.toInt?, hs, ht]

/-- Numbers that are the same are so with the other sign. -/
theorem neg_same {c d : Double} (h : Same c d) : Scalar.same (-c) (-d) = true := by
  cases h with
  | undefined s t => exact same_iff.mpr (.undefined _ _)
  | defined hx hy h => exact same_ofModel (by rw [unsign_neg, h, ← unsign_neg])

/-- Zero with the other sign is zero. -/
theorem neg_zero {c : Double} (h : Scalar.eq c 0 = true) : Scalar.eq (-c) 0 = true := by
  cases c with
  | undefined s => cases h
  | defined x hx =>
    obtain ⟨s, hs⟩ := (beq_zero_iff x).mp h
    have hneg : Scalar.eq (ofFloat (.ofModel (.pack (UnpackedFloat.neg (.zero s)))) : Double) 0 =
        true := by cases s <;> decide
    rw [← hs] at hneg
    exact hneg

/-- A quotient whose divisor is not zero. -/
theorem div_same {c c' d d' : Double} (hzero : Scalar.eq d 0 = false)
    (hc : Scalar.same c c' = true) (hd : Scalar.same d d' = true) :
    Scalar.same (c / d) (c' / d') = true := by
  cases d with
  | undefined s =>
    cases same_iff.mp hd with
    | undefined _ t => cases same_iff.mp hc <;> exact same_iff.mpr (.undefined _ _)
  | defined y hy =>
    refine same_lift₂ (fun u v hv => unsign_div u v ?_) hc hd
    rintro s rfl
    have hne : ¬(y == 0) = true := by
      rw [Bool.not_eq_true]
      exact hzero
    refine hne ((beq_zero_iff y).mpr ?_)
    obtain h | ⟨-, t, -, ht⟩ := eq_or_zero_of_unsign_eq (hv rfl)
    · exact ⟨s, h.symm⟩
    · exact ⟨t, ht⟩

/-- A power whose base is not zero. -/
theorem pow_same {c c' d d' : Double} (hzero : Scalar.eq c 0 = false) (hc : Same c c')
    (hd : Same d d') : Scalar.same (Scalar.pow c d) (Scalar.pow c' d') = true := by
  change Scalar.same (Double.pow c d) (Double.pow c' d') = true
  have hone : compare (· == ·) c (ofFloat 1) = compare (· == ·) c' (ofFloat 1) :=
    eq_same hc (same_iff.mp (Scalar.same_refl _))
  have hexponent : compare (· == ·) d (ofFloat 0) = compare (· == ·) d' (ofFloat 0) :=
    eq_same hd (same_iff.mp (Scalar.same_refl _))
  rw [Double.pow, Double.pow, ← hone, ← hexponent]
  split
  · exact Scalar.same_refl _
  · rename_i hneither
    rw [Bool.or_eq_true, not_or, Bool.not_eq_true, Bool.not_eq_true] at hneither
    obtain rfl | ⟨s, t, rfl, rfl⟩ := eq_or_undefined_of_same hc hzero
    · obtain rfl | ⟨s, t, rfl, rfl⟩ := eq_or_undefined_of_same hd hneither.2
      · exact Scalar.same_refl _
      · cases c <;> exact same_iff.mpr (.undefined _ _)
    · exact same_iff.mpr (.undefined s t)

/-- **Arithmetic gives constants that count as one for constants that do.** -/
instance : Scalar.RespectsKeys Double where
  eq ha hb := eq_same (same_iff.mp ha) (same_iff.mp hb)
  neg ha := neg_same (same_iff.mp ha)
  add := same_lift₂ fun u v _ => unsign_add u v
  sub := same_lift₂ fun u v _ => unsign_sub u v
  mul := same_lift₂ fun u v _ => unsign_mul u v
  div := div_same
  pow hzero ha hb := pow_same hzero (same_iff.mp ha) (same_iff.mp hb)
  neg_zero h := neg_zero h
  toInt? ha := toInt?_same (same_iff.mp ha)

end Double
end CircuitExpr
