/-!
Comparison of decimals for equality. It is symmetric, and a decimal equals itself
exactly when it is a number.
-/

namespace Stencil.Number

open Float.Model

/-- Finite decimals other than zero are equal only if they are written alike. -/
theorem beq_finite (s t : UnpackedFloat.Sign) (m m' : Nat) (e e' : Int) (h : 0 < m) (h' : 0 < m') :
    UnpackedFloat.beq (.finite s m e h) (.finite t m' e' h') = true ↔
      s = t ∧ e = e' ∧ m = m' := by
  cases s with
  | negative =>
    cases t with
    | negative =>
      change (some ((compare e e').then (compare m m')).swap == some .eq) = true ↔ _
      simp
    | positive =>
      change (some Ordering.lt == some .eq) = true ↔ _
      simp
  | positive =>
    cases t with
    | negative =>
      change (some Ordering.gt == some .eq) = true ↔ _
      simp
    | positive =>
      change (some ((compare e e').then (compare m m')) == some .eq) = true ↔ _
      simp

/-- Equality of decimals is symmetric. -/
theorem unpacked_beq_comm (x y : UnpackedFloat) : x.beq y = y.beq x := by
  cases x with
  | notANumber => cases y <;> rfl
  | zero s =>
    cases y with
    | notANumber => rfl
    | zero t => rfl
    | infinity t => cases t <;> rfl
    | finite t m e h => cases t <;> rfl
  | infinity s =>
    cases y with
    | notANumber => rfl
    | zero t => cases s <;> rfl
    | infinity t => cases s <;> cases t <;> rfl
    | finite t m e h => cases s <;> rfl
  | finite s m e h =>
    cases y with
    | notANumber => rfl
    | zero t => cases s <;> rfl
    | infinity t => cases t <;> rfl
    | finite t m' e' h' =>
      rw [Bool.eq_iff_iff, beq_finite, beq_finite]
      constructor
      · rintro ⟨rfl, rfl, rfl⟩
        exact ⟨rfl, rfl, rfl⟩
      · rintro ⟨rfl, rfl, rfl⟩
        exact ⟨rfl, rfl, rfl⟩

theorem unpacked_beq_self {x : UnpackedFloat} (h : x.isNaN = false) : x.beq x = true := by
  cases x with
  | notANumber => cases h
  | zero s => rfl
  | infinity s => cases s <;> rfl
  | finite s m e hm => exact (beq_finite s s m m e e hm hm).mpr ⟨rfl, rfl, rfl⟩

theorem float_beq_comm (x y : Float) : (x == y) = (y == x) :=
  unpacked_beq_comm x.toModel.unpack y.toModel.unpack

/-- A decimal is equal to itself unless it is no number. -/
theorem float_beq_self {x : Float} (h : x.isNaN = false) : (x == x) = true :=
  unpacked_beq_self h

end Stencil.Number
