import Mathlib.Algebra.Group.Int.Defs
import Mathlib.Algebra.Group.Nat.Defs
import Mathlib.Algebra.Order.Group.Unbundled.Int

/-!
# Signed 64-bit arithmetic

The values of a signed 64-bit word, the sum of two taken modulo the word, and an operation that is only defined where
its value fits.
-/

namespace SignedWords

variable {x y z : Int}

/-- The value is one of a signed 64-bit word. -/
def Fits (x : Int) : Prop := -2 ^ 63 ≤ x ∧ x < 2 ^ 63

instance : Decidable (Fits x) := inferInstanceAs (Decidable (_ ∧ _))

/-! ### Modulo the word -/

/-- The value that a word keeps of `x`. -/
def wrap64 (x : Int) : Int := x.bmod (2 ^ 64)

theorem wrap64_of_fits (h : Fits x) : wrap64 x = x := by
  obtain ⟨hl, hh⟩ := h
  unfold wrap64
  apply Int.bmod_eq_of_le
  · omega
  · omega

theorem wrap64_add (x y : Int) : wrap64 (wrap64 x + y) = wrap64 (x + y) := Int.bmod_add_bmod

/-- A value too high by no more than the word comes round once. -/
theorem wrap64_of_high (hl : 2 ^ 63 ≤ x) (hh : x < 2 ^ 63 + 2 ^ 64) : wrap64 x = x - 2 ^ 64 := by
  have h : wrap64 (x - 2 ^ 64) = wrap64 x := by
    exact Int.sub_bmod_right x (2 ^ 64)
  rw [← h]
  apply wrap64_of_fits
  unfold Fits
  omega

/-! ### Defined where it fits -/

/-- An operation of value `x`: none where it overflows. -/
def checked (x : Int) : Option Int := if Fits x then some x else none

@[simp] theorem checked_eq_some : checked x = some y ↔ Fits x ∧ x = y := by
  unfold checked
  by_cases h : Fits x
  · simp [h]
  · simp [h]

@[simp] theorem isSome_checked : (checked x).isSome ↔ Fits x := by
  unfold checked
  by_cases h : Fits x
  · simp [h]
  · simp [h]

theorem checked_of_fits (h : Fits x) : checked x = some x := if_pos h

theorem checked_of_not (h : ¬Fits x) : checked x = none := if_neg h

end SignedWords
