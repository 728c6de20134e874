import Mathlib.Algebra.Order.Ring.Nat
import Mathlib.Tactic.Linarith

/-!
# The layout of records

A size and an alignment, and how the rules of C lay the fields of a record out in their order: each at the first
multiple of its alignment that is free, and the record as aligned as the most aligned of them.
-/

structure Layout where
  size : Nat
  align : Nat
  deriving DecidableEq, Repr

namespace Layout

variable {l : Layout} {ls : List Layout} {n a : Nat}

/-- The first multiple of `a` from `n` on. -/
def roundUp (n a : Nat) : Nat := (n + a - 1) / a * a

/-- Where the fields start that are laid out from `free` on, and what is free after them. -/
def place : Nat → List Layout → List Nat × Nat
  | free, [] => ([], free)
  | free, l :: ls =>
    let start := roundUp free l.align
    let rest := place (start + l.size) ls
    (start :: rest.1, rest.2)

/-- The alignment of a record of these fields. -/
def alignOf (ls : List Layout) : Nat := (ls.map align).foldr max 1

/-- The offsets of the fields of a record, and its layout. -/
def ofFields (ls : List Layout) : List Nat × Layout :=
  let placed := place 0 ls
  (placed.1, ⟨roundUp placed.2 (alignOf ls), alignOf ls⟩)

/-- So many of the same one after the other. -/
def array (n : Nat) (l : Layout) : Layout := ⟨n * l.size, l.align⟩

private theorem roundUp_of_dvd (ha : 0 < a) (h : a ∣ n) : roundUp n a = n := by
  obtain ⟨k, rfl⟩ := h
  have hdiv : (a * k + a - 1) / a = k := by
    rw [Nat.add_sub_assoc ha, Nat.mul_add_div ha, Nat.div_eq_of_lt (Nat.sub_lt ha Nat.one_pos), Nat.add_zero]
  rw [roundUp, hdiv, Nat.mul_comm]

@[simp] theorem roundUp_zero (a : Nat) : roundUp 0 a = 0 := by
  rcases Nat.eq_zero_or_pos a with rfl | ha
  · rfl
  · exact roundUp_of_dvd ha (dvd_zero a)

/-- One field is at the start, and the record is its field where that is a whole number of its alignment. -/
theorem ofFields_singleton (ha : 0 < l.align) (h : l.align ∣ l.size) : ofFields [l] = ([0], l) := by
  have halign : alignOf [l] = l.align := by
    show max l.align 1 = l.align
    omega
  unfold ofFields
  rw [halign]
  simp only [place, roundUp_zero, Nat.zero_add, roundUp_of_dvd ha h]

end Layout
