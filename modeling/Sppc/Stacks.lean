import Mathlib.Logic.Function.Basic
import Sppc.Bytes

/-!
# The tasks' stacks

Each task has a stack of its own, and the slot that its stack pointer is saved in.
-/

namespace Sppc

open Bytes

/-- What an address is part of. -/
inductive Place (T : Type)
  | stack (t : T) | slot (t : T) | other
  deriving DecidableEq

/-- The stacks and the slots, which do not overlap, and end at addresses. -/
structure Layout (T : Type) (ptr : Nat) where
  lo : T → Nat
  hi : T → Nat
  slot : T → Nat
  place : Nat → Place T
  stack_iff : ∀ x t, place x = .stack t ↔ lo t ≤ x ∧ x < hi t
  slot_iff : ∀ x t, place x = .slot t ↔ slot t ≤ x ∧ x < slot t + ptr
  hi_lt : ∀ t, hi t < 256 ^ ptr
  slot_lt : ∀ t, slot t < 256 ^ ptr

/-- The memory after the task `t` has run: it writes to its own stack, and where there are no stacks and no slots. -/
def Layout.write {T : Type} [DecidableEq T] {ptr : Nat} (layout : Layout T ptr) (t : T) (mem noise : Bytes) : Bytes :=
  fun x => match layout.place x with
    | .stack u => if u = t then noise x else mem x
    | .slot _ => mem x
    | .other => noise x

section layout

variable {T : Type} {ptr : Nat} {layout : Layout T ptr} {t u : T} {x : Nat}

theorem Layout.stack_ne (h : t ≠ u) (hx : layout.lo t ≤ x ∧ x < layout.hi t) :
    ¬(layout.lo u ≤ x ∧ x < layout.hi u) := by
  intro hx'
  have ht := (layout.stack_iff x t).2 hx
  rw [(layout.stack_iff x u).2 hx'] at ht
  exact h (Place.stack.inj ht).symm

theorem Layout.stack_slot (hx : layout.lo t ≤ x ∧ x < layout.hi t) :
    ¬(layout.slot u ≤ x ∧ x < layout.slot u + ptr) := by
  intro hx'
  have ht := (layout.stack_iff x t).2 hx
  rw [(layout.slot_iff x u).2 hx'] at ht
  cases ht

theorem Layout.slot_ne (h : t ≠ u) (hx : layout.slot t ≤ x ∧ x < layout.slot t + ptr) :
    ¬(layout.slot u ≤ x ∧ x < layout.slot u + ptr) := by
  intro hx'
  have ht := (layout.slot_iff x t).2 hx
  rw [(layout.slot_iff x u).2 hx'] at ht
  exact h (Place.slot.inj ht).symm

/-- A block in a stack and a slot do not overlap. -/
theorem Layout.slot_apart {base n : Nat} (hptr : 0 < ptr) (hn : 0 < n) (hlo : layout.lo t ≤ base)
    (hhi : base + n ≤ layout.hi t) : layout.slot u + ptr ≤ base ∨ base + n ≤ layout.slot u := by
  by_contra hnot
  rw [not_or, Nat.not_le, Nat.not_le] at hnot
  rcases Nat.le_total base (layout.slot u) with hle | hle
  · exact layout.stack_slot (x := layout.slot u) (t := t) (u := u) (by omega) (by omega)
  · exact layout.stack_slot (x := base) (t := t) (u := u) (by omega) (by omega)

theorem Layout.write_stack [DecidableEq T] {mem noise : Bytes} (h : t ≠ u) (hx : layout.lo t ≤ x ∧ x < layout.hi t) :
    layout.write u mem noise x = mem x := by
  unfold Layout.write
  rw [(layout.stack_iff x t).2 hx]
  exact if_neg h

theorem Layout.write_slot [DecidableEq T] {mem noise : Bytes} (hx : layout.slot t ≤ x ∧ x < layout.slot t + ptr) :
    layout.write u mem noise x = mem x := by
  unfold Layout.write
  rw [(layout.slot_iff x t).2 hx]

end layout

/-- Two stacks and the slots. -/
def twoStacks : Layout Bool 8 where
  lo t := if t then 8192 else 4096
  hi t := if t then 12288 else 8192
  slot t := if t then 16 else 8
  place x :=
    if 4096 ≤ x ∧ x < 8192 then .stack false
    else if 8192 ≤ x ∧ x < 12288 then .stack true
    else if 8 ≤ x ∧ x < 16 then .slot false
    else if 16 ≤ x ∧ x < 24 then .slot true
    else .other
  stack_iff x t := by
    cases t <;> grind
  slot_iff x t := by
    cases t <;> grind
  hi_lt t := by
    cases t <;> decide
  slot_lt t := by
    cases t <;> decide

end Sppc
