import Sppc.ByteOrder

/-!
# Files in memory

A file that is mapped into memory, read at offsets from its start.  An offset wraps as an address does, and to read a
byte outside of the file is a fault.
-/

structure MappedFile where
  bytes : List UInt8

namespace MappedFile

variable {m : MappedFile} {o : ByteOrder} {off n : Nat}

def size (m : MappedFile) : Nat := m.bytes.length

/-- What stands at an offset, where there is something. -/
def byte (m : MappedFile) : Bytes := fun a => m.bytes.getD a 0

/-- The `n` bytes from an offset on are of the file. -/
def Inside (m : MappedFile) (off n : Nat) : Prop := off % 2 ^ 64 + n ≤ m.size

instance (m : MappedFile) (off n : Nat) : Decidable (m.Inside off n) := inferInstanceAs (Decidable (_ ≤ _))

/-- The number in the `n` bytes from an offset on. -/
def peek (m : MappedFile) (o : ByteOrder) (off n : Nat) : Nat := o.load m.byte (off % 2 ^ 64) n

/-- The same, or a fault. -/
def read (m : MappedFile) (o : ByteOrder) (off n : Nat) : Option Nat :=
  if m.Inside off n then some (m.peek o off n) else none

theorem inside_of_le (h : off + n ≤ m.size) : m.Inside off n :=
  le_trans (Nat.add_le_add_right (Nat.mod_le off _) n) h

theorem read_of_inside (h : m.Inside off n) : m.read o off n = some (m.peek o off n) := if_pos h

theorem peek_one (h : off < 2 ^ 64) : m.peek o off 1 = (m.byte off).toNat := by
  rw [peek, Nat.mod_eq_of_lt h]
  cases o <;> rfl

theorem drop_eq_cons (h : off < m.size) : m.bytes.drop off = m.byte off :: m.bytes.drop (off + 1) := by
  rw [byte, List.getD_eq_getElem _ _ h]
  exact List.drop_eq_getElem_cons h

theorem drop_eq_nil (h : m.size ≤ off) : m.bytes.drop off = [] := List.drop_eq_nil_of_le h

theorem map_byte_range (h : off + n ≤ m.size) :
    (List.range n).map (fun k => m.byte (off + k)) = (m.bytes.drop off).take n := by
  induction n generalizing off with
  | zero => rfl
  | succ n ih =>
    rw [drop_eq_cons (by omega), List.take_succ_cons, ← ih (by omega), List.range_succ_eq_map, List.map_cons,
      List.map_map]
    refine congrArg (m.byte off :: ·) (List.map_congr_left fun k _ => ?_)
    show m.byte (off + (k + 1)) = m.byte (off + 1 + k)
    rw [Nat.add_right_comm off 1 k, Nat.add_assoc]

end MappedFile
