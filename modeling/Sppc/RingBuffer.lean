import Mathlib.Data.Nat.ModEq
import Mathlib.Logic.Function.Basic

/-!
# Rings with free-running counters

A ring of `2 ^ b` cells between a producer and a consumer.  Each side has a counter of `w ≥ b` bits that only goes up
and wraps around; the cell a counter stands for is its last `b` bits, and the number of entries in the ring is the
difference of the counters.  `entries` is what the ring holds, oldest first.
-/

namespace RingBuffer

variable {α : Type*} {w b head tail k n : Nat} {cells : Nat → α}

/-- The number of entries from `head` to `tail`. -/
def count (w tail head : Nat) : Nat := (tail + 2 ^ w - head) % 2 ^ w

/-- The cell of the counter `i`. -/
def place (b i : Nat) : Nat := i &&& (2 ^ b - 1)

/-- What the ring holds. -/
def entries (w b : Nat) (cells : Nat → α) (head tail : Nat) : List α :=
  (List.range (count w tail head)).map fun k => cells (place b ((head + k) % 2 ^ w))

private theorem place_eq (b i : Nat) : place b i = i % 2 ^ b := Nat.and_two_pow_sub_one_eq_mod i b

@[simp] theorem count_self (w head : Nat) : count w head head = 0 := by
  rw [count, Nat.add_sub_cancel_left, Nat.mod_self]

@[simp] theorem entries_self : entries w b cells head head = [] := by
  rw [entries, count_self]
  rfl

/-- Counting on from `head` leads to `tail`. -/
private theorem add_count (hh : head < 2 ^ w) (ht : tail < 2 ^ w) : (head + count w tail head) % 2 ^ w = tail := by
  rw [count, Nat.add_mod_mod, show head + (tail + 2 ^ w - head) = tail + 2 ^ w by omega, Nat.add_mod_right,
    Nat.mod_eq_of_lt ht]

theorem count_succ (hh : head < 2 ^ w) (ht : tail < 2 ^ w) (hroom : count w tail head + 1 < 2 ^ w) :
    count w ((tail + 1) % 2 ^ w) head = count w tail head + 1 := by
  unfold count at hroom ⊢
  rcases Nat.lt_or_ge tail head with hlt | hge
  · rw [Nat.mod_eq_of_lt (a := tail + 2 ^ w - head) (by omega)] at hroom ⊢
    rw [Nat.mod_eq_of_lt (a := tail + 1) (by omega)]
    rw [show tail + 1 + 2 ^ w - head = tail + 2 ^ w - head + 1 by omega, Nat.mod_eq_of_lt hroom]
  · rw [show tail + 2 ^ w - head = tail - head + 2 ^ w by omega, Nat.add_mod_right,
      Nat.mod_eq_of_lt (a := tail - head) (by omega)] at hroom ⊢
    by_cases hwrap : tail + 1 = 2 ^ w
    · rw [hwrap, Nat.mod_self, Nat.mod_eq_of_lt (by omega)]
      omega
    · rw [Nat.mod_eq_of_lt (a := tail + 1) (by omega),
        show tail + 1 + 2 ^ w - head = tail - head + 1 + 2 ^ w by omega, Nat.add_mod_right, Nat.mod_eq_of_lt hroom]

/-- Entries less than a ring's length apart are in different cells. -/
theorem place_ne (hb : b ≤ w) (hkn : k < n) (hn : n ≤ 2 ^ b - 1) :
    place b ((head + k) % 2 ^ w) ≠ place b ((head + n) % 2 ^ w) := by
  intro heq
  have hdvd : 2 ^ b ∣ 2 ^ w := Nat.pow_dvd_pow 2 hb
  rw [place_eq, place_eq, Nat.mod_mod_of_dvd _ hdvd, Nat.mod_mod_of_dvd _ hdvd] at heq
  have hmod : k ≡ n [MOD 2 ^ b] := Nat.ModEq.add_left_cancel' head heq
  have := hmod.eq_of_lt_of_lt (by omega) (by omega)
  omega

/-- Two counters that have gone on from one start differ by what one has gone on more. -/
theorem count_of_le {s m : Nat} (hnm : n ≤ m) (hlt : m - n < 2 ^ w) :
    count w ((s + m) % 2 ^ w) ((s + n) % 2 ^ w) = m - n := by
  have hh : (s + n) % 2 ^ w < 2 ^ w := Nat.mod_lt _ (Nat.two_pow_pos w)
  have ht : (s + m) % 2 ^ w < 2 ^ w := Nat.mod_lt _ (Nat.two_pow_pos w)
  have hcount : count w ((s + m) % 2 ^ w) ((s + n) % 2 ^ w) < 2 ^ w := Nat.mod_lt _ (Nat.two_pow_pos w)
  have hadd := add_count hh ht
  rw [Nat.mod_add_mod] at hadd
  have hmod : s + n + count w ((s + m) % 2 ^ w) ((s + n) % 2 ^ w) ≡ s + n + (m - n) [MOD 2 ^ w] := by
    rw [Nat.ModEq, hadd, show s + n + (m - n) = s + m by omega]
  exact (Nat.ModEq.add_left_cancel' (s + n) hmod).eq_of_lt_of_lt hcount hlt

/-- They are equal only where neither has gone on more. -/
theorem counter_inj {s m : Nat} (hnm : n ≤ m) (hlt : m - n < 2 ^ w) :
    (s + n) % 2 ^ w = (s + m) % 2 ^ w ↔ n = m := by
  constructor
  · intro heq
    have hcount := count_of_le (s := s) hnm hlt
    rw [← heq, count_self] at hcount
    omega
  · intro heq
    rw [heq]

/-- Where the ring has room, a new entry goes behind the others. -/
theorem entries_push (hb : b < w) (hh : head < 2 ^ w) (ht : tail < 2 ^ w) (hroom : count w tail head < 2 ^ b)
    (x : α) : entries w b (Function.update cells (place b tail) x) head ((tail + 1) % 2 ^ w) =
      entries w b cells head tail ++ [x] := by
  have hpow : 2 ^ b < 2 ^ w := Nat.pow_lt_pow_right (by omega) hb
  rw [entries, entries, count_succ hh ht (by omega), List.range_succ, List.map_append]
  congr 1
  · refine List.map_congr_left fun k hk => ?_
    have hne : place b ((head + k) % 2 ^ w) ≠ place b ((head + count w tail head) % 2 ^ w) :=
      place_ne (Nat.le_of_lt hb) (List.mem_range.1 hk) (by omega)
    rw [add_count hh ht] at hne
    exact Function.update_of_ne hne ..
  · rw [List.map_singleton, add_count hh ht, Function.update_self]

end RingBuffer
