import Mathlib.Data.Nat.Bitwise
import Mathlib.Logic.Function.Basic

/-!
# Words in a memory of bytes

`loadBytes m a n` is the little-endian number in the `n` bytes from `a`, and `storeBytes m a v n` puts one there.
-/

/-- A byte at every address. -/
abbrev Bytes := Nat → UInt8

namespace Bytes

variable {m m' : Bytes} {a b n v : Nat}

/-- The number in `n` bytes from `a`, the lowest byte first. -/
def loadBytes (m : Bytes) (a : Nat) : Nat → Nat
  | 0 => 0
  | n + 1 => (m a).toNat + 256 * loadBytes m (a + 1) n

/-- Put `v` into `n` bytes from `a`, the lowest byte first. -/
def storeBytes (m : Bytes) (a v : Nat) : Nat → Bytes
  | 0 => m
  | n + 1 => Function.update (storeBytes m (a + 1) (v / 256) n) a (UInt8.ofNat v)

/-- Copy `n` bytes from `src` to `dst`, which do not overlap. -/
def copy (m : Bytes) (dst src n : Nat) : Bytes := fun x => if dst ≤ x ∧ x < dst + n then m (src + (x - dst)) else m x

/-- Set `n` bytes from `a` to 0. -/
def clear (m : Bytes) (a n : Nat) : Bytes := fun x => if a ≤ x ∧ x < a + n then 0 else m x

/-- Two memories have the same `n` bytes from `a`. -/
def Agree (m m' : Bytes) (a n : Nat) : Prop := ∀ x, a ≤ x → x < a + n → m' x = m x

theorem Agree.refl (m : Bytes) (a n : Nat) : Agree m m a n := fun _ _ _ => rfl

theorem Agree.trans {m'' : Bytes} (h : Agree m m' a n) (h' : Agree m' m'' a n) : Agree m m'' a n :=
  fun x hx hx' => (h' x hx hx').trans (h x hx hx')

theorem Agree.mono {k : Nat} (h : Agree m m' a n) (hb : a ≤ b) (hk : b + k ≤ a + n) : Agree m m' b k :=
  fun x hx hx' => h x (by omega) (by omega)

theorem loadBytes_congr (h : Agree m m' a n) : loadBytes m' a n = loadBytes m a n := by
  induction n generalizing a with
  | zero => rfl
  | succ n ih =>
    rw [loadBytes, loadBytes, h a (Nat.le_refl a) (by omega), ih (h.mono (by omega) (by omega))]

theorem storeBytes_of_lt {x : Nat} (h : x < a) : storeBytes m a v n x = m x := by
  induction n generalizing a v with
  | zero => rfl
  | succ n ih => rw [storeBytes, Function.update_of_ne (by omega), ih (by omega)]

theorem storeBytes_of_le {x : Nat} (h : a + n ≤ x) : storeBytes m a v n x = m x := by
  induction n generalizing a v with
  | zero => rfl
  | succ n ih => rw [storeBytes, Function.update_of_ne (by omega), ih (by omega)]

/-- A store leaves what is apart from it. -/
theorem agree_storeBytes {k : Nat} (h : a + n ≤ b ∨ b + k ≤ a) : Agree m (storeBytes m a v n) b k := by
  intro x hx hx'
  rcases h with h | h
  · exact storeBytes_of_le (by omega)
  · exact storeBytes_of_lt (by omega)

theorem agree_clear {k : Nat} (h : a + n ≤ b ∨ b + k ≤ a) : Agree m (clear m a n) b k := by
  intro x hx hx'
  exact if_neg (by omega)

theorem loadBytes_clear {k : Nat} (hlo : a ≤ b) (hhi : b + k ≤ a + n) : loadBytes (clear m a n) b k = 0 := by
  induction k generalizing b with
  | zero => rfl
  | succ k ih =>
    have hbyte : clear m a n b = 0 := if_pos ⟨hlo, by omega⟩
    rw [loadBytes, hbyte, ih (by omega) (by omega)]
    rfl

theorem copy_apply {dst src i : Nat} (h : i < n) : copy m dst src n (dst + i) = m (src + i) := by
  rw [copy, if_pos ⟨by omega, by omega⟩, Nat.add_sub_cancel_left]

/-- What has been stored is loaded. -/
theorem loadBytes_storeBytes (h : v < 256 ^ n) : loadBytes (storeBytes m a v n) a n = v := by
  induction n generalizing a v with
  | zero =>
    rw [Nat.pow_zero] at h
    rw [loadBytes]
    omega
  | succ n ih =>
    have hrest : Agree (storeBytes m (a + 1) (v / 256) n) (storeBytes m a v (n + 1)) (a + 1) n :=
      fun x hx _ => Function.update_of_ne (by omega) ..
    have hlt : v / 256 < 256 ^ n := Nat.div_lt_of_lt_mul (by rwa [Nat.pow_succ, Nat.mul_comm] at h)
    have hbyte : (storeBytes m a v (n + 1) a).toNat = v % 256 := by
      rw [storeBytes, Function.update_self, UInt8.toNat_ofNat']
    rw [loadBytes, loadBytes_congr hrest, ih hlt, hbyte]
    exact Nat.mod_add_div v 256

theorem loadBytes_lt (m : Bytes) (a n : Nat) : loadBytes m a n < 256 ^ n := by
  induction n generalizing a with
  | zero => exact Nat.one_pos
  | succ n ih =>
    have := ih (a + 1)
    have := (m a).toNat_lt
    rw [loadBytes, Nat.pow_succ]
    omega

/-! ### Several stores -/

/-- Stores at `base`: an offset, a length and a value each. -/
def storeAll (base : Nat) (m : Bytes) (ws : List (Nat × Nat × Nat)) : Bytes :=
  ws.foldl (fun m (off, len, value) => storeBytes m (base + off) value len) m

/-- A store does not overlap `len` bytes at `off`. -/
def StoreApart (w : Nat × Nat × Nat) (off len : Nat) : Prop := w.1 + w.2.1 ≤ off ∨ off + len ≤ w.1

instance (w : Nat × Nat × Nat) (off len : Nat) : Decidable (StoreApart w off len) := instDecidableOr

variable {base : Nat} {ws : List (Nat × Nat × Nat)}

theorem agree_storeAll {k : Nat} (h : ∀ w ∈ ws, base + w.1 + w.2.1 ≤ b ∨ b + k ≤ base + w.1) :
    Agree m (storeAll base m ws) b k := by
  induction ws generalizing m with
  | nil => exact Agree.refl _ _ _
  | cons w ws ih =>
    exact (agree_storeBytes (h w List.mem_cons_self)).trans (ih fun w' hw' => h w' (List.mem_cons_of_mem w hw'))

theorem loadBytes_storeAll (m : Bytes) (base : Nat) {w : Nat × Nat × Nat}
    (hapart : ws.Pairwise fun w w' => StoreApart w w'.1 w'.2.1) (hw : w ∈ ws)
    (hlt : ∀ w ∈ ws, w.2.2 < 256 ^ w.2.1) : loadBytes (storeAll base m ws) (base + w.1) w.2.1 = w.2.2 := by
  induction ws generalizing m with
  | nil => cases hw
  | cons w' ws ih =>
    obtain ⟨hhead, hrest⟩ := List.pairwise_cons.1 hapart
    rcases List.mem_cons.1 hw with rfl | hw
    · have hagree : Agree (storeBytes m (base + w.1) w.2.2 w.2.1)
          (storeAll base (storeBytes m (base + w.1) w.2.2 w.2.1) ws) (base + w.1) w.2.1 := by
        refine agree_storeAll fun w' hw' => ?_
        have := hhead w' hw'
        unfold StoreApart at this
        omega
      exact (loadBytes_congr hagree).trans (loadBytes_storeBytes (hlt w List.mem_cons_self))
    · exact ih _ hrest hw fun w hw => hlt w (List.mem_cons_of_mem w' hw)

/-! ### Alignment -/

theorem testBit_mask {k i : Nat} (hk : k ≤ 64) :
    (2 ^ 64 - 1 - (2 ^ k - 1)).testBit i = (decide (i < 64) && decide (k ≤ i)) := by
  have hpow : 2 ^ k ≤ 2 ^ 64 := Nat.pow_le_pow_right (by decide) hk
  have hpos : 0 < 2 ^ k := Nat.two_pow_pos k
  have hmul : 2 ^ 64 - 1 - (2 ^ k - 1) = 2 ^ k * (2 ^ (64 - k) - 1) := by
    rw [Nat.mul_sub, ← Nat.pow_add, Nat.add_sub_cancel' hk]
    omega
  rw [hmul, Nat.testBit_two_pow_mul, Nat.testBit_two_pow_sub_one]
  by_cases hi : k ≤ i
  · simp only [hi, decide_true, Bool.true_and, Bool.and_true]
    exact decide_eq_decide.2 (by omega)
  · simp [hi]

/-- The mask of an alignment rounds down to a multiple of it. -/
theorem and_mask {n k : Nat} (hn : n < 2 ^ 64) (hk : k ≤ 64) :
    n &&& (2 ^ 64 - 1 - (2 ^ k - 1)) = n / 2 ^ k * 2 ^ k := by
  refine Nat.eq_of_testBit_eq fun i => ?_
  rw [Nat.testBit_and, testBit_mask hk, Nat.mul_comm, Nat.testBit_two_pow_mul, Nat.testBit_div_two_pow]
  by_cases hi : k ≤ i
  · rw [Nat.sub_add_cancel hi]
    by_cases h64 : i < 64
    · simp [hi, h64]
    · have hlt : n.testBit i = false :=
        Nat.testBit_lt_two_pow (Nat.lt_of_lt_of_le hn (Nat.pow_le_pow_right (by decide) (Nat.not_lt.1 h64)))
      simp [hlt]
  · simp [hi]

end Bytes
