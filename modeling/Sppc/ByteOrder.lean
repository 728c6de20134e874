import Sppc.Bytes

/-!
# Words in either byte order

A word of `n` bytes read from a memory of bytes, its lowest byte first or last, and where in the memory one of its
bits is.
-/

/-- Which byte of a word comes first. -/
inductive ByteOrder
  | little | big
  deriving DecidableEq, Repr

namespace ByteOrder

variable {m m' : Bytes} {a n : Nat}

/-- The number in `n` bytes from `a`, the highest byte first. -/
def loadBig (m : Bytes) (a : Nat) : Nat → Nat
  | 0 => 0
  | n + 1 => (m (a + n)).toNat + 256 * loadBig m a n

/-- The word of `n` bytes at `a`. -/
def load (o : ByteOrder) (m : Bytes) (a n : Nat) : Nat :=
  match o with
  | .little => Bytes.loadBytes m a n
  | .big => loadBig m a n

/-- Where the byte of weight `256 ^ k` is in a word of `n` bytes. -/
def place (o : ByteOrder) (n k : Nat) : Nat :=
  match o with
  | .little => k
  | .big => n - 1 - k

theorem place_lt (o : ByteOrder) {n k : Nat} (h : k < n) : o.place n k < n := by
  cases o with
  | little => exact h
  | big =>
    rw [place]
    omega

theorem place_place (o : ByteOrder) {n k : Nat} (h : k < n) : o.place n (o.place n k) = k := by
  cases o with
  | little => rfl
  | big =>
    rw [place, place]
    omega

/-- A byte below a number of whole bytes. -/
private theorem testBit_byte (b : UInt8) (x i : Nat) :
    (b.toNat + 256 * x).testBit i = if i < 8 then b.toNat.testBit i else x.testBit (i - 8) := by
  rw [Nat.add_comm]
  exact Nat.testBit_two_pow_mul_add x b.toNat_lt i

private theorem testBit_loadBytes {i : Nat} (h : i < 8 * n) :
    (Bytes.loadBytes m a n).testBit i = (m (a + i / 8)).toNat.testBit (i % 8) := by
  induction n generalizing a i with
  | zero => omega
  | succ n ih =>
    rw [Bytes.loadBytes, testBit_byte]
    by_cases hi : i < 8
    · rw [if_pos hi, Nat.div_eq_of_lt hi, Nat.mod_eq_of_lt hi]
      rfl
    · have hplace : a + 1 + (i - 8) / 8 = a + i / 8 := by omega
      have hbit : (i - 8) % 8 = i % 8 := by omega
      rw [if_neg hi, ih (by omega), hplace, hbit]

private theorem testBit_loadBig {i : Nat} (h : i < 8 * n) :
    (loadBig m a n).testBit i = (m (a + (n - 1 - i / 8))).toNat.testBit (i % 8) := by
  induction n generalizing i with
  | zero => omega
  | succ n ih =>
    rw [loadBig, testBit_byte]
    by_cases hi : i < 8
    · rw [if_pos hi, Nat.div_eq_of_lt hi, Nat.mod_eq_of_lt hi]
      rfl
    · have hplace : n - 1 - (i - 8) / 8 = n + 1 - 1 - i / 8 := by omega
      have hbit : (i - 8) % 8 = i % 8 := by omega
      rw [if_neg hi, ih (by omega), hplace, hbit]

/-- Bit `i` of a word is bit `i % 8` of its byte of weight `256 ^ (i / 8)`. -/
theorem testBit_load (o : ByteOrder) {i : Nat} (h : i < 8 * n) :
    (o.load m a n).testBit i = (m (a + o.place n (i / 8))).toNat.testBit (i % 8) := by
  cases o with
  | little => exact testBit_loadBytes h
  | big => exact testBit_loadBig h

private theorem loadBig_lt (m : Bytes) (a n : Nat) : loadBig m a n < 256 ^ n := by
  induction n with
  | zero => exact Nat.one_pos
  | succ n ih =>
    have := (m (a + n)).toNat_lt
    rw [loadBig, Nat.pow_succ]
    omega

theorem load_lt (o : ByteOrder) (m : Bytes) (a n : Nat) : o.load m a n < 256 ^ n := by
  cases o with
  | little => exact Bytes.loadBytes_lt m a n
  | big => exact loadBig_lt m a n

end ByteOrder
