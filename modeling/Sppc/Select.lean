import Sppc.ByteOrder
import Mathlib.Data.BitVec

/-!
# Descriptor sets (`platform/posix.h`)

`_sppc_fd_sets_to_os` and `sppc_select`.  A set is 128 bytes, which sppc reads as words of 64 bits and the platform as
`long`s, each in the byte order of the machine.
-/

namespace Sppc

/-- `sppc_fd_set`. -/
structure FdSet where
  bits : Vector (BitVec 64) 16
  deriving DecidableEq, Repr

/-- Descriptor `n`, as sppc numbers them. -/
def FdSet.has (set : FdSet) (n : Fin 1024) : Bool := (set.bits.get ⟨n / 64, by omega⟩).getLsbD (n % 64)

/-- What the bytes of a set depend on. -/
structure Target where
  order : ByteOrder
  /-- Whether a `long` has 64 bits, or 32. -/
  long64 : Bool
  deriving DecidableEq, Repr

/-- `sizeof(long)`. -/
def Target.longBytes (t : Target) : Nat := if t.long64 then 8 else 4

/-- The bytes of a set. -/
def FdSet.bytes (o : ByteOrder) (set : FdSet) : Bytes := fun a =>
  UInt8.ofNat ((set.bits[a / 8]?.getD 0).toNat / 256 ^ o.place 8 (a % 8))

/-- The set in some bytes. -/
def FdSet.ofBytes (o : ByteOrder) (m : Bytes) : FdSet :=
  ⟨Vector.ofFn fun i => BitVec.ofNat 64 (o.load m (8 * i) 8)⟩

/-- Descriptor `n` in these bytes, as the platform numbers them. -/
def osHas (t : Target) (m : Bytes) (n : Nat) : Bool :=
  (t.order.load m (t.longBytes * (n / (8 * t.longBytes))) t.longBytes).testBit (n % (8 * t.longBytes))

/-- The two halves of a word, the other way round. -/
def swapHalves (w : BitVec 64) : BitVec 64 := w <<< 32 ||| w >>> 32

/-- The three sets of a call, each of which may be `NULL`. -/
abbrev FdSets := Fin 3 → Option FdSet

/-- `_sppc_fd_sets_to_os`. -/
def sppcFdSetsToOs (t : Target) (sets : FdSets) : FdSets :=
  if t.order = .big ∧ ¬t.long64 then fun s => (sets s).map fun set => ⟨set.bits.map swapHalves⟩
  else sets

/-! ### `sppc_select` -/

/-- `sppc_timeval`. -/
structure Timeval where
  sec : BitVec 64
  usec : BitVec 64
  deriving DecidableEq, Repr

/-- `struct timeval`. -/
structure OsTimeval where
  tvSec : Int
  tvUsec : Int
  deriving DecidableEq, Repr

/-- `_sppc_to_os_timeval`, where a `time_t` has `timeBits` bits: `none` is `SPPC_EINVAL`. -/
def sppcToOsTimeval (timeBits : Nat) (tv : Timeval) : Option OsTimeval :=
  if 1000000 ≤ tv.usec.toNat ∨ 2 ^ 63 - 1 < tv.sec.toNat then none
  else some ⟨(BitVec.ofNat timeBits tv.sec.toNat).toInt, tv.usec.toNat⟩

/-- `_sppc_from_os_timeval`. -/
def sppcFromOsTimeval (tv : OsTimeval) : Timeval :=
  if tv.tvSec < 0 then ⟨0, 0⟩ else ⟨BitVec.ofInt 64 tv.tvSec, BitVec.ofInt 64 tv.tvUsec⟩

/-- What the platform's `select` leaves: its `errno` or its count, the bytes of the sets that were not `NULL`, and the
time. -/
structure OsSelected where
  result : Except Nat Nat
  sets : Fin 3 → Bytes
  timeout : OsTimeval

/-- The platform's `select`. -/
abbrev OsSelect := Int → (Fin 3 → Option Bytes) → Option OsTimeval → OsSelected

/-- How a select fails. -/
inductive SelectErr
  | EINVAL
  | os (e : Nat)
  deriving DecidableEq, Repr

/-- What `sppc_select` leaves: its error, `*out_n`, the sets and the time. -/
structure SelectReturn where
  err : Option SelectErr
  outN : Int
  sets : FdSets
  timeout : Option Timeval

/-- `_sret_normalised_store` and `_return_normalized_err`. -/
def OsSelected.err (left : OsSelected) : Option SelectErr :=
  match left.result with
  | .error e => some (.os e)
  | .ok _ => none

def OsSelected.outN (left : OsSelected) : Int :=
  match left.result with
  | .error _ => -1
  | .ok n => n

/-- The sets as the platform's `select` gets them. -/
def osSets (t : Target) (sets : FdSets) : Fin 3 → Option Bytes :=
  fun s => (sppcFdSetsToOs t sets s).map (FdSet.bytes t.order)

/-- The memory of the sets after the platform's `select`. -/
def OsSelected.fdSets (t : Target) (sets : FdSets) (left : OsSelected) : FdSets :=
  fun s => (sets s).map fun _ => FdSet.ofBytes t.order (left.sets s)

/-- The checks of `sppc_select`: the time as the platform's, if it goes on. -/
def selectAccepted (timeBits : Nat) (nfds : Int) (timeout : Option Timeval) : Option (Option OsTimeval) :=
  if nfds < 0 ∨ 1024 < nfds then none
  else
    match timeout with
    | none => some none
    | some tv => (sppcToOsTimeval timeBits tv).map some

/-- `sppc_select`. -/
def sppcSelect (t : Target) (timeBits : Nat) (select : OsSelect) (nfds : Int) (sets : FdSets)
    (timeout : Option Timeval) : SelectReturn :=
  match selectAccepted timeBits nfds timeout with
  | none => ⟨some .EINVAL, -1, sets, timeout⟩
  | some tv =>
    let left := select nfds (osSets t sets) tv
    -- the same swap back
    ⟨left.err, left.outN, sppcFdSetsToOs t (left.fdSets t (sppcFdSetsToOs t sets)),
      timeout.map fun _ => sppcFromOsTimeval left.timeout⟩

/-! ### The swap -/

variable {t : Target} {o : ByteOrder} {set : FdSet}

private theorem getLsbD_swapHalves (w : BitVec 64) {n : Nat} (h : n < 64) :
    (swapHalves w).getLsbD n = w.getLsbD (if n < 32 then n + 32 else n - 32) := by
  rw [swapHalves, BitVec.getLsbD_or, BitVec.getLsbD_shiftLeft, BitVec.getLsbD_ushiftRight]
  by_cases hn : n < 32
  · simp [hn, h, Nat.add_comm]
  · have hhigh : w.getLsbD (32 + n) = false := by
      apply BitVec.getLsbD_of_ge
      omega
    simp [hn, h, hhigh]

private theorem swapHalves_swapHalves (w : BitVec 64) : swapHalves (swapHalves w) = w := by
  apply BitVec.eq_of_getLsbD_eq
  intro n hn
  rw [getLsbD_swapHalves _ hn]
  by_cases hlow : n < 32
  · rw [if_pos hlow, getLsbD_swapHalves _ (by omega), if_neg (by omega), Nat.add_sub_cancel]
  · rw [if_neg hlow, getLsbD_swapHalves _ (by omega), if_pos (by omega), Nat.sub_add_cancel (by omega)]

/-- The set with its words' halves the other way round. -/
def FdSet.swapped (set : FdSet) : FdSet := ⟨set.bits.map swapHalves⟩

/-- What `_sppc_fd_sets_to_os` does to one set. -/
def FdSet.toOs (t : Target) (set : FdSet) : FdSet := if t.order = .big ∧ ¬t.long64 then set.swapped else set

private theorem sppcFdSetsToOs_apply (t : Target) (sets : FdSets) (s : Fin 3) :
    sppcFdSetsToOs t sets s = (sets s).map (FdSet.toOs t) := by
  rw [sppcFdSetsToOs, funext (FdSet.toOs.eq_1 t)]
  split
  · rfl
  · exact (Option.map_id' ..).symm

private theorem FdSet.swapped_swapped (set : FdSet) : set.swapped.swapped = set := by
  have hid : swapHalves ∘ swapHalves = id := funext swapHalves_swapHalves
  rw [FdSet.swapped, FdSet.swapped, Vector.map_map, hid, Vector.map_id]

private theorem FdSet.toOs_toOs (t : Target) (set : FdSet) : (set.toOs t).toOs t = set := by
  unfold FdSet.toOs
  split
  · exact set.swapped_swapped
  · rfl

private theorem sppcFdSetsToOs_sppcFdSetsToOs (t : Target) (sets : FdSets) :
    sppcFdSetsToOs t (sppcFdSetsToOs t sets) = sets := by
  funext s
  have hid : FdSet.toOs t ∘ FdSet.toOs t = id := funext (FdSet.toOs_toOs t)
  rw [sppcFdSetsToOs_apply, sppcFdSetsToOs_apply, Option.map_map, hid, Option.map_id, id]

private theorem FdSet.has_swapped (set : FdSet) (n : Fin 1024) :
    set.swapped.has n = (set.bits.get ⟨n / 64, by omega⟩).getLsbD
      (if n.val % 64 < 32 then n % 64 + 32 else n % 64 - 32) := by
  have hword : set.swapped.bits.get ⟨n / 64, by omega⟩ = swapHalves (set.bits.get ⟨n / 64, by omega⟩) :=
    Vector.getElem_map swapHalves (by omega)
  rw [FdSet.has, hword, getLsbD_swapHalves _ (by omega)]

/-! ### The bytes -/

/-- The byte of a word that a bit is in. -/
private theorem FdSet.ofBytes_word (o : ByteOrder) (m : Bytes) (i : Fin 16) {k : Nat} (h : k < 64) :
    ((FdSet.ofBytes o m).bits.get i).getLsbD k = (m (8 * i + o.place 8 (k / 8))).toNat.testBit (k % 8) := by
  have hword : (FdSet.ofBytes o m).bits.get i = BitVec.ofNat 64 (o.load m (8 * i) 8) := Vector.getElem_ofFn i.isLt
  rw [hword, BitVec.getLsbD_ofNat, ByteOrder.testBit_load o (by omega)]
  simp [h]

/-- Words are read from their bytes as they were. -/
private theorem FdSet.ofBytes_bytes (o : ByteOrder) (set : FdSet) : FdSet.ofBytes o (set.bytes o) = set := by
  have hword : ∀ i : Fin 16, (FdSet.ofBytes o (set.bytes o)).bits.get i = set.bits.get i := by
    intro i
    apply BitVec.eq_of_getLsbD_eq
    intro k hk
    have hplace : o.place 8 (k / 8) < 8 := o.place_lt (by omega)
    have hdiv : (8 * i.val + o.place 8 (k / 8)) / 8 = i := by omega
    have hmod : (8 * i.val + o.place 8 (k / 8)) % 8 = o.place 8 (k / 8) := by omega
    have hbits : set.bits[i.val]? = some (set.bits.get i) := Vector.getElem?_eq_getElem i.isLt
    rw [FdSet.ofBytes_word o _ i hk, FdSet.bytes, hdiv, hmod, hbits, ByteOrder.place_place o (by omega),
      Option.getD_some, UInt8.toNat_ofNat', BitVec.getLsbD]
    have hpow : (256 : Nat) ^ (k / 8) = 2 ^ (8 * (k / 8)) := by rw [Nat.pow_mul]
    rw [hpow, Nat.testBit_mod_two_pow, Nat.testBit_div_two_pow, Nat.mod_add_div]
    simp [Nat.mod_lt]
  have hbits : (FdSet.ofBytes o (set.bytes o)).bits = set.bits := by
    apply Vector.ext
    intro i hi
    exact hword ⟨i, hi⟩
  cases set
  exact congrArg FdSet.mk hbits

/-- Where the platform's bit of a descriptor is. -/
private theorem osHas_eq (t : Target) (m : Bytes) (n : Nat) : osHas t m n =
    (m (t.longBytes * (n / (8 * t.longBytes)) + t.order.place t.longBytes (n % (8 * t.longBytes) / 8))).toNat.testBit
      (n % 8) := by
  have hpos : 0 < t.longBytes := by
    unfold Target.longBytes
    split <;> decide
  have hbit : n % (8 * t.longBytes) % 8 = n % 8 := Nat.mod_mul_right_mod n 8 t.longBytes
  rw [osHas, ByteOrder.testBit_load t.order (Nat.mod_lt n (by omega)), hbit]

private theorem testBit_congr (m : Bytes) {a b i j : Nat} (ha : a = b) (hi : i = j) :
    (m a).toNat.testBit i = (m b).toNat.testBit j := by
  rw [ha, hi]

/-- The platform's bit of a descriptor is sppc's, once the halves are where they belong. -/
private theorem osHas_eq_has (t : Target) (m : Bytes) (n : Fin 1024) :
    osHas t m n = ((FdSet.ofBytes t.order m).toOs t).has n := by
  obtain ⟨order, long64⟩ := t
  have hn := n.isLt
  have hbit : n.val % 8 = n.val % 64 % 8 := by omega
  rw [osHas_eq, FdSet.toOs]
  cases order with
  | little =>
    rw [if_neg (fun h => nomatch h.1), FdSet.has, FdSet.ofBytes_word _ _ _ (by omega)]
    cases long64 with
    | true =>
      have hplace : 8 * (n.val / (8 * 8)) + n.val % (8 * 8) / 8 = 8 * (n.val / 64) + n.val % 64 / 8 := by omega
      exact testBit_congr m hplace hbit
    | false =>
      have hplace : 4 * (n.val / (8 * 4)) + n.val % (8 * 4) / 8 = 8 * (n.val / 64) + n.val % 64 / 8 := by omega
      exact testBit_congr m hplace hbit
  | big =>
    cases long64 with
    | true =>
      have hplace : 8 * (n.val / (8 * 8)) + (8 - 1 - n.val % (8 * 8) / 8) =
          8 * (n.val / 64) + (8 - 1 - n.val % 64 / 8) := by omega
      rw [if_neg (by decide), FdSet.has, FdSet.ofBytes_word _ _ _ (by omega)]
      exact testBit_congr m hplace hbit
    | false =>
      -- the one case with a swap: the `long` of the low half comes second
      rw [if_pos (by decide), FdSet.has_swapped]
      by_cases hlow : n.val % 64 < 32
      · have hplace : 4 * (n.val / (8 * 4)) + (4 - 1 - n.val % (8 * 4) / 8) =
            8 * (n.val / 64) + (8 - 1 - (n.val % 64 + 32) / 8) := by omega
        rw [if_pos hlow, FdSet.ofBytes_word _ _ _ (by omega)]
        exact testBit_congr m hplace (by omega)
      · have hplace : 4 * (n.val / (8 * 4)) + (4 - 1 - n.val % (8 * 4) / 8) =
            8 * (n.val / 64) + (8 - 1 - (n.val % 64 - 32) / 8) := by omega
        rw [if_neg hlow, FdSet.ofBytes_word _ _ _ (by omega)]
        exact testBit_congr m hplace (by omega)

/-! ### Through a select -/

/-- The sets hold the descriptors that the platform left in their memory. -/
def InSppcForm (t : Target) (left : Fin 3 → Bytes) (before after : FdSets) : Prop :=
  ∀ s, (before s = none ∧ after s = none) ∨
    ∃ set, (before s).isSome ∧ after s = some set ∧ ∀ n : Fin 1024, set.has n = osHas t (left s) n

private theorem sppcSelect_sets (t : Target) (timeBits : Nat) (select : OsSelect) (nfds : Int) (sets : FdSets)
    {timeout : Option Timeval} {tv : Option OsTimeval} (h : selectAccepted timeBits nfds timeout = some tv)
    (s : Fin 3) : (sppcSelect t timeBits select nfds sets timeout).sets s =
      (sets s).map fun _ => (FdSet.ofBytes t.order ((select nfds (osSets t sets) tv).sets s)).toOs t := by
  rw [sppcSelect, h]
  dsimp only
  rw [sppcFdSetsToOs_apply, OsSelected.fdSets, Option.map_map, sppcFdSetsToOs_apply, Option.map_map]
  rfl

/-- The platform gets every set with the descriptors that are in it, and leaves sets with those that it left. -/
theorem sppcSelect_numbering (t : Target) (timeBits : Nat) (select : OsSelect) (nfds : Int) (sets : FdSets)
    (timeout : Option Timeval) : (∀ s set, sets s = some set →
      ∃ os, sppcFdSetsToOs t sets s = some os ∧ ∀ n : Fin 1024, osHas t (os.bytes t.order) n = set.has n) ∧
    sppcFdSetsToOs t (sppcFdSetsToOs t sets) = sets ∧
    (selectAccepted timeBits nfds timeout = none → (sppcSelect t timeBits select nfds sets timeout).sets = sets) ∧
    ∀ tv, selectAccepted timeBits nfds timeout = some tv →
      InSppcForm t (select nfds (osSets t sets) tv).sets sets
      (sppcSelect t timeBits select nfds sets timeout).sets := by
  refine ⟨?_, sppcFdSetsToOs_sppcFdSetsToOs t sets, ?_, ?_⟩
  · intro s set hset
    refine ⟨set.toOs t, ?_, ?_⟩
    · rw [sppcFdSetsToOs_apply, hset, Option.map_some]
    · intro n
      rw [osHas_eq_has, FdSet.ofBytes_bytes, FdSet.toOs_toOs]
  · intro hrefused
    rw [sppcSelect, hrefused]
  · intro tv haccepted s
    have hafter := sppcSelect_sets t timeBits select nfds sets haccepted s
    cases hset : sets s with
    | none =>
      rw [hset] at hafter
      exact Or.inl ⟨rfl, hafter⟩
    | some set =>
      rw [hset] at hafter
      refine Or.inr ⟨_, rfl, hafter, ?_⟩
      intro n
      exact (osHas_eq_has t _ n).symm

end Sppc
