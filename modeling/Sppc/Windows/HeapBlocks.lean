import Sppc.Transition
import Sppc.Windows.Heap

/-!
# The blocks of the heap on Windows

Each block that a caller has sits in one of the C library's, which its header names, and is handed back once.
-/

namespace Sppc.Windows

open Transition Bytes

namespace Heap

/-! ### Blocks in the C library's -/

/-- The C library's block that a caller's is in, and the header. -/
structure Holds (mem : Bytes) (b : HeapBlock) (r : RawBlock) : Prop where
  pos : 0 < r.addr
  top : r.addr + r.len < 2 ^ 64
  lo : r.addr + 16 ≤ b.ptr
  hi : b.ptr + b.size ≤ r.addr + r.len
  raw : loadBytes mem (b.ptr - 16) 8 = r.addr
  size : loadBytes mem (b.ptr - 8) 8 = b.size
  align : b.align ∣ b.ptr
  plain : 16 ∣ b.ptr

/-- Two of the C library's blocks do not overlap. -/
def Apart (r r' : RawBlock) : Prop := r.addr + r.len ≤ r'.addr ∨ r'.addr + r'.len ≤ r.addr

/-- The callers' blocks with the C library's, each of which is one's, has not been handed back, and was given once. -/
structure Held (s : Heap) (ps : List (HeapBlock × RawBlock)) : Prop where
  raws : s.raws.Perm (ps.map Prod.snd)
  holds : ∀ p ∈ ps, Holds s.mem p.1 p.2
  apart : ps.Pairwise fun p q => Apart p.2 q.2
  once : (s.back ++ s.raws.map RawBlock.id).Perm (List.range s.given)
  fault : s.fault = false

/-- The bytes of the C library's blocks stay as they are. -/
def Kept (ps : List (HeapBlock × RawBlock)) (s s' : Heap) : Prop := ∀ p ∈ ps, Agree s.mem s'.mem p.2.addr p.2.len

variable {s s' : Heap} {ps ps' : List (HeapBlock × RawBlock)} {p : HeapBlock × RawBlock}
  {mem mem' noise noise' : Bytes} {b : HeapBlock} {r r' : RawBlock} {answer : Option Nat}
  {addr len size align ptr k : Nat} {x : Nat × Heap}

theorem Apart.symm (h : Apart r r') : Apart r' r := Or.symm h

theorem Kept.refl (ps : List (HeapBlock × RawBlock)) (s : Heap) : Kept ps s s := fun _ _ => Agree.refl _ _ _

theorem Kept.trans {s'' : Heap} (h : Kept ps s s') (h' : Kept ps s' s'') : Kept ps s s'' :=
  fun p hp => (h p hp).trans (h' p hp)

private theorem Kept.of_cons (h : Kept (p :: ps) s s') : Kept ps s s' := fun q hq => h q (List.mem_cons_of_mem p hq)

/-- The header stays as it is. -/
private theorem Holds.of_head (h : Holds mem b r) (hb : Agree mem mem' (b.ptr - 16) 16) : Holds mem' b r :=
  have hlo := h.lo
  { h with
    raw := by rw [loadBytes_congr (hb.mono (by omega) (by omega)), h.raw]
    size := by rw [loadBytes_congr (hb.mono (by omega) (by omega)), h.size] }

private theorem Holds.congr (h : Holds mem b r) (hr : Agree mem mem' r.addr r.len) : Holds mem' b r := by
  have := h.lo
  have := h.hi
  exact h.of_head (hr.mono (by omega) (by omega))

private theorem Held.perm (h : Held s ps) (hp : ps.Perm ps') : Held s ps' where
  raws := h.raws.trans (hp.map _)
  holds q hq := h.holds q (hp.mem_iff.2 hq)
  apart := (hp.pairwise_iff Apart.symm).1 h.apart
  once := h.once
  fault := h.fault

/-- The memory changes, but not in the C library's blocks. -/
private theorem Held.congr (h : Held s ps) (hkept : Kept ps s s') (hraws : s'.raws = s.raws)
    (hback : s'.back = s.back) (hgiven : s'.given = s.given) (hfault : s'.fault = s.fault) : Held s' ps where
  raws := by
    rw [hraws]
    exact h.raws
  holds p hp := (h.holds p hp).congr (hkept p hp)
  apart := h.apart
  once := by
    rw [hback, hraws, hgiven]
    exact h.once
  fault := hfault.trans h.fault

theorem Held.mem_raws (h : Held s ps) (hp : p ∈ ps) : p.2 ∈ s.raws := h.raws.mem_iff.2 (List.mem_map_of_mem hp)

private theorem Held.scribble_kept (h : Held s ps) (noise : Bytes) : Kept ps s (s.scribble noise) :=
  fun _ hp _ hx hx' => if_pos ⟨_, h.mem_raws hp, hx, hx'⟩

private theorem Held.scribble (h : Held s ps) (noise : Bytes) : Held (s.scribble noise) ps :=
  h.congr (h.scribble_kept noise) rfl rfl rfl rfl

/-- Bytes of a caller's block are written. -/
theorem Held.write (h : Held s (p :: ps)) (mem' : Bytes) (hmem : ∀ x, ¬(p.1.ptr ≤ x ∧ x < p.1.ptr + p.1.size) →
    mem' x = s.mem x) : Held { s with mem := mem' } (p :: ps) ∧ Kept ps s { s with mem := mem' } := by
  have hp := h.holds p List.mem_cons_self
  have := hp.lo
  have := hp.hi
  have hkept : Kept ps s { s with mem := mem' } := by
    intro q hq x hx hx'
    have hapart := (List.pairwise_cons.1 h.apart).1 q hq
    unfold Apart at hapart
    exact hmem x (by omega)
  refine ⟨⟨h.raws, fun q hq => ?_, h.apart, h.once, h.fault⟩, hkept⟩
  rcases List.mem_cons.1 hq with rfl | hq
  · exact hp.of_head fun x hx hx' => hmem x (by omega)
  · exact (h.holds q (List.mem_cons_of_mem p hq)).congr (hkept q hq)

/-- The block at an address is found. -/
private theorem Held.find (h : Held s (p :: ps)) : s.raws.find? (·.addr == p.2.addr) = some p.2 := by
  have hmem : p.2 ∈ s.raws := h.mem_raws List.mem_cons_self
  cases hfind : s.raws.find? (·.addr == p.2.addr) with
  | none =>
    have hnone := List.find?_eq_none.1 hfind p.2 hmem
    simp at hnone
  | some r =>
    have haddr : r.addr = p.2.addr := by simpa using List.find?_some hfind
    obtain ⟨q, hq, rfl⟩ := List.mem_map.1 (h.raws.mem_iff.1 (List.mem_of_find?_eq_some hfind))
    rcases List.mem_cons.1 hq with rfl | hq
    · rfl
    · have hapart := (List.pairwise_cons.1 h.apart).1 q hq
      have hp := h.holds p List.mem_cons_self
      have hq := h.holds q (List.mem_cons_of_mem p hq)
      have := hp.lo
      have := hp.hi
      have := hq.lo
      have := hq.hi
      unfold Apart at hapart
      omega

/-- A block is handed back. -/
private theorem Held.handBack (h : Held s (p :: ps)) :
    Held (s.handBack p.2.addr) ps ∧ (s.handBack p.2.addr).mem = s.mem ∧ (s.handBack p.2.addr).live = s.live := by
  unfold Heap.handBack
  rw [h.find]
  have hmem : p.2 ∈ s.raws := h.mem_raws List.mem_cons_self
  have hraws : s.raws.Perm (p.2 :: ps.map Prod.snd) := h.raws
  refine ⟨⟨?_, fun q hq => h.holds q (List.mem_cons_of_mem p hq), (List.pairwise_cons.1 h.apart).2, ?_, h.fault⟩, rfl,
    rfl⟩
  · have herase := hraws.erase p.2
    rwa [List.erase_cons_head] at herase
  · have hids := (List.perm_cons_erase hmem).map RawBlock.id
    exact (List.perm_middle.symm.trans (hids.symm.append_left s.back)).trans h.once

/-! ### New blocks -/

/-- `_sppc_heap_place` rounds up to the alignment, past the header. -/
private theorem place_user (addr : Nat) (hk : k ≤ 64) (h : addr + 16 + (2 ^ k - 1) < 2 ^ 64) :
    let user := wrap (addr + heapHead + (2 ^ k - 1)) &&& (2 ^ 64 - 1 - (2 ^ k - 1))
    addr + 16 ≤ user ∧ user ≤ addr + 16 + (2 ^ k - 1) ∧ 2 ^ k ∣ user := by
  have hpos : 0 < 2 ^ k := Nat.two_pow_pos k
  have hwrap : wrap (addr + heapHead + (2 ^ k - 1)) = addr + 16 + (2 ^ k - 1) := Nat.mod_eq_of_lt h
  have hle := Nat.div_mul_le_self (addr + 16 + (2 ^ k - 1)) (2 ^ k)
  have hlt := Nat.lt_div_mul_add (a := addr + 16 + (2 ^ k - 1)) hpos
  dsimp only
  rw [hwrap, and_mask h hk]
  exact ⟨by omega, hle, Nat.dvd_mul_left _ _⟩

/-- What `_sppc_heap_place` does with a block that the C library has just given, `room` being the alignment it is
told. -/
structure Placed (s : Heap) (ps : List (HeapBlock × RawBlock)) (addr size align room : Nat)
    (x : Nat × Heap) : Prop where
  held : ∃ r, Held x.2 ((⟨x.1, size, align⟩, r) :: ps)
  kept : Kept ps s x.2
  live : x.2.live = s.live
  data : Agree s.mem x.2.mem x.1 size
  lo : addr + 16 ≤ x.1
  hi : x.1 ≤ addr + room

private theorem loadBytes_head (mem : Bytes) (head raw size : Nat) (hraw : raw < 2 ^ 64) (hsize : size < 2 ^ 64) :
    loadBytes (storeBytes (storeBytes mem head raw 8) (head + 8) size 8) head 8 = raw ∧
    loadBytes (storeBytes (storeBytes mem head raw 8) (head + 8) size 8) (head + 8) 8 = size := by
  constructor
  · rw [loadBytes_congr (agree_storeBytes (Or.inr (Nat.le_refl _)))]
    exact loadBytes_storeBytes hraw
  · exact loadBytes_storeBytes hsize

/-- The header fits below the block, and both into the C library's. -/
private theorem Held.place (h : Held s ps) (hfits : Fits s.raws addr len) (hk : 4 ≤ k) (hk64 : k < 64)
    (hlen : size + 2 ^ k ≤ len) (halign : align ∣ 2 ^ k) :
    Placed s ps addr size align (2 ^ k) ((s.give addr len).place addr size (2 ^ k)) := by
  obtain ⟨hne, h16, htop, hapart⟩ := hfits
  have hdvd : 16 ∣ 2 ^ k := Nat.pow_dvd_pow 2 hk
  have hpos : 0 < 2 ^ k := Nat.two_pow_pos k
  have huser := place_user addr (Nat.le_of_lt hk64) (by omega)
  unfold Heap.place
  rw [if_neg hne]
  dsimp only at huser ⊢
  generalize wrap (addr + heapHead + (2 ^ k - 1)) &&& (2 ^ 64 - 1 - (2 ^ k - 1)) = user at huser ⊢
  obtain ⟨hlo, hhi, hmul⟩ := huser
  have hplain : 16 ∣ user := Nat.dvd_trans hdvd hmul
  have hle : user ≤ addr + 2 ^ k := by omega
  have hhead : headOf user = user - 16 := rfl
  have hhead8 : user - 16 + 8 = user - 8 := by omega
  rw [hhead]
  have hstores {a n : Nat} (ha : user ≤ a ∨ a + n ≤ user - 16) :
      Agree s.mem (storeBytes (storeBytes s.mem (user - 16) addr 8) (user - 16 + 8) size 8) a n :=
    (agree_storeBytes (by omega)).trans (agree_storeBytes (by omega))
  have hkept : Kept ps s { (s.give addr len) with
      mem := storeBytes (storeBytes s.mem (user - 16) addr 8) (user - 16 + 8) size 8 } := by
    intro p hp
    have hp' := hapart p.2 (h.mem_raws hp)
    exact hstores (by omega)
  obtain ⟨hraw, hsize⟩ := loadBytes_head s.mem (user - 16) addr size (by omega) (by omega)
  refine ⟨⟨⟨s.given, addr, len⟩, ?_, ?_, ?_, ?_, h.fault⟩, hkept, rfl, hstores (Or.inl (Nat.le_refl _)), hlo, hle⟩
  · exact h.raws.cons _
  · intro q hq
    rcases List.mem_cons.1 hq with rfl | hq
    · exact ⟨Nat.pos_of_ne_zero hne, htop, hlo, show user + size ≤ addr + len by omega, hraw,
        hhead8 ▸ hsize, Nat.dvd_trans halign hmul, hplain⟩
    · exact (h.holds q hq).congr (hkept q hq)
  · exact List.pairwise_cons.2 ⟨fun q hq => hapart q.2 (h.mem_raws hq), h.apart⟩
  · show (s.back ++ s.given :: s.raws.map RawBlock.id).Perm (List.range (s.given + 1))
    rw [List.range_succ]
    exact (List.perm_middle.trans (h.once.cons s.given)).trans (List.perm_append_singleton _ _).symm

private theorem Placed.ne_zero (h : Placed s ps addr size align k x) : x.1 ≠ 0 := by
  have := h.lo
  omega

/-- What a call for a new block does: it fails and leaves every block alone, or it returns a new one. -/
inductive Allocated (s : Heap) (ps : List (HeapBlock × RawBlock)) (size align : Nat) (x : Nat × Heap) : Prop
  | failed (hnull : x.1 = 0) (held : Held x.2 ps) (kept : Kept ps s x.2) (live : x.2.live = s.live)
  | placed (hne : x.1 ≠ 0) (held : ∃ r, Held x.2 ((⟨x.1, size, align⟩, r) :: ps)) (kept : Kept ps s x.2)
      (live : x.2.live = s.live)

private theorem Held.refuse (h : Held s ps) (e : HeapErrno) : Held (s.refuse e) ps :=
  h.congr (Kept.refl ps s) rfl rfl rfl rfl

private theorem Held.refused {e : HeapErrno} (h : Held s ps) (hx : some (0, s.refuse e) = some x) :
    Allocated s ps size align x := by
  cases hx
  exact .failed rfl (h.refuse e) (Kept.refl ps s) rfl

private theorem mallocRaw_some (hx : s.mallocRaw len (some addr) noise = some x) :
    Fits s.raws addr len ∧ x = (addr, (s.scribble noise).give addr len) := by
  unfold Heap.mallocRaw at hx
  dsimp only at hx
  split at hx <;> cases hx
  rename_i hfits
  exact ⟨hfits, rfl⟩

/-- The C library is asked for a block with room for the header, which is placed in it. -/
private theorem Held.alloc (h : Held s ps) (hk : 4 ≤ k) (hk64 : k < 64) (hlen : size + 2 ^ k ≤ len)
    (halign : align ∣ 2 ^ k)
    (hx : ((s.mallocRaw len answer noise).map fun (raw, s) => s.place raw size (2 ^ k)) = some x) :
    Allocated s ps size align x := by
  obtain ⟨y, hy, rfl⟩ := Option.map_eq_some_iff.1 hx
  cases answer with
  | none =>
    cases hy
    exact .failed rfl ((h.scribble noise).refuse .ENOMEM) (h.scribble_kept noise) rfl
  | some addr =>
    obtain ⟨hfits, rfl⟩ := mallocRaw_some hy
    have hplaced := (h.scribble noise).place (s := s.scribble noise) hfits hk hk64 hlen halign
    exact .placed hplaced.ne_zero hplaced.held ((h.scribble_kept noise).trans hplaced.kept) hplaced.live

private theorem overflows_false {extra : Nat} (h : ¬overflows size extra = true) (hextra : extra ≤ sizeMax) :
    size + extra < 2 ^ 64 := by
  unfold overflows sizeMax at *
  simp at h
  omega

theorem Held.sppcMalloc (h : Held s ps) (halign : align ∣ 16) (hx : s.sppcMalloc size answer noise = some x) :
    Allocated s ps size align x := by
  unfold Heap.sppcMalloc at hx
  split at hx
  · exact h.refused hx
  · rename_i hover
    have hlt : size + heapHead < 2 ^ 64 := overflows_false hover (by decide)
    rw [wrap, Nat.mod_eq_of_lt hlt] at hx
    exact h.alloc (k := 4) (by decide) (by decide) (Nat.le_refl _) halign hx

/-- The alignments that `sppc_aligned_alloc` does not refuse. -/
theorem exists_pow (h : ¬(align = 0 ∨ align &&& (align - 1) ≠ 0)) (halign : align ≤ sizeMax) :
    ∃ k < 64, align = 2 ^ k := by
  rw [not_or, not_not] at h
  obtain ⟨k, rfl⟩ := Nat.ne_zero_and_sub_one_eq_zero_iff_isPowerOfTwo.1 h
  refine ⟨k, ?_, rfl⟩
  by_contra hk
  have := Nat.pow_le_pow_right (n := 2) (by decide) (Nat.not_lt.1 hk)
  unfold sizeMax at halign
  omega

theorem wrap_pow (hk : k < 64) : wrap (heapHead + 2 ^ k) = heapHead + 2 ^ k ∧ heapHead + 2 ^ k ≤ sizeMax := by
  have hpow : 2 ^ k ≤ 2 ^ 63 := Nat.pow_le_pow_right (by decide) (by omega)
  unfold heapHead sizeMax
  exact ⟨Nat.mod_eq_of_lt (by omega), by omega⟩

theorem Held.sppcAlignedAlloc (h : Held s ps) (halign : align ≤ sizeMax)
    (hx : s.sppcAlignedAlloc size align answer noise = some x) : Allocated s ps size align x := by
  unfold Heap.sppcAlignedAlloc at hx
  split at hx
  · exact h.refused hx
  rename_i hpow
  obtain ⟨k, hk64, rfl⟩ := exists_pow hpow halign
  split at hx
  · rename_i hle
    refine h.sppcMalloc ?_ hx
    exact Nat.pow_dvd_pow (m := k) (n := 4) 2 ((Nat.pow_le_pow_iff_right (by decide)).1 hle)
  rename_i hgt
  have hk : 4 ≤ k := by
    by_contra hk
    exact hgt (show 2 ^ k ≤ 2 ^ 4 from Nat.pow_le_pow_right (by decide) (by omega))
  rw [(wrap_pow hk64).1] at hx
  split at hx
  · exact h.refused hx
  · rename_i hover
    have hlt : size + (heapHead + 2 ^ k) < 2 ^ 64 := overflows_false hover (wrap_pow hk64).2
    rw [wrap, Nat.add_assoc, Nat.mod_eq_of_lt hlt] at hx
    exact h.alloc hk hk64 (by omega) (Nat.dvd_refl _) hx

theorem calloc_total {num : Nat} (h : ¬(size ≠ 0 ∧ num > sizeMax / size)) :
    wrap (num * size) = num * size := by
  refine Nat.mod_eq_of_lt ?_
  by_cases hzero : size = 0
  · rw [hzero, Nat.mul_zero]
    decide
  · have hle : num ≤ sizeMax / size := Nat.not_lt.1 fun hlt => h ⟨hzero, hlt⟩
    exact Nat.lt_succ_of_le ((Nat.le_div_iff_mul_le (Nat.pos_of_ne_zero hzero)).1 hle)

theorem Held.sppcCalloc {num : Nat} (h : Held s ps)
    (hx : s.sppcCalloc num size answer noise = some x) : Allocated s ps (num * size) 16 x := by
  unfold Heap.sppcCalloc at hx
  split at hx
  · exact h.refused hx
  rename_i hbig
  dsimp only at hx
  rw [calloc_total hbig] at hx
  split at hx
  · exact h.refused hx
  · rename_i hover
    have hlt : num * size + heapHead < 2 ^ 64 := overflows_false hover (by decide)
    rw [wrap, Nat.mod_eq_of_lt hlt] at hx
    exact h.alloc (k := 4) (by decide) (by decide) (Nat.le_refl _) (Nat.dvd_refl _) hx

/-! ### Old blocks -/

theorem Holds.headRaw (h : Holds s.mem b r) : s.headRaw (headOf b.ptr) = r.addr := h.raw

theorem Holds.headSize (h : Holds s.mem b r) : s.headSize (headOf b.ptr) = b.size := by
  have := h.lo
  have hhead : headOf b.ptr + 8 = b.ptr - 8 := by
    unfold headOf heapHead
    omega
  unfold Heap.headSize
  rw [hhead]
  exact h.size

/-- A block is freed. -/
private theorem Held.freeRaw (h : Held s (p :: ps)) (noise : Bytes) : Held (s.freeRaw p.2.addr noise) ps ∧
    Kept ps s (s.freeRaw p.2.addr noise) ∧ (s.freeRaw p.2.addr noise).live = s.live := by
  obtain ⟨hback, hmem, hlive⟩ := h.handBack
  refine ⟨hback.scribble noise, fun q hq => ?_, hlive⟩
  have hkept := hback.scribble_kept noise q hq
  rwa [hmem] at hkept

theorem Held.sppcFree (h : Held s (p :: ps)) (noise : Bytes) : Held (s.sppcFree p.1.ptr noise) ps ∧
    Kept ps s (s.sppcFree p.1.ptr noise) ∧ (s.sppcFree p.1.ptr noise).live = s.live := by
  have hp := h.holds p List.mem_cons_self
  have := hp.lo
  unfold Heap.sppcFree
  rw [if_pos (by omega), hp.headRaw]
  exact h.freeRaw noise

/-- What a call that moves or resizes a block does. -/
inductive Resized (s : Heap) (p : HeapBlock × RawBlock) (ps : List (HeapBlock × RawBlock)) (size : Nat)
    (x : Nat × Heap) : Prop
  | failed (hnull : x.1 = 0) (held : Held x.2 (p :: ps)) (kept : Kept (p :: ps) s x.2) (live : x.2.live = s.live)
  | moved (hne : x.1 ≠ 0) (held : ∃ r, Held x.2 ((⟨x.1, size, 16⟩, r) :: ps)) (kept : Kept ps s x.2)
      (live : x.2.live = s.live) (data : ∀ i < min p.1.size size, x.2.mem (x.1 + i) = s.mem (p.1.ptr + i))

/-- The C library's `realloc`, of the block that a plain one is in. -/
private theorem Held.reallocRaw (h : Held s (p :: ps)) (hplain : p.2.addr + 16 = p.1.ptr)
    (hx : ((s.reallocRaw p.2.addr (size + 16) answer noise).map fun (raw, s) => s.place raw size 16) = some x) :
    Resized s p ps size x := by
  obtain ⟨y, hy, rfl⟩ := Option.map_eq_some_iff.1 hx
  have hp := h.holds p List.mem_cons_self
  unfold Heap.reallocRaw at hy
  cases answer with
  | none =>
    cases hy
    exact .failed rfl ((h.scribble noise).refuse .ENOMEM) (h.scribble_kept noise) rfl
  | some addr =>
    dsimp only at hy
    rw [h.find] at hy
    dsimp only at hy
    obtain ⟨hback, hmem, hlive⟩ := h.handBack
    obtain ⟨hfits, rfl⟩ := mallocRaw_some hy
    generalize hbytes : (fun x => if addr ≤ x ∧ x < addr + min p.2.len (size + 16) then s.mem (p.2.addr + (x - addr))
      else noise x) = bytes at hy ⊢
    have hplaced : Placed ((s.handBack p.2.addr).scribble bytes) ps addr size 16 16
        ((((s.handBack p.2.addr).scribble bytes).give addr (size + 16)).place addr size 16) :=
      (hback.scribble bytes).place (k := 4) hfits (by decide) (by decide) (Nat.le_refl _) (Nat.dvd_refl _)
    refine .moved hplaced.ne_zero hplaced.held (fun q hq => ?_) (hplaced.live.trans hlive) fun i hi => ?_
    · have hkept := ((hback.scribble_kept bytes).trans hplaced.kept) q hq
      rwa [hmem] at hkept
    · have hptr := Nat.le_antisymm hplaced.hi hplaced.lo
      have hdata := hplaced.data (addr + 16 + i) (by omega) (by omega)
      have hnot : ¬InRaw (s.handBack p.2.addr).raws (addr + 16 + i) := by
        rintro ⟨r, hr, hx, hx'⟩
        have := hfits.2.2.2 r hr
        omega
      have := hp.hi
      dsimp only
      rw [hptr, hdata]
      refine (if_neg hnot).trans ?_
      rw [← hbytes]
      refine (if_pos (by omega)).trans ?_
      rw [← hplain]
      congr 1
      omega

/-- The end of `sppc_realloc` where it has got a new block. -/
theorem Held.moveTo {y : Nat × Heap} (h : Held y.2 ((⟨y.1, size, 16⟩, r) :: p :: ps)) (hne : y.1 ≠ 0)
    (hkept : Kept (p :: ps) s y.2) (hlive : y.2.live = s.live) (noise : Bytes) :
    Resized s p ps size (y.2.moveTo p.1.ptr size y.1 noise) := by
  have hp := h.holds p (List.mem_cons_of_mem _ List.mem_cons_self)
  have hlo := hp.lo
  have hhi := hp.hi
  unfold Heap.moveTo
  rw [if_neg hne]
  dsimp only
  rw [hp.headSize]
  have hn : (if p.1.size < size then p.1.size else size) = min p.1.size size := by
    split <;> omega
  rw [hn]
  obtain ⟨hcopied, hcopykept⟩ := h.write (copy y.2.mem y.1 p.1.ptr (min p.1.size size)) fun x hx => by
    dsimp only at hx
    exact if_neg (by omega)
  have hraw := (hcopied.holds p (List.mem_cons_of_mem _ List.mem_cons_self)).headRaw
  rw [hraw]
  obtain ⟨hfreed, hfreekept, hfreelive⟩ := (hcopied.perm (List.Perm.swap p _ ps)).freeRaw noise
  refine .moved hne ⟨r, hfreed⟩ ?_ (hfreelive.trans hlive) fun i hi => ?_
  · exact (hkept.of_cons.trans hcopykept.of_cons).trans hfreekept.of_cons
  · have hnew := h.holds _ List.mem_cons_self
    have := hnew.lo
    have := hnew.hi
    dsimp only at *
    have hkeep := hfreekept (⟨y.1, size, 16⟩, r) List.mem_cons_self (y.1 + i) (by dsimp only; omega)
      (by dsimp only; omega)
    refine (hkeep.trans (copy_apply hi)).trans ?_
    exact hkept p List.mem_cons_self _ (by omega) (by omega)

theorem Held.sppcRealloc (h : Held s (p :: ps)) (hsize : size ≠ 0)
    (hx : s.sppcRealloc p.1.ptr size answer noise noise' = some x) : Resized s p ps size x := by
  have hp := h.holds p List.mem_cons_self
  have hlo := hp.lo
  unfold Heap.sppcRealloc at hx
  rw [if_neg (by omega), if_neg hsize] at hx
  dsimp only at hx
  rw [hp.headRaw] at hx
  split at hx
  · rename_i hplain
    split at hx
    · cases hx
      exact .failed rfl (h.refuse .ENOMEM) (Kept.refl _ s) rfl
    · rename_i hover
      have hlt : size + heapHead < 2 ^ 64 := overflows_false hover (by decide)
      rw [wrap, Nat.mod_eq_of_lt hlt] at hx
      unfold headOf heapHead at hplain
      exact h.reallocRaw (by omega) hx
  · obtain ⟨y, hy, rfl⟩ := Option.map_eq_some_iff.1 hx
    cases h.sppcMalloc (Nat.dvd_refl 16) hy with
    | failed hnull held kept live =>
      unfold Heap.moveTo
      rw [if_pos hnull]
      exact .failed rfl held kept live
    | placed hne held kept live =>
      obtain ⟨r, held⟩ := held
      exact held.moveTo hne kept live noise'

/-! ### Runs -/

/-- Each block that a caller has is in one of the C library's. -/
def HeapInv (s : Heap) : Prop := ∃ ps, Held s ps ∧ s.live.Perm (ps.map Prod.fst)

/-- A block is still the caller's, with the same header and bytes. -/
def Same (s s' : Heap) (b : HeapBlock) : Prop := b ∈ s'.live ∧ Agree s.mem s'.mem (headOf b.ptr) (heapHead + b.size)

theorem Holds.agree (h : Holds mem b r) (hr : Agree mem mem' r.addr r.len) :
    Agree mem mem' (headOf b.ptr) (heapHead + b.size) := by
  have hlo := h.lo
  have hhi := h.hi
  unfold headOf heapHead
  exact hr.mono (by omega) (by omega)

/-- All blocks stay, and there may be new ones. -/
theorem Held.same (h : Held s ps) (hlive : s.live.Perm (ps.map Prod.fst)) (hkept : Kept ps s s')
    (hlive' : ∀ b ∈ s.live, b ∈ s'.live) (hb : b ∈ s.live) : Same s s' b := by
  obtain ⟨p, hp, rfl⟩ := List.mem_map.1 (hlive.mem_iff.1 hb)
  exact ⟨hlive' _ hb, (h.holds p hp).agree (hkept p hp)⟩

theorem HeapInv.split (h : HeapInv s) (hb : b ∈ s.live) :
    ∃ r ps, Held s ((b, r) :: ps) ∧ s.live.Perm (b :: ps.map Prod.fst) := by
  obtain ⟨ps, hheld, hlive⟩ := h
  obtain ⟨p, hp, rfl⟩ := List.mem_map.1 (hlive.mem_iff.1 hb)
  exact ⟨p.2, ps.erase p, hheld.perm (List.perm_cons_erase hp), hlive.trans ((List.perm_cons_erase hp).map _)⟩

theorem Held.ptr_ne (h : Held s (p :: ps)) {q : HeapBlock × RawBlock} (hq : q ∈ ps) : q.1.ptr ≠ p.1.ptr := by
  have hapart := (List.pairwise_cons.1 h.apart).1 q hq
  have hp := h.holds p List.mem_cons_self
  have hq := h.holds q (List.mem_cons_of_mem p hq)
  have := hp.lo
  have := hp.hi
  have := hq.lo
  have := hq.hi
  unfold Apart at hapart
  omega

/-- One block goes. -/
theorem Held.drop (h : Held s (p :: ps)) (hlive : s.live.Perm (p.1 :: ps.map Prod.fst)) :
    (s.drop p.1.ptr).live.Perm (ps.map Prod.fst) := by
  have hself : (ps.map Prod.fst).filter (·.ptr ≠ p.1.ptr) = ps.map Prod.fst := by
    refine List.filter_eq_self.2 fun b hb => ?_
    obtain ⟨q, hq, rfl⟩ := List.mem_map.1 hb
    exact decide_eq_true (h.ptr_ne hq)
  have hfilter := hlive.filter (·.ptr ≠ p.1.ptr)
  rwa [List.filter_cons_of_neg (by simp), hself] at hfilter

/-- NULL is no block. -/
theorem HeapInv.drop_zero (h : HeapInv s) (hlive' : s'.live = s.live) : s'.drop 0 = s' := by
  obtain ⟨ps, hheld, hlive⟩ := h
  have hself : s'.live.filter (·.ptr ≠ 0) = s'.live := by
    rw [hlive']
    refine List.filter_eq_self.2 fun b hb => ?_
    obtain ⟨p, hp, rfl⟩ := List.mem_map.1 (hlive.mem_iff.1 hb)
    have := (hheld.holds p hp).lo
    exact decide_eq_true (by omega)
  unfold Heap.drop
  rw [hself]

theorem Allocated.live_eq (h : Allocated s ps size align x) : x.2.live = s.live := by
  cases h with
  | failed _ _ _ live => exact live
  | placed _ _ _ live => exact live

theorem Allocated.inv (h : Allocated s ps size align x) (hlive : s.live.Perm (ps.map Prod.fst)) :
    HeapInv (returned size align x) := by
  unfold returned
  cases h with
  | failed hnull held kept live =>
    rw [if_pos hnull]
    refine ⟨ps, ⟨held.raws, held.holds, held.apart, held.once, held.fault⟩, ?_⟩
    show x.2.live.Perm (ps.map Prod.fst)
    rwa [live]
  | placed hne held kept live =>
    rw [if_neg hne]
    obtain ⟨r, held⟩ := held
    refine ⟨_, ⟨held.raws, held.holds, held.apart, held.once, held.fault⟩, ?_⟩
    show (_ :: x.2.live).Perm (_ :: ps.map Prod.fst)
    rw [live]
    exact hlive.cons _

theorem Allocated.same (h : Allocated s ps size align x) (hheld : Held s ps) (hlive : s.live.Perm (ps.map Prod.fst))
    (hb : b ∈ s.live) : Same s (returned size align x) b := by
  unfold returned
  cases h with
  | failed hnull held kept live =>
    rw [if_pos hnull]
    refine hheld.same hlive kept (fun b hb => ?_) hb
    show b ∈ x.2.live
    rwa [live]
  | placed hne held kept live =>
    rw [if_neg hne]
    refine hheld.same hlive kept (fun b hb => ?_) hb
    show b ∈ _ :: x.2.live
    rw [live]
    exact List.mem_cons_of_mem _ hb

end Heap

end Sppc.Windows
