import Sppc.Windows.HeapBlocks

/-!
# The calls of the heap on Windows

What a call leaves alone, what one that fails does, and what a resized block keeps.
-/

namespace Sppc.Windows

open Transition Bytes Heap

/-- The block that a step is about (0 for none). -/
def HeapEvent.target : HeapEvent → Nat
  | .malloc .. | .aligned_alloc .. | .calloc .. => 0
  | .free ptr _ | .realloc ptr _ _ _ _ | .write ptr _ _ => ptr

/-- A call for a block that has returned NULL. -/
def HeapEvent.Failed (e : HeapEvent) (s' : Heap) : Prop :=
  s'.result = 0 ∧ match e with
    | .malloc .. | .aligned_alloc .. | .calloc .. => True
    | .realloc ptr size _ _ _ => ptr = 0 ∨ size ≠ 0
    | .free .. | .write .. => False

/-- A call for a block that has no room for its header. -/
def HeapEvent.TooBig : HeapEvent → Prop
  | .malloc size _ _ => 2 ^ 64 ≤ size + heapHead
  | .aligned_alloc size alignment _ _ =>
    2 ^ 64 ≤ size + heapHead ∨ heapHead < alignment ∧ 2 ^ 64 ≤ size + heapHead + alignment
  | .calloc num size _ _ => 2 ^ 64 ≤ num * size + heapHead
  | .realloc _ size _ _ _ => 2 ^ 64 ≤ size + heapHead
  | .free .. | .write .. => False

/-- What a step does to the callers' blocks: the others stay; a call that fails, as one does for a size that is too
big, leaves all of them; and a resized block keeps its bytes. -/
structure HeapStepOk (s : Heap) (e : HeapEvent) (s' : Heap) : Prop where
  others : ∀ b ∈ s.live, b.ptr ≠ e.target → Same s s' b
  failed : e.Failed s' → s'.live = s.live ∧ ∀ b ∈ s.live, Same s s' b
  tooBig : e.TooBig → e.Failed s'
  resized : ∀ ptr size answer noise noise', e = .realloc ptr size answer noise noise' → ptr ≠ 0 → size ≠ 0 →
    s'.result ≠ 0 → ∀ b ∈ s.live, b.ptr = ptr → ∀ i < min b.size size, s'.mem (s'.result + i) = s.mem (ptr + i)

section steps

variable {s s' : Heap} {ps : List (HeapBlock × RawBlock)} {p : HeapBlock × RawBlock} {noise noise' : Bytes}
  {b : HeapBlock} {answer : Option Nat} {size align ptr num : Nat} {x : Nat × Heap}

/-! ### Sizes that are too big -/

private theorem overflows_true {extra : Nat} (h : 2 ^ 64 ≤ size + extra) (hextra : extra ≤ sizeMax) :
    overflows size extra = true := by
  unfold overflows sizeMax at *
  simp
  omega

private theorem sppcMalloc_tooBig (h : 2 ^ 64 ≤ size + heapHead)
    (hx : s.sppcMalloc size answer noise = some x) : x.1 = 0 := by
  unfold sppcMalloc at hx
  rw [if_pos (overflows_true h (by decide))] at hx
  cases hx
  rfl

private theorem sppcAlignedAlloc_tooBig (halign : align ≤ sizeMax)
    (h : 2 ^ 64 ≤ size + heapHead ∨ heapHead < align ∧ 2 ^ 64 ≤ size + heapHead + align)
    (hx : s.sppcAlignedAlloc size align answer noise = some x) : x.1 = 0 := by
  unfold sppcAlignedAlloc at hx
  split at hx
  · cases hx
    rfl
  rename_i hpow
  obtain ⟨k, hk64, rfl⟩ := exists_pow hpow halign
  split at hx
  · rename_i hle
    exact sppcMalloc_tooBig (h.resolve_right fun hlt => absurd hle (Nat.not_le.2 hlt.1)) hx
  · have hlt : 2 ^ 64 ≤ size + (heapHead + 2 ^ k) := by omega
    rw [(wrap_pow hk64).1, if_pos (overflows_true hlt (wrap_pow hk64).2)] at hx
    cases hx
    rfl

private theorem sppcCalloc_tooBig (h : 2 ^ 64 ≤ num * size + heapHead)
    (hx : s.sppcCalloc num size answer noise = some x) : x.1 = 0 := by
  unfold sppcCalloc at hx
  split at hx
  · cases hx
    rfl
  · rename_i hbig
    dsimp only at hx
    rw [calloc_total hbig, if_pos (overflows_true h (by decide))] at hx
    cases hx
    rfl

/-! ### The steps -/

private theorem returned_result (size align : Nat) (x : Nat × Heap) : (returned size align x).result = x.1 := by
  unfold returned
  split
  · rename_i h
    exact h.symm
  · rfl

private theorem returned_live (h : x.1 = 0) : (returned size align x).live = x.2.live := by
  unfold returned
  rw [if_pos h]

private theorem moved_result (ptr size : Nat) (x : Nat × Heap) : (moved ptr size x).result = x.1 := by
  unfold moved
  split
  · rename_i h
    exact h.symm
  · exact returned_result size heapHead (x.1, x.2.drop ptr)

/-- A call for a new block. -/
private theorem allocated_stepOk {e : HeapEvent} (h : Allocated s ps size align x) (hheld : Held s ps)
    (hlive : s.live.Perm (ps.map Prod.fst)) (hbig : e.TooBig → x.1 = 0)
    (hfailed : e.TooBig → (returned size align x).result = 0 → e.Failed (returned size align x))
    (hnew : ∀ ptr size answer noise noise', e = .realloc ptr size answer noise noise' → ptr = 0) :
    HeapInv (returned size align x) ∧ HeapStepOk s e (returned size align x) := by
  refine ⟨h.inv hlive, fun b hb _ => h.same hheld hlive hb, fun hf => ⟨?_, fun b hb => h.same hheld hlive hb⟩,
    fun hb => hfailed hb ?_, fun ptr size answer noise noise' he hptr => absurd (hnew _ _ _ _ _ he) hptr⟩
  · have hnull : x.1 = 0 := by
      have hresult := hf.1
      rwa [returned_result] at hresult
    rw [returned_live hnull]
    cases h with
    | failed _ _ _ live => exact live
    | placed hne _ _ _ => exact absurd hnull hne
  · rw [returned_result, hbig hb]

private theorem mem_of_ne (hlive : s.live.Perm (p.1 :: ps.map Prod.fst)) (hb : b ∈ s.live) (hne : b.ptr ≠ p.1.ptr) :
    ∃ q ∈ ps, q.1 = b := by
  refine List.mem_map.1 ?_
  rcases List.mem_cons.1 (hlive.mem_iff.1 hb) with rfl | hb
  · exact absurd rfl hne
  · exact hb

/-- A block is freed. -/
private theorem free_stepOk (h : HeapInv s) (hptr : s.HasPtr ptr) (noise : Bytes) (result : Nat) :
    HeapInv { (s.sppcFree ptr noise).drop ptr with result := result } ∧
    ∀ b ∈ s.live, b.ptr ≠ ptr → Same s { (s.sppcFree ptr noise).drop ptr with result := result } b := by
  rcases hptr with rfl | ⟨b, hb, rfl⟩
  · have hsame : s.sppcFree 0 noise = s := if_neg (by simp)
    rw [hsame, h.drop_zero rfl]
    obtain ⟨ps, hheld, hlive⟩ := h
    exact ⟨⟨ps, ⟨hheld.raws, hheld.holds, hheld.apart, hheld.once, hheld.fault⟩, hlive⟩,
      fun b hb _ => ⟨hb, Agree.refl _ _ _⟩⟩
  · obtain ⟨r, ps, hheld, hlive⟩ := h.split hb
    obtain ⟨hfree, hkept, hfreelive⟩ := hheld.sppcFree noise
    have hdrop : (Heap.drop (s.sppcFree b.ptr noise) b.ptr).live.Perm (ps.map Prod.fst) := by
      unfold Heap.drop
      rw [hfreelive]
      exact hheld.drop hlive
    refine ⟨⟨ps, ⟨hfree.raws, hfree.holds, hfree.apart, hfree.once, hfree.fault⟩, hdrop⟩, fun c hc hne => ?_⟩
    obtain ⟨q, hq, rfl⟩ := mem_of_ne (p := (b, r)) hlive hc hne
    exact ⟨hdrop.mem_iff.2 (List.mem_map_of_mem hq),
      (hheld.holds q (List.mem_cons_of_mem _ hq)).agree (hkept q hq)⟩

/-- A block is resized. -/
private theorem resized_stepOk {e : HeapEvent} (h : Resized s p ps size x) (hheld : Held s (p :: ps))
    (hlive : s.live.Perm (p.1 :: ps.map Prod.fst)) (he : e = .realloc p.1.ptr size answer noise noise')
    (hsize : size ≠ 0) (hbig : e.TooBig → x.1 = 0) :
    HeapInv (moved p.1.ptr size x) ∧ HeapStepOk s e (moved p.1.ptr size x) := by
  subst he
  have hbig' (h : HeapEvent.TooBig (.realloc p.1.ptr size answer noise noise')) :
      HeapEvent.Failed (.realloc p.1.ptr size answer noise noise') (moved p.1.ptr size x) :=
    ⟨by rw [moved_result, hbig h], Or.inr hsize⟩
  cases h with
  | failed hnull held kept live =>
    have heq : moved p.1.ptr size x = { x.2 with result := 0 } := if_pos hnull
    have hlive' : x.2.live.Perm (p.1 :: ps.map Prod.fst) := by rwa [live]
    have hsame (b : HeapBlock) (hb : b ∈ s.live) : Same s (moved p.1.ptr size x) b := by
      rw [heq]
      refine hheld.same hlive kept (fun b hb => ?_) hb
      show b ∈ x.2.live
      rwa [live]
    refine ⟨?_, fun b hb _ => hsame b hb, fun _ => ⟨?_, hsame⟩, hbig', ?_⟩
    · rw [heq]
      exact ⟨p :: ps, ⟨held.raws, held.holds, held.apart, held.once, held.fault⟩, hlive'⟩
    · rw [heq]
      exact live
    · intro ptr size' answer' _ _ _ _ _ hne
      rw [moved_result] at hne
      exact absurd hnull hne
  | moved hne held kept live data =>
    obtain ⟨r, held⟩ := held
    have heq : moved p.1.ptr size x = { x.2.drop p.1.ptr with
        live := ⟨x.1, size, heapHead⟩ :: (x.2.drop p.1.ptr).live, result := x.1 } :=
      (if_neg hne).trans (if_neg hne)
    have hdrop : (x.2.drop p.1.ptr).live.Perm (ps.map Prod.fst) := by
      unfold Heap.drop
      rw [live]
      exact hheld.drop hlive
    refine ⟨?_, fun b hb hptr => ?_, fun hf => ?_, hbig', ?_⟩
    · rw [heq]
      exact ⟨_, ⟨held.raws, held.holds, held.apart, held.once, held.fault⟩, hdrop.cons _⟩
    · obtain ⟨q, hq, rfl⟩ := mem_of_ne hlive hb hptr
      rw [heq]
      exact ⟨List.mem_cons_of_mem _ (hdrop.mem_iff.2 (List.mem_map_of_mem hq)),
        (hheld.holds q (List.mem_cons_of_mem p hq)).agree (kept q hq)⟩
    · have hresult := hf.1
      rw [moved_result] at hresult
      exact absurd hresult hne
    · intro ptr size' answer' _ _ he _ _ _ b hb hptr i hi
      cases he
      have hbp : b = p.1 := by
        by_contra hbp
        rcases List.mem_cons.1 (hlive.mem_iff.1 hb) with rfl | hb
        · exact hbp rfl
        · obtain ⟨q, hq, rfl⟩ := List.mem_map.1 hb
          exact hheld.ptr_ne hq hptr
      subst hbp
      rw [heq]
      exact data i hi

private theorem realloc_stepOk (h : HeapInv s) (hptr : s.HasPtr ptr) (hnew : ¬(ptr ≠ 0 ∧ size = 0))
    (hx : s.sppcRealloc ptr size answer noise noise' = some x) :
    HeapInv (moved ptr size x) ∧ HeapStepOk s (.realloc ptr size answer noise noise') (moved ptr size x) := by
  by_cases hzero : ptr = 0
  · subst hzero
    unfold sppcRealloc at hx
    rw [if_pos rfl] at hx
    obtain ⟨ps, hheld, hlive⟩ := h
    have hall : Allocated s ps size heapHead x := hheld.sppcMalloc (Nat.dvd_refl 16) hx
    have heq : moved 0 size x = returned size heapHead x := by
      unfold moved
      rw [HeapInv.drop_zero ⟨ps, hheld, hlive⟩ hall.live_eq]
      split
      · rename_i hnull
        exact (if_pos hnull).symm
      · rfl
    rw [heq]
    refine allocated_stepOk hall hheld hlive (fun hbig => sppcMalloc_tooBig hbig hx) (fun _ hr => ⟨hr, Or.inl rfl⟩) ?_
    intro ptr' _ _ _ _ he
    cases he
    rfl
  · have hsize : size ≠ 0 := fun hs => hnew ⟨hzero, hs⟩
    obtain ⟨b, hb, rfl⟩ := hptr.resolve_left hzero
    obtain ⟨r, ps, hheld, hlive⟩ := h.split hb
    refine resized_stepOk (p := (b, r)) (hheld.sppcRealloc hsize hx) hheld hlive rfl hsize fun hbig => ?_
    unfold sppcRealloc at hx
    rw [if_neg hzero, if_neg hsize] at hx
    dsimp only at hx
    rw [if_pos (overflows_true hbig (by decide))] at hx
    split at hx
    · cases hx
      rfl
    · obtain ⟨y, hy, rfl⟩ := Option.map_eq_some_iff.1 hx
      unfold moveTo
      rw [if_pos (sppcMalloc_tooBig hbig hy)]

private theorem heap_step {e : HeapEvent} (h : HeapInv s) (hstep : s.step e = some s') :
    HeapInv s' ∧ HeapStepOk s e s' := by
  unfold Heap.step at hstep
  split at hstep
  · split at hstep
    · obtain ⟨x, hx, rfl⟩ := Option.map_eq_some_iff.1 hstep
      obtain ⟨ps, hheld, hlive⟩ := h
      exact allocated_stepOk (hheld.sppcMalloc (Nat.dvd_refl 16) hx) hheld hlive (fun hbig =>
        sppcMalloc_tooBig hbig hx) (fun _ hr => ⟨hr, trivial⟩) nofun
    · cases hstep
  · split at hstep
    · rename_i hle
      obtain ⟨x, hx, rfl⟩ := Option.map_eq_some_iff.1 hstep
      obtain ⟨ps, hheld, hlive⟩ := h
      exact allocated_stepOk (hheld.sppcAlignedAlloc hle.2 hx) hheld hlive
        (fun hbig => sppcAlignedAlloc_tooBig hle.2 hbig hx) (fun _ hr => ⟨hr, trivial⟩) nofun
    · cases hstep
  · split at hstep
    · obtain ⟨x, hx, rfl⟩ := Option.map_eq_some_iff.1 hstep
      obtain ⟨ps, hheld, hlive⟩ := h
      exact allocated_stepOk (hheld.sppcCalloc hx) hheld hlive (fun hbig => sppcCalloc_tooBig hbig hx)
        (fun _ hr => ⟨hr, trivial⟩) nofun
    · cases hstep
  · split at hstep <;> cases hstep
    rename_i ptr noise hptr
    obtain ⟨hinv, hsame⟩ := free_stepOk h hptr noise (Heap.drop (s.sppcFree ptr noise) ptr).result
    exact ⟨hinv, hsame, fun hf => hf.2.elim, fun hb => hb.elim, nofun⟩
  · split at hstep
    · rename_i ptr size answer noise noise' hle
      split at hstep
      · rename_i hfree
        obtain ⟨x, hx, rfl⟩ := Option.map_eq_some_iff.1 hstep
        unfold sppcRealloc at hx
        rw [if_neg hfree.1, if_pos hfree.2] at hx
        cases hx
        obtain ⟨hinv, hsame⟩ := free_stepOk h hle.1 noise 0
        refine ⟨hinv, hsame, fun hf => ?_, fun hb => ?_, ?_⟩
        · exact absurd hf.2 (by simp [hfree])
        · have hbig : 2 ^ 64 ≤ size + heapHead := hb
          unfold heapHead at hbig
          omega
        · intro _ _ _ _ _ he _ hsize
          cases he
          exact absurd hfree.2 hsize
      · rename_i hnew
        obtain ⟨x, hx, rfl⟩ := Option.map_eq_some_iff.1 hstep
        exact realloc_stepOk h hle.1 hnew hx
    · cases hstep
  · split at hstep <;> cases hstep
    rename_i ptr i byte hwrite
    obtain ⟨b, hb, rfl, hi⟩ := hwrite
    obtain ⟨r, ps, hheld, hlive⟩ := h.split hb
    obtain ⟨hwritten, hkept⟩ := hheld.write (Function.update s.mem (b.ptr + i) byte) fun x hx => by
      dsimp only at hx
      exact Function.update_of_ne (by omega) ..
    refine ⟨⟨_, hwritten, hlive⟩, fun c hc hne => ?_, fun hf => hf.2.elim, fun hb => hb.elim, nofun⟩
    obtain ⟨q, hq, rfl⟩ := mem_of_ne (p := (b, r)) hlive hc hne
    exact ⟨hc, (hheld.holds q (List.mem_cons_of_mem _ hq)).agree (hkept q hq)⟩

/-! ### Every run -/

/-- Each block is aligned as asked, and it and its header are in a block of the C library that the header names, and
overlap no other block; there are no other blocks of the C library, and it was handed back each of those it gave
before once, and nothing else. -/
structure HeapOk (s : Heap) : Prop where
  aligned : ∀ b ∈ s.live, b.align ∣ b.ptr ∧ 16 ∣ b.ptr
  inside : ∀ b ∈ s.live, ∃ r ∈ s.raws, r.addr + heapHead ≤ b.ptr ∧ b.ptr + b.size ≤ r.addr + r.len ∧
    s.headRaw (headOf b.ptr) = r.addr ∧ s.headSize (headOf b.ptr) = b.size
  apart : s.live.Pairwise fun b c => b.ptr + b.size ≤ headOf c.ptr ∨ c.ptr + c.size ≤ headOf b.ptr
  owned : s.raws.length = s.live.length
  once : (s.back ++ s.raws.map RawBlock.id).Perm (List.range s.given)
  fault : s.fault = false

private theorem Heap.HeapInv.ok (h : HeapInv s) : HeapOk s := by
  obtain ⟨ps, hheld, hlive⟩ := h
  have hmem (b : HeapBlock) (hb : b ∈ s.live) : ∃ r ∈ s.raws, Holds s.mem b r := by
    obtain ⟨p, hp, rfl⟩ := List.mem_map.1 (hlive.mem_iff.1 hb)
    exact ⟨p.2, hheld.mem_raws hp, hheld.holds p hp⟩
  refine ⟨fun b hb => ?_, fun b hb => ?_, ?_, ?_, hheld.once, hheld.fault⟩
  · obtain ⟨r, -, hr⟩ := hmem b hb
    exact ⟨hr.align, hr.plain⟩
  · obtain ⟨r, hmem, hr⟩ := hmem b hb
    exact ⟨r, hmem, hr.lo, hr.hi, hr.headRaw, hr.headSize⟩
  · refine (hlive.pairwise_iff Or.symm).2 (List.pairwise_map.2 (hheld.apart.imp_of_mem fun {p q} hp hq hapart => ?_))
    have hp := hheld.holds p hp
    have hq := hheld.holds q hq
    have := hp.lo
    have := hp.hi
    have := hq.lo
    have := hq.hi
    unfold Apart at hapart
    unfold headOf heapHead
    omega
  · rw [hheld.raws.length_eq, hlive.length_eq, List.length_map, List.length_map]

/-- In every run. -/
theorem heap_ok {mem : Bytes} (h : Reach Heap.step (.init mem) s) :
    HeapOk s ∧ ∀ e s', s.step e = some s' → HeapStepOk s e s' := by
  have hinit : HeapInv (.init mem) := ⟨[], ⟨.nil, nofun, .nil, .nil, rfl⟩, .nil⟩
  have hinv : HeapInv s := h.invariant (fun _ _ _ hi hstep => (heap_step hi hstep).1) hinit
  exact ⟨hinv.ok, fun _ _ hstep => (heap_step hinv hstep).2⟩

/-- An over-aligned block whose header is at the start of the C library's block is resized as a plain one, another one
moves, and both are freed. -/
theorem heap_ok_freed : ∃ s : Heap, HeapOk s ∧ s.live = [] ∧ s.back = [3, 2, 1, 0] := by
  have hrun : (Transition.run Heap.step (.init fun _ => 0)
      [.aligned_alloc 8 64 (some 4080) fun _ => 1, .write 4096 3 7, .aligned_alloc 8 64 (some 8192) fun _ => 2,
        .realloc 4096 100 (some 16384) (fun _ => 3) fun _ => 4, .realloc 8256 100 (some 32768) (fun _ => 5) fun _ =>
        6, .free 16400 fun _ => 7, .free 32784 fun _ => 8]).map (fun s => (s.live, s.back)) = some ([], [3, 2, 1,
        0]) := by
    decide +kernel
  obtain ⟨s, hs, heq⟩ := Option.map_eq_some_iff.1 hrun
  exact ⟨s, (heap_ok ⟨_, hs⟩).1, Prod.mk.inj heq⟩

end steps

end Sppc.Windows
