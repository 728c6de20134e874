import Sppc.TaskStacks
import Sppc.Context

/-!
# The size of task stacks

`_gt_set_stack_size` rounds up to whole pages, the mapping of a stack has a guard page more, and `_gt_stack_prime`
lays out its block below the top.  Platforms are those with 64-bit addresses.
-/

namespace Sppc

open Bytes StackRun

variable {Io : Type}

/-- The calling conventions. -/
inductive StackAbi
  | flat (f : FlatAbi)
  | ppc64Elfv1 | ppc64Elfv2 | mipsN64 | sparcV9
  deriving DecidableEq, Repr

/-- How far below the top of the stack the block of `_gt_stack_prime` begins. -/
def StackAbi.below : StackAbi → Nat
  | flat f => f.abi.primer.below
  | ppc64Elfv1 => 112 + 544
  | ppc64Elfv2 => 32 + 544
  | mipsN64 => 160
  | sparcV9 => 176 + 176

/-- The top that `_gt_stack_prime` rounds down to. -/
def primeTop (usable size : Nat) : Nat := (usable + size) % 2 ^ 64 &&& (2 ^ 64 - 1 - 15)

/-- Where the block of `_gt_stack_prime` begins. -/
def StackAbi.primeBase (a : StackAbi) (usable size : Nat) : Nat := (primeTop usable size + 2 ^ 64 - a.below) % 2 ^ 64

/-- The block lies inside the stack. -/
def StackAbi.Inside (a : StackAbi) (usable size : Nat) : Prop :=
  usable ≤ a.primeBase usable size ∧ a.primeBase usable size + a.below ≤ usable + size

/-- The stacks of a size, in every run of calls on the runtime: the mapping that is made for one is as long as it and,
where guard pages are enabled, a page more; and the block of `_gt_stack_prime` lies inside each. -/
def StacksOk (s₀ : StackRun Io) (size : Nat) : Prop :=
  ∀ s, Reaches Answers s₀ s → ∀ m u, s.Answers (.alloc size m) → (gtStackAlloc s.rt size m).1 = some u →
    (∀ new, (gtStackAlloc s.rt size m).2.log = new ++ s.rt.log → ∀ p len prot, .mapped p len prot ∈ new →
      len = if s.rt.guard then size + s.rt.page else size) ∧
    ∀ a : StackAbi, a.Inside u size

/-- What `_gt_set_stack_size` is to do: the size is whole pages and at least what was asked for and 16 KiB, or it
stays as it was; and the stacks of the size are as they should be. -/
def StackSizeOk (s₀ s : StackRun Io) (bytes : Nat) : Prop :=
  let size := (gtSetStackSize s.rt bytes).stackSize
  ((s.rt.page ∣ size ∧ max bytes gtStackMin ≤ size) ∨ size = s.rt.stackSize) ∧ StacksOk s₀ size

/-! ### Rounding -/

variable {s₀ s : StackRun Io} {bytes k : Nat}

/-- All ones without the bits of a page. -/
private theorem pageMask (hk : k ≤ 64) : (2 ^ 64 - 1) ^^^ (2 ^ k - 1) = 2 ^ 64 - 1 - (2 ^ k - 1) := by
  refine Nat.eq_of_testBit_eq fun i => ?_
  rw [testBit_mask hk, Nat.testBit_xor, Nat.testBit_two_pow_sub_one, Nat.testBit_two_pow_sub_one]
  by_cases hi : k ≤ i
  · have hik : ¬i < k := by omega
    simp [hi, hik]
  · have hik : i < k := by omega
    have hlt : i < 64 := by omega
    simp [hi, hik, hlt]

private theorem gtSetStackSize_eq (hk : k ≤ 64) (hpage : s.rt.page = 2 ^ k) (bytes : Nat) :
    (gtSetStackSize s.rt bytes).stackSize =
      (max bytes gtStackMin + 2 ^ k - 1) % 2 ^ 64 / 2 ^ k * 2 ^ k := by
  have hmax : (if bytes < gtStackMin then gtStackMin else bytes) = max bytes gtStackMin := by
    split <;> omega
  rw [gtSetStackSize]
  dsimp only
  rw [hmax, hpage, pageMask hk, and_mask (Nat.mod_lt _ (by decide)) hk]

/-- Where the sum does not wrap, the size is rounded up. -/
private theorem gtSetStackSize_ok (hk : k < 64) (hpage : s.rt.page = 2 ^ k)
    (hbytes : max bytes gtStackMin + 2 ^ k ≤ 2 ^ 64) : s.rt.page ∣ (gtSetStackSize s.rt bytes).stackSize ∧
      max bytes gtStackMin ≤ (gtSetStackSize s.rt bytes).stackSize := by
  have hpos : 0 < 2 ^ k := Nat.pow_pos (by decide)
  rw [gtSetStackSize_eq hk.le hpage, hpage]
  refine ⟨Nat.dvd_mul_left _ _, ?_⟩
  rw [Nat.mod_eq_of_lt (by omega)]
  have hdiv := Nat.div_add_mod (max bytes gtStackMin + 2 ^ k - 1) (2 ^ k)
  have hmod := Nat.mod_lt (max bytes gtStackMin + 2 ^ k - 1) hpos
  rw [Nat.mul_comm] at hdiv
  omega

/-- Where it wraps, the size is 0. -/
private theorem gtSetStackSize_wraps (hk : k < 64) (hpage : s.rt.page = 2 ^ k) (hb : bytes < 2 ^ 64)
    (hbytes : 2 ^ 64 < max bytes gtStackMin + 2 ^ k) : (gtSetStackSize s.rt bytes).stackSize = 0 := by
  have hmin : gtStackMin < 2 ^ 64 := by decide
  have hle : 2 ^ k ≤ 2 ^ 63 := Nat.pow_le_pow_right (by decide) (by omega)
  have hsum : max bytes gtStackMin + 2 ^ k - 1 < 2 ^ 64 + 2 ^ k := by omega
  rw [gtSetStackSize_eq hk.le hpage, Nat.mod_eq_sub_mod (by omega), Nat.mod_eq_of_lt (by omega),
    Nat.div_eq_of_lt (by omega), Nat.zero_mul]

/-! ### The block -/

private theorem StackAbi.below_le (a : StackAbi) : 0 < a.below ∧ a.below ≤ 656 := by
  cases a with
  | flat f => cases f <;> decide
  | ppc64Elfv1 => decide
  | ppc64Elfv2 => decide
  | mipsN64 => decide
  | sparcV9 => decide

private theorem primeTop_eq (usable size : Nat) : primeTop usable size = (usable + size) % 2 ^ 64 / 16 * 16 := by
  have hmask := and_mask (n := (usable + size) % 2 ^ 64) (k := 4) (Nat.mod_lt _ (by decide)) (by decide)
  exact hmask

/-- The block lies inside a stack of 16 KiB or more. -/
private theorem StackAbi.inside (a : StackAbi) {u size : Nat} (hsize : gtStackMin ≤ size) (hend : u + size ≤ 2 ^ 64) :
    a.Inside u size := by
  obtain ⟨hpos, hle⟩ := a.below_le
  have hmin : gtStackMin = 16384 := rfl
  rw [StackAbi.Inside, StackAbi.primeBase, primeTop_eq]
  by_cases hlt : u + size < 2 ^ 64
  · rw [Nat.mod_eq_of_lt hlt]
    have hbase : ((u + size) / 16 * 16 + 2 ^ 64 - a.below) % 2 ^ 64 = (u + size) / 16 * 16 - a.below := by omega
    rw [hbase]
    omega
  · have htop : u + size = 2 ^ 64 := by omega
    rw [htop, Nat.mod_self, Nat.zero_div, Nat.zero_mul, Nat.zero_add, Nat.mod_eq_of_lt (by omega)]
    omega

/-- The block is outside an empty stack. -/
private theorem StackAbi.not_inside (a : StackAbi) (u : Nat) : ¬a.Inside u 0 := by
  intro h
  have hpos := a.below_le.1
  have hsum := Nat.le_trans (Nat.add_le_add_right h.1 a.below) h.2
  omega

/-! ### Runs -/

private theorem gtStackFlush_fields (R : GtRuntime Io) (cache : List Nat) :
    (gtStackFlush R cache).page = R.page ∧ (gtStackFlush R cache).stackCache = [] := by
  induction cache generalizing R with
  | nil => exact ⟨rfl, rfl⟩
  | cons u cache ih =>
    have hpage : (gtStackUnmap R u R.cachedSize).page = R.page := by
      rw [gtStackUnmap]
      split <;> rfl
    obtain ⟨hflush, hempty⟩ := ih (gtStackUnmap R u R.cachedSize)
    rw [gtStackFlush]
    exact ⟨hflush.trans hpage, hempty⟩

/-- The stacks in use and the cached ones end within the address space. -/
structure Bounded (s₀ s : StackRun Io) : Prop where
  page : s.rt.page = s₀.rt.page
  ends : ∀ x ∈ heldBy s.live s.rt.stackCache s.rt.cachedSize, x.1 + x.2 ≤ 2 ^ 64

/-- What is mapped for a stack is as long as it should be. -/
private theorem stackEvents_len {R : GtRuntime Io} {u size base len : Nat} {prot : Prot}
    (hsized : Sized R.guard R.page (u, size)) (h : .mapped base len prot ∈ stackEvents R size u) :
    len = if R.guard then size + R.page else size := by
  unfold stackEvents at h
  by_cases hg : R.guard
  · rw [if_pos hg] at h ⊢
    rcases List.mem_pair.1 h with h | h
    · cases h
    · rw [Ev.mapped.injEq] at h
      rw [h.2.1, Nat.mod_eq_of_lt (hsized.fits hg).2]
  · rw [if_neg hg] at h ⊢
    have heq := List.mem_singleton.1 h
    rw [Ev.mapped.injEq] at heq
    exact heq.2.1

/-- The allocation of a stack: it ends within the address space, and its mapping is as long as it should be. -/
private theorem Bounded.alloc (h : Bounded s₀ s) {size : Nat} {m : MapAnswer} (ha : s.Answers (.alloc size m))
    {p : Option Nat} {R' : GtRuntime Io} (hr : gtStackAlloc s.rt size m = (p, R')) :
    Bounded s₀ { s with rt := R', live := (p.map fun u => (u, size)).toList ++ s.live } ∧
      ∀ u, p = some u → u + size ≤ 2 ^ 64 ∧ ∀ new, R'.log = new ++ s.rt.log → ∀ base len prot,
      .mapped base len prot ∈ new →
        len = if s.rt.guard then size + s.rt.page else size := by
  have hmap (hr : gtStackMap s.rt size m = (p, R')) :
      Bounded s₀ { s with rt := R', live := (p.map fun u => (u, size)).toList ++ s.live } ∧
        ∀ u, p = some u → u + size ≤ 2 ^ 64 ∧ ∀ new, R'.log = new ++ s.rt.log → ∀ base len prot,
          .mapped base len prot ∈ new → len = if s.rt.guard then size + s.rt.page else size := by
    rcases gtStackMap_cases ha with heq | ⟨q, total, heq, -⟩ | ⟨u, heq, hsized, hend, -⟩
    · obtain ⟨rfl, rfl⟩ := Prod.mk.inj (heq.symm.trans hr)
      exact ⟨⟨h.page, h.ends⟩, nofun⟩
    · obtain ⟨rfl, rfl⟩ := Prod.mk.inj (heq.symm.trans hr)
      exact ⟨⟨h.page, h.ends⟩, nofun⟩
    · obtain ⟨rfl, rfl⟩ := Prod.mk.inj (heq.symm.trans hr)
      refine ⟨⟨h.page, fun x hx => ?_⟩, fun u' hu' => ?_⟩
      · rcases List.mem_cons.1 hx with rfl | hx
        · exact hend
        · exact h.ends x hx
      · rw [← Option.some_inj.1 hu']
        refine ⟨hend, fun new hlog base len prot hmem => ?_⟩
        rw [← List.append_cancel_right hlog] at hmem
        exact stackEvents_len hsized hmem
  rw [gtStackAlloc] at hr
  split at hr
  · rename_i top rest hcache
    split at hr
    · rename_i hsize
      obtain ⟨rfl, rfl⟩ := Prod.mk.inj hr
      have hends := h.ends
      rw [hcache, hsize] at hends
      refine ⟨⟨h.page, fun x hx => hends x (heldBy_take.symm.subset ?_)⟩, fun u hu => ⟨?_, fun new hlog => ?_⟩⟩
      · dsimp only at hx
        rw [hsize] at hx
        exact hx
      · rw [← Option.some_inj.1 hu]
        exact hends (top, size) (heldBy_take.symm.subset List.mem_cons_self)
      · rw [← List.append_cancel_right (show [] ++ s.rt.log = new ++ s.rt.log from hlog)]
        exact fun b l p hp => (List.not_mem_nil hp).elim
    · exact hmap hr
  · exact hmap hr

private theorem gtStackUnmap_same (R : GtRuntime Io) (u size : Nat) : SameCache R (gtStackUnmap R u size) := by
  rw [gtStackUnmap]
  split <;> exact ⟨rfl, rfl, rfl, rfl⟩

/-- A call. -/
private theorem Bounded.step {s' : StackRun Io} {op : StackOp} (h : Bounded s₀ s) (ha : s.Answers op)
    (hs : s.step op = some s') : Bounded s₀ s' := by
  have hunmap {x : Nat × Nat} (hx : x ∈ s.live) :
      Bounded s₀ { s with rt := gtStackUnmap s.rt x.1 x.2, live := s.live.erase x } := by
    have hsame := gtStackUnmap_same s.rt x.1 x.2
    refine ⟨hsame.page.trans h.page, fun y hy => h.ends y ((heldBy_drop hx).symm.subset ?_)⟩
    dsimp only at hy
    rw [hsame.cache, hsame.cachedSize] at hy
    exact List.mem_cons_of_mem x hy
  have hflush {R : GtRuntime Io} (hpage : R.page = s.rt.page) (hcache : R.stackCache = []) :
      Bounded s₀ { s with rt := R } := by
    refine ⟨hpage.trans h.page, fun x hx => h.ends x ?_⟩
    dsimp only at hx
    rw [hcache, heldBy, List.map_nil, List.append_nil] at hx
    exact mem_heldBy_live hx
  cases op with
  | alloc size m =>
    rw [← Option.some_inj.1 hs]
    exact (h.alloc ha rfl).1
  | free x =>
    rw [StackRun.step] at hs
    split at hs <;> cases hs
    rename_i hx
    rw [gtStackFree]
    split
    · rename_i hroom
      exact ⟨h.page, fun y hy => h.ends y ((heldBy_keep hx hroom.2).symm.subset hy)⟩
    · exact hunmap hx
  | unmap x =>
    rw [StackRun.step] at hs
    split at hs <;> cases hs
    exact hunmap ‹_›
  | flush =>
    obtain ⟨hpage, hempty⟩ := gtStackFlush_fields s.rt s.rt.stackCache
    rw [← Option.some_inj.1 hs]
    exact hflush hpage hempty
  | setStackSize bytes =>
    rw [← Option.some_inj.1 hs]
    exact ⟨h.page, h.ends⟩
  | setGuardPages enabled =>
    rw [← Option.some_inj.1 hs, gtSetGuardPages]
    split
    · exact h
    · obtain ⟨hpage, hempty⟩ := gtStackFlush_fields s.rt s.rt.stackCache
      exact hflush hpage hempty
  | taskAlloc size created =>
    rw [← Option.some_inj.1 hs]
    exact ⟨h.page, h.ends⟩
  | taskFree x =>
    rw [StackRun.step] at hs
    split at hs <;> cases hs
    exact ⟨h.page, h.ends⟩
  | taskUnmap x =>
    rw [StackRun.step] at hs
    split at hs <;> cases hs
    exact ⟨h.page, h.ends⟩
  | tasksFlush =>
    rw [← Option.some_inj.1 hs]
    exact ⟨h.page, h.ends⟩

private theorem StackRun.Reaches.bounded (h₀ : s₀.Fresh) (h : Reaches Answers s₀ s) : Bounded s₀ s := by
  induction h with
  | refl =>
    refine ⟨rfl, fun x hx => ?_⟩
    rw [heldBy, h₀.live, h₀.cache] at hx
    cases hx
  | next op h ha hs ih => exact ih.step ha hs

/-- The stacks of a size of 16 KiB or more are as they should be. -/
private theorem stacksOk_of_le (h₀ : s₀.Fresh) {size : Nat} (hsize : gtStackMin ≤ size) : StacksOk s₀ size := by
  intro s h m u ha hu
  obtain ⟨-, hall⟩ := (h.bounded h₀).alloc ha (Prod.eta (gtStackAlloc s.rt size m)).symm
  obtain ⟨hend, hlen⟩ := hall u hu
  exact ⟨hlen, fun a => a.inside hsize hend⟩

/-- With guard pages there are empty stacks. -/
private theorem not_stacksOk_zero (h₀ : s₀.Fresh) (hpage : s₀.rt.page ≤ 2 ^ 63) : ¬StacksOk s₀ 0 := by
  intro hok
  have hpos := h₀.page
  have hcache := h₀.cache
  have hset : (gtSetGuardPages s₀.rt true).guard = true ∧ (gtSetGuardPages s₀.rt true).page = s₀.rt.page ∧
      (gtSetGuardPages s₀.rt true).stackCache = [] ∧ (gtSetGuardPages s₀.rt true).log = s₀.rt.log := by
    rw [gtSetGuardPages]
    split
    · rename_i hguard
      exact ⟨hguard.symm, rfl, hcache, rfl⟩
    · rw [hcache]
      exact ⟨rfl, rfl, rfl, rfl⟩
  obtain ⟨hguard, hpage', hcache', hlog'⟩ := hset
  have hreach : Reaches Answers s₀ { s₀ with rt := gtSetGuardPages s₀.rt true } :=
    Reaches.refl.next (.setGuardPages true) trivial rfl
  have hmod : (0 + s₀.rt.page) % 2 ^ 64 = s₀.rt.page := by
    rw [Nat.zero_add]
    exact Nat.mod_eq_of_lt (by omega)
  have hanswers : Answers { s₀ with rt := gtSetGuardPages s₀.rt true } (.alloc 0 ⟨some 4096, true⟩) := by
    refine answers_alloc (l := []) (hlog'.symm ▸ h₀.log) (by decide) ?_
    dsimp only
    rw [hguard, if_pos rfl, hpage', hmod]
    exact ⟨hpos, by omega, fun q hq => (List.not_mem_nil hq).elim, fun _ _ => by omega⟩
  have halloc : (gtStackAlloc (gtSetGuardPages s₀.rt true) 0 ⟨some 4096, true⟩).1 =
      some (4096 + (gtSetGuardPages s₀.rt true).page) := by
    rw [gtStackAlloc, hcache', gtStackMap]
    dsimp only
    rw [if_pos hguard]
    rfl
  exact (StackAbi.flat .riscvLp64d).not_inside _ ((hok _ hreach ⟨some 4096, true⟩ _ hanswers halloc).2 _)

/-- The size that is set is as it should be, and the stacks of the size are, exactly if rounding it up to whole pages
does not wrap. -/
theorem stack_size_iff (s₀ s : StackRun Io) (h₀ : s₀.Fresh) (h : Reaches Answers s₀ s) (k : Nat)
    (hk : 12 ≤ k ∧ k < 64) (hpage : s₀.rt.page = 2 ^ k) (bytes : Nat) (hb : bytes < 2 ^ 64) :
    StackSizeOk s₀ s bytes ↔ bytes + s.rt.page ≤ 2 ^ 64 := by
  have hpage' : s.rt.page = 2 ^ k := (h.bounded h₀).page.trans hpage
  have hle : 2 ^ k ≤ 2 ^ 63 := Nat.pow_le_pow_right (by decide) (by omega)
  have hmin : gtStackMin = 16384 := rfl
  rw [StackSizeOk]
  by_cases hfits : max bytes gtStackMin + 2 ^ k ≤ 2 ^ 64
  · obtain ⟨hdvd, hmax⟩ := gtSetStackSize_ok hk.2 hpage' hfits
    refine ⟨fun _ => by omega, fun _ => ⟨Or.inl ⟨hdvd, hmax⟩, ?_⟩⟩
    exact stacksOk_of_le h₀ (Nat.le_trans (Nat.le_max_right _ _) hmax)
  · have hzero := gtSetStackSize_wraps hk.2 hpage' hb (Nat.not_le.1 hfits)
    rw [hzero]
    refine ⟨fun hok => ?_, fun hle => by omega⟩
    exact absurd hok.2 (not_stacksOk_zero h₀ (by omega))

theorem stack_size_iff_mib : StackSizeOk freshRun freshRun (2 ^ 20) ↔ 2 ^ 20 + freshRun.rt.page ≤ 2 ^ 64 :=
  stack_size_iff freshRun freshRun freshRun_fresh Reaches.refl 12 (by decide) rfl (2 ^ 20) (by decide)

/-- A request for almost all of the address space makes the size 0.  The next task gets a stack of that size, and its
block lies below it. -/
theorem huge_stack_size : (gtSetStackSize freshRun.rt (2 ^ 64 - 1)).stackSize = 0 ∧
    (gtStackAlloc freshRun.rt 0 ⟨some 4096, true⟩).1 = some 8192 ∧
    (∀ a : StackAbi, a.primeBase 8192 0 < 8192) ∧ ¬StackSizeOk freshRun freshRun (2 ^ 64 - 1) := by
  refine ⟨?_, rfl, fun a => ?_, fun hok => ?_⟩
  · exact gtSetStackSize_wraps (k := 12) (by decide) rfl (by decide) (by decide)
  · obtain ⟨hpos, hle⟩ := a.below_le
    rw [StackAbi.primeBase, primeTop_eq]
    omega
  · have hzero : (gtSetStackSize freshRun.rt (2 ^ 64 - 1)).stackSize = 0 :=
      gtSetStackSize_wraps (k := 12) (by decide) rfl (by decide) (by decide)
    have hstacks := hok.2
    rw [hzero] at hstacks
    exact not_stacksOk_zero freshRun_fresh (by decide) hstacks

end Sppc
