import Sppc.Models
import Sppc.Uring
import Sppc.Blocking
import Sppc.RingBuffer

/-!
# The backends deliver what they accept

The stand-in accepts nothing.  The rings of io_uring deliver each operation they accept once, to the task that
submitted it, as long as every submission reaches the kernel: between two calls the submission ring is empty.
-/

namespace Sppc

instance : LawfulIoBackend BlockingIo where
  Ok _ := True
  pending _ := []
  started _ _ := ⟨trivial, rfl⟩
  submit _ _ _ _ _ _ h := by cases h
  collect _ _ _ := ⟨trivial, [], rfl, .nil⟩
  kernel _ _ e _ _ := nomatch e
  teardown _ _ := ⟨trivial, rfl⟩

/-! ### io_uring -/

/-- The task and the number of an operation. -/
def UringSqe.key (e : UringSqe) : Nat × Nat := (e.userData.getD 0, e.op)

def UringCqe.key (e : UringCqe) : Nat × Nat := (e.userData.getD 0, e.op)

/-- The rings between two calls, every submission accepted. -/
structure RingsOk (io : UringIo) : Prop where
  ok : io.ok = true
  sq : ∃ b ≤ 31, io.sqMask = 2 ^ b - 1 ∧ io.sqEntries = 2 ^ b
  cq : ∃ b ≤ 31, io.cqMask = 2 ^ b - 1 ∧ io.cqEntries = 2 ^ b
  submitted : io.sqHead = io.sqTail
  sqTail : io.sqTail < 2 ^ 32
  cqHead : io.cqHead < 2 ^ 32
  cqTail : io.cqTail < 2 ^ 32
  room : ringCount io.cqTail io.cqHead ≤ io.cqEntries
  sqes : ∀ e ∈ io.inKernel, e.userData.isSome
  cqes : ∀ e ∈ uringCompletions io, e.userData.isSome

/-- The operations the kernel has, and those it has completed. -/
def uringPending (io : UringIo) : List (Nat × Nat) :=
  io.inKernel.map UringSqe.key ++ (uringCompletions io).map UringCqe.key

private theorem completions_eq (io : UringIo) {b : Nat} (hm : io.cqMask = 2 ^ b - 1) :
    uringCompletions io = RingBuffer.entries 32 b io.cqes io.cqHead io.cqTail := by
  unfold uringCompletions
  rw [hm]
  rfl

private theorem uringSetup_ok {sqBits cqBits sqStart cqStart : Nat} (hs : sqBits ≤ 31) (hc : cqBits ≤ 31)
    (hss : sqStart < 2 ^ 32) (hcs : cqStart < 2 ^ 32) : RingsOk (UringIo.setup sqBits cqBits sqStart cqStart) ∧
      uringPending (UringIo.setup sqBits cqBits sqStart cqStart) = [] := by
  have hempty : uringCompletions (UringIo.setup sqBits cqBits sqStart cqStart) = [] :=
    (completions_eq _ rfl).trans RingBuffer.entries_self
  refine ⟨⟨rfl, ⟨sqBits, hs, rfl, rfl⟩, ⟨cqBits, hc, rfl, rfl⟩, rfl, hss, hcs, hcs, ?_, ?_, ?_⟩, ?_⟩
  · show RingBuffer.count 32 cqStart cqStart ≤ _
    rw [RingBuffer.count_self]
    exact Nat.zero_le _
  · intro e he
    cases he
  · rw [hempty]
    intro e he
    cases he
  · rw [uringPending, hempty]
    rfl

/-- A submission that is accepted: its entry is the oldest one, so it is the one the kernel takes. -/
private theorem uringSubmit_ok {req : UringReq} {t op : Nat} {io io' : UringIo} (h : RingsOk io)
    (hs : uringSubmit req t io = .parked io' op) :
    RingsOk io' ∧ (uringPending io').Perm ((t, op) :: uringPending io) := by
  obtain ⟨hok, ⟨b, hb, hmask, hentries⟩, ⟨b', hb', hmask', hentries'⟩, hsub, htail, hch, hct, hroom, hsqes,
    hcqes⟩ := h
  have hcount : ringCount io.sqTail io.sqHead = 0 := by rw [hsub]; exact RingBuffer.count_self 32 io.sqTail
  have hfree : ¬ringCount io.sqTail io.sqHead ≥ io.sqEntries := by
    rw [hcount, hentries]
    have := Nat.two_pow_pos b
    omega
  have hnext : io.sqTail ≠ incr 32 io.sqTail := by unfold incr; omega
  unfold uringSubmit gtSqe at hs
  rw [if_neg hfree] at hs
  split at hs
  · cases hs
  · dsimp only at hs
    split at hs
    · cases hs
    · rw [uringSubmitOne, if_neg (by rw [hsub]; exact hnext)] at hs
      simp only [Submitted.parked.injEq, hsub, Function.update_self] at hs
      obtain ⟨rfl, rfl⟩ := hs
      refine ⟨⟨hok, ⟨b, hb, hmask, hentries⟩, ⟨b', hb', hmask', hentries'⟩, rfl, ?_, hch, hct, hroom, ?_, hcqes⟩, ?_⟩
      · exact Nat.mod_lt _ (by decide)
      · intro e he
        rcases List.mem_append.1 he with he | he
        · exact hsqes e he
        · rw [List.mem_singleton.1 he]
          rfl
      · simp only [uringPending, List.map_append, List.map_singleton]
        refine List.Perm.trans (List.Perm.append_right _ List.perm_append_comm) ?_
        exact .refl _

/-- A poll takes the completions there are. -/
private theorem uringCollect_ok {io : UringIo} (h : RingsOk io) : RingsOk (uringCollect io).2 ∧
    (uringCollect io).1.map (fun c => (c.task, c.op)) =
      ((uringCompletions io).map UringCqe.key).map (fun k => (some k.1, k.2)) ∧
    (uringPending io).Perm ((uringCompletions io).map UringCqe.key ++ uringPending (uringCollect io).2) := by
  obtain ⟨hok, hsq, ⟨b, hb, hmask, hentries⟩, hsub, htail, hch, hct, hroom, hsqes, hcqes⟩ := h
  have hempty : uringCompletions (uringCollect io).2 = [] :=
    (completions_eq (uringCollect io).2 hmask).trans RingBuffer.entries_self
  refine ⟨⟨hok, hsq, ⟨b, hb, hmask, hentries⟩, hsub, htail, hct, hct, ?_, hsqes, ?_⟩, ?_, ?_⟩
  · show RingBuffer.count 32 io.cqTail io.cqTail ≤ _
    rw [RingBuffer.count_self]
    exact Nat.zero_le _
  · rw [hempty]
    intro e he
    cases he
  · simp only [uringCollect, List.map_map]
    refine List.map_congr_left fun c hc => ?_
    obtain ⟨t, ht⟩ := Option.isSome_iff_exists.1 (hcqes c hc)
    simp [UringCqe.key, ht]
  · simp only [uringPending, hempty, List.map_nil, List.append_nil]
    exact List.perm_append_comm

/-- A completion moves an operation from the kernel to the completion ring. -/
private theorem uringKernel_ok {io io' : UringIo} {e : UringEnv} (h : RingsOk io) (hk : uringKernel e io = some io') :
    RingsOk io' ∧ (uringPending io').Perm (uringPending io) := by
  obtain ⟨hok, hsq, ⟨b, hb, hmask, hentries⟩, hsub, htail, hch, hct, hroom, hsqes, hcqes⟩ := h
  cases e with
  | complete k res =>
    simp only [uringKernel] at hk
    split at hk
    · cases hk
    · rename_i sqe hsqe
      split at hk
      · cases hk
      · rename_i hnotfull
        cases hk
        have hlt : RingBuffer.count 32 io.cqTail io.cqHead < 2 ^ b := by
          rw [← hentries]
          exact Nat.lt_of_not_le hnotfull
        have hpow : 2 ^ b < 2 ^ 32 := Nat.pow_lt_pow_right (by omega) (by omega)
        obtain ⟨hk, hget⟩ := List.getElem?_eq_some_iff.1 hsqe
        have hmem : sqe ∈ io.inKernel := List.mem_of_getElem? hsqe
        have hpush : uringCompletions { io with
            inKernel := io.inKernel.eraseIdx k
            cqes := Function.update io.cqes (io.cqTail &&& io.cqMask) ⟨sqe.userData, res, sqe.op⟩
            cqTail := incr 32 io.cqTail } = uringCompletions io ++ [⟨sqe.userData, res, sqe.op⟩] := by
          rw [completions_eq io hmask, hmask]
          refine Eq.trans (completions_eq _ (b := b) ?_) ?_
          · rfl
          exact RingBuffer.entries_push (by omega) hch hct hlt _
        have hperm : (io.inKernel.eraseIdx k ++ [sqe]).Perm io.inKernel := by
          refine List.perm_append_comm.trans ?_
          rw [← hget]
          exact List.getElem_cons_eraseIdx_perm hk
        refine ⟨⟨hok, hsq, ⟨b, hb, hmask, hentries⟩, hsub, htail, hch, Nat.mod_lt _ (by decide), ?_, ?_, ?_⟩, ?_⟩
        · show RingBuffer.count 32 ((io.cqTail + 1) % 2 ^ 32) io.cqHead ≤ _
          rw [RingBuffer.count_succ hch hct (by omega), hentries]
          omega
        · exact fun e he => hsqes e (List.mem_of_mem_eraseIdx he)
        · rw [hpush]
          intro c hc
          rcases List.mem_append.1 hc with hc | hc
          · exact hcqes c hc
          · rw [List.mem_singleton.1 hc]
            exact hsqes sqe hmem
        · simp only [uringPending, hpush, List.map_append, List.map_singleton]
          have := (hperm.map UringSqe.key).append_right ((uringCompletions io).map UringCqe.key)
          rw [List.map_append, List.map_singleton, List.append_assoc] at this
          refine List.Perm.trans (List.Perm.append_left _ ?_) this
          exact List.perm_append_comm

/-- Where the rings were not set up there is nothing to take. -/
private theorem uringCollect_zero : uringCollect UringIo.zero = ([], UringIo.zero) := by
  have hempty : uringCompletions UringIo.zero = [] := (completions_eq _ (b := 0) rfl).trans RingBuffer.entries_self
  rw [uringCollect, hempty]
  rfl

instance : LawfulIoBackend UringIo where
  Ok io := io = UringIo.zero ∨ RingsOk io
  pending := uringPending
  started io h := by
    rcases h with rfl | ⟨sqBits, cqBits, sqStart, cqStart, hs, hc, hss, hcs, rfl⟩
    · exact ⟨.inl rfl, rfl⟩
    · obtain ⟨hok, hp⟩ := uringSetup_ok hs hc hss hcs
      exact ⟨.inr hok, hp⟩
  submit io io' req t op h hs := by
    rcases h with rfl | h
    · -- a ring of no entries is always full
      have hnone : gtSqe UringIo.zero = none := rfl
      replace hs : uringSubmit req t UringIo.zero = .parked io' op := hs
      rw [uringSubmit, hnone] at hs
      split at hs <;> cases hs
    · obtain ⟨hok, hp⟩ := uringSubmit_ok h hs
      exact ⟨.inr hok, hp⟩
  collect io wait h := by
    rcases h with rfl | h
    · show ((uringCollect UringIo.zero).2 = UringIo.zero ∨ RingsOk (uringCollect UringIo.zero).2) ∧
        ∃ taken : List (Nat × Nat), (uringCollect UringIo.zero).1.map (fun c => (c.task, c.op)) =
          taken.map (fun k => (some k.1, k.2)) ∧
          (uringPending UringIo.zero).Perm (taken ++ uringPending (uringCollect UringIo.zero).2)
      rw [uringCollect_zero]
      exact ⟨.inl rfl, [], rfl, .refl _⟩
    · obtain ⟨hok, hc, hp⟩ := uringCollect_ok h
      exact ⟨.inr hok, _, hc, hp⟩
  kernel io io' e h hk := by
    rcases h with rfl | h
    · cases e with
      | complete k res =>
        change uringKernel (.complete k res) UringIo.zero = some io' at hk
        simp [uringKernel, UringIo.zero] at hk
    · obtain ⟨hok, hp⟩ := uringKernel_ok h hk
      exact ⟨.inr hok, hp⟩
  teardown io h := by
    show (uringTeardown io = UringIo.zero ∨ RingsOk (uringTeardown io)) ∧ uringPending (uringTeardown io) = []
    have hzero : uringTeardown io = UringIo.zero := by
      unfold uringTeardown
      rcases h with rfl | h
      · rfl
      · rw [if_pos h.ok]
    rw [hzero]
    exact ⟨.inl rfl, rfl⟩

end Sppc
