import Sppc.Calls
import Sppc.RingBuffer
import Sppc.Uring

/-!
# The counters of the rings (`async/io_uring.h`)

`_gt_sqe` and `_gt_io_poll` one access at a time, with a kernel that takes submission entries and appends completions
at any moment between.  `io.ops` numbers the entries claimed, and `op` on an entry is its number.
-/

namespace Sppc

/-- Where the thread is: outside, or before an access of `_gt_sqe` or of `_gt_io_poll`. -/
inductive RingPc
  | out
  | sqeHead (tail : Nat) | sqeClear (idx tail : Nat) | sqeArray (idx tail : Nat) | sqePublish (idx tail : Nat)
  | pollTail (head : Nat) | pollLoop (head tail : Nat)
  deriving DecidableEq, Repr

/-- The rings, `_gt_R.inflight` and what the last `_gt_sqe` returned.  The rest is not stored: the entries that the
kernel has taken and the completions it has appended, those that have been processed and how many of them the kernel
was told of, and how many had been appended when a poll last looked. -/
structure RingState where
  io : UringIo
  inflight : Nat
  pc : RingPc
  ret : Option Nat
  consumed : List UringSqe
  appended : List UringCqe
  processed : List UringCqe
  freed : Nat
  seen : Nat

/-- The calls of the thread, and its next access; its callers count an operation or fill their entry in; the kernel
takes an entry or appends a completion. -/
inductive RingEvent
  | sqe | poll | run
  | count (inflight : Nat)
  | fill (sqe : UringSqe)
  | consume
  | complete (cqe : UringCqe)
  deriving DecidableEq, Repr

/-- The entry of `_gt_sqe`, once it has read both counters: `none` is `NULL`. -/
def gtSqeIdx (io : UringIo) (tail head : Nat) : Option Nat :=
  if ringCount tail head ≥ io.sqEntries then none else some (tail &&& io.sqMask)

/-- The next access of the thread. -/
def ringRun (s : RingState) : Option RingState :=
  match s.pc with
  | .out => none
  | .sqeHead tail =>
    match gtSqeIdx s.io tail s.io.sqHead with
    | none => some { s with pc := .out, ret := none }
    | some idx => some { s with pc := .sqeClear idx tail }
  | .sqeClear idx tail =>
    some { s with
      io := { s.io with sqes := Function.update s.io.sqes idx { UringSqe.zero with op := s.io.ops } }
      pc := .sqeArray idx tail }
  | .sqeArray idx tail =>
    some { s with io := { s.io with sqArray := Function.update s.io.sqArray idx idx }, pc := .sqePublish idx tail }
  | .sqePublish idx tail =>
    some { s with io := { s.io with sqTail := incr 32 tail, ops := s.io.ops + 1 }, pc := .out, ret := some idx }
  | .pollTail head => some { s with pc := .pollLoop head s.io.cqTail, seen := s.appended.length }
  | .pollLoop head tail =>
    if head = tail then some { s with io := { s.io with cqHead := head }, pc := .out, freed := s.processed.length }
    else
      some { s with
        processed := s.processed ++ [s.io.cqes (head &&& s.io.cqMask)]
        inflight := (s.inflight + (2 ^ 32 - 1)) % 2 ^ 32
        pc := .pollLoop (incr 32 head) tail }

/-- One step of the thread, its callers or the kernel. -/
def ringStep (s : RingState) : RingEvent → Option RingState
  | .sqe => if s.pc = .out then some { s with pc := .sqeHead s.io.sqTail } else none
  | .poll =>
    if s.pc = .out then some (if s.io.ok = false ∨ s.inflight = 0 then s else { s with pc := .pollTail s.io.cqHead })
    else none
  | .run => ringRun s
  | .count inflight => if s.pc = .out then some { s with inflight := inflight } else none
  | .fill sqe =>
    if s.pc = .out then
      s.ret.map fun idx => { s with
        io := { s.io with sqes := Function.update s.io.sqes idx { sqe with op := (s.io.sqes idx).op } } }
    else none
  | .consume =>
    if s.io.sqHead = s.io.sqTail then none
    else
      some { s with
        consumed := s.consumed ++ [s.io.sqes (s.io.sqArray (s.io.sqHead &&& s.io.sqMask))]
        io := { s.io with sqHead := incr 32 s.io.sqHead } }
  | .complete cqe =>
    if ringCount s.io.cqTail s.io.cqHead < s.io.cqEntries then
      some { s with
        io := { s.io with
          cqes := Function.update s.io.cqes (s.io.cqTail &&& s.io.cqMask) cqe
          cqTail := incr 32 s.io.cqTail }
        appended := s.appended ++ [cqe] }
    else none

/-- The rings as they are set up. -/
def RingState.init (sqBits cqBits sqStart cqStart : Nat) : RingState :=
  ⟨.setup sqBits cqBits sqStart cqStart, 0, .out, none, [], [], [], 0, 0⟩

/-- The place of the `j`th entry of a ring of `2 ^ bits`, whose counters started at `start`. -/
def ringPlace (bits start j : Nat) : Nat := RingBuffer.place bits ((start + j) % 2 ^ 32)

/-- The entries that have been claimed and not taken by the kernel. -/
def RingState.unconsumed (s : RingState) : Nat := s.io.ops - s.consumed.length

/-- The `k`th of the entries that the kernel has not taken, as the ring has it. -/
def RingState.entry (s : RingState) (k : Nat) : UringSqe :=
  s.io.sqes (s.io.sqArray ((s.io.sqHead + k) % 2 ^ 32 &&& s.io.sqMask))

/-- The entry that a `_gt_sqe` is about to write, to put into the array or to publish. -/
def RingPc.claims (idx : Nat) : RingPc → Prop
  | .sqeClear i _ | .sqeArray i _ | .sqePublish i _ => i = idx
  | _ => False

/-! ### What the calls are to do -/

/-- A `_gt_sqe` that was called in `s` and is back in `s'`: it returns `NULL` where the ring was full, and has done
nothing; or, not being full any more, it returns the place at the tail, cleared, in the array, and published by the
new tail. -/
structure SqeReturns (s s' : RingState) : Prop where
  null : s'.ret = none → s.unconsumed = s.io.sqEntries ∧ s'.io.sqTail = s.io.sqTail ∧ s'.io.ops = s.io.ops ∧
    s'.io.sqArray = s.io.sqArray ∧ s'.io.sqes = s.io.sqes
  entry : ∀ idx, s'.ret = some idx → s.io.ops < s'.consumed.length + s.io.sqEntries ∧
    idx = s.io.sqTail &&& s.io.sqMask ∧ s'.io.sqTail = incr 32 s.io.sqTail ∧ s'.io.ops = s.io.ops + 1 ∧
    s'.io.sqArray idx = idx ∧ s'.io.sqes idx = { UringSqe.zero with op := s.io.ops }

/-- A `_gt_io_poll` that was called in `s` and is back in `s'`: it does nothing without a ring or anything in flight;
else it has processed the first `n` completions, among them all that were there when it was called, and told the
kernel so. -/
structure PollReturns (s s' : RingState) : Prop where
  idle : s.io.ok = false ∨ s.inflight = 0 → s' = s
  done : s.io.ok = true → s.inflight ≠ 0 → ∃ n, s.appended.length ≤ n ∧ n ≤ s'.appended.length ∧
    s'.processed = s'.appended.take n ∧ ringCount s'.io.cqTail s'.io.cqHead = s'.appended.length - n ∧
    (s'.inflight + (n - s.processed.length)) % 2 ^ 32 = s.inflight % 2 ^ 32

/-- `_gt_sqe` finds the ring full where it is, and otherwise claims an entry that the kernel is not still to take;
what is published is there, with the tail that says so, and no step of the thread's calls changes it; the kernel takes
the entries as and in the order they were claimed; a poll processes the completions in the order they were appended,
none twice, and is over exactly when it has those that were there when it looked; and calls return what they are to
return. -/
structure RingOk (s : RingState) : Prop where
  full : ∀ tail s', s.pc = .sqeHead tail → ringStep s .run = some s' →
    (s'.pc = .out ↔ s.unconsumed = s.io.sqEntries) ∧ (s'.pc = .out → s'.ret = none)
  fresh : ∀ idx, s.pc.claims idx → ∀ k < s.unconsumed, s.io.sqArray ((s.io.sqHead + k) % 2 ^ 32 &&& s.io.sqMask) ≠ idx
  tail : s.io.sqTail = (s.io.sqHead + s.unconsumed) % 2 ^ 32
  published : ∀ k < s.unconsumed, (s.entry k).op = s.consumed.length + k
  keeps : ∀ s', ringStep s .run = some s' → ∀ k < s.unconsumed, s'.entry k = s.entry k
  consumed : s.consumed.map (·.op) = List.range s.consumed.length
  processed : s.processed <+: s.appended
  polled : ∀ head tail, s.pc = .pollLoop head tail →
    s.seen ≤ s.appended.length ∧ (head = tail ↔ s.processed.length = s.seen) ∧
      (head ≠ tail → s.appended[s.processed.length]? = some (s.io.cqes (head &&& s.io.cqMask)))
  sqe : ∀ s', Transition.During ringStep (·.pc = .out) s .sqe s' → s'.pc = .out → SqeReturns s s'
  poll : ∀ s', Transition.During ringStep (·.pc = .out) s .poll s' → s'.pc = .out → PollReturns s s'

/-! ### The invariant -/

variable {a b ss cs : Nat} {s s' : RingState}

/-- The sizes of the rings, which stay as they are. -/
structure RingSizes (a b : Nat) (io : UringIo) : Prop where
  sqMask : io.sqMask = 2 ^ a - 1
  sqEntries : io.sqEntries = 2 ^ a
  cqMask : io.cqMask = 2 ^ b - 1
  cqEntries : io.cqEntries = 2 ^ b

/-- The counters have gone on from their starts by what was claimed and taken; what is still to take is
in its place. -/
structure SqOk (a ss : Nat) (s : RingState) : Prop where
  tail : s.io.sqTail = (ss + s.io.ops) % 2 ^ 32
  head : s.io.sqHead = (ss + s.consumed.length) % 2 ^ 32
  le : s.consumed.length ≤ s.io.ops
  room : s.io.ops ≤ s.consumed.length + 2 ^ a
  array : ∀ j, s.consumed.length ≤ j → j < s.io.ops → s.io.sqArray (ringPlace a ss j) = ringPlace a ss j
  sqes : ∀ j, s.consumed.length ≤ j → j < s.io.ops → (s.io.sqes (ringPlace a ss j)).op = j
  consumed : s.consumed.map (·.op) = List.range s.consumed.length

/-- And so by what was appended and given back; what is not given back is in its place. -/
structure CqOk (b cs : Nat) (s : RingState) : Prop where
  tail : s.io.cqTail = (cs + s.appended.length) % 2 ^ 32
  head : s.io.cqHead = (cs + s.freed) % 2 ^ 32
  freed : s.freed ≤ s.processed.length
  processed : s.processed = s.appended.take s.processed.length
  le : s.processed.length ≤ s.appended.length
  room : s.appended.length ≤ s.freed + 2 ^ b
  cqes : ∀ j, s.freed ≤ j → ∀ h : j < s.appended.length, s.io.cqes (ringPlace b cs j) = s.appended[j]

/-- What the thread has read is what it is to be. -/
def RingState.PcOk (a ss cs : Nat) (s : RingState) : Prop :=
  match s.pc with
  | .out => True
  | .sqeHead tail => tail = s.io.sqTail
  | .sqeClear idx tail => tail = s.io.sqTail ∧ idx = ringPlace a ss s.io.ops ∧ s.io.ops < s.consumed.length + 2 ^ a
  | .sqeArray idx tail =>
    tail = s.io.sqTail ∧ idx = ringPlace a ss s.io.ops ∧ s.io.ops < s.consumed.length + 2 ^ a ∧
      (s.io.sqes idx).op = s.io.ops
  | .sqePublish idx tail =>
    tail = s.io.sqTail ∧ idx = ringPlace a ss s.io.ops ∧ s.io.ops < s.consumed.length + 2 ^ a ∧
      (s.io.sqes idx).op = s.io.ops ∧ s.io.sqArray idx = idx
  | .pollTail head => head = s.io.cqHead
  | .pollLoop head tail =>
    head = (cs + s.processed.length) % 2 ^ 32 ∧ tail = (cs + s.seen) % 2 ^ 32 ∧ s.processed.length ≤ s.seen ∧
      s.seen ≤ s.appended.length

structure RingInv (a b ss cs : Nat) (s : RingState) : Prop where
  sizes : RingSizes a b s.io
  submissions : SqOk a ss s
  completions : CqOk b cs s
  pc : s.PcOk a ss cs
  freed : (∀ head tail, s.pc ≠ .pollLoop head tail) → s.freed = s.processed.length

private theorem RingInv.init (a b : Nat) (hss : ss < 2 ^ 32) (hcs : cs < 2 ^ 32) :
    RingInv a b ss cs (.init a b ss cs) where
  sizes := ⟨rfl, rfl, rfl, rfl⟩
  submissions :=
    ⟨(Nat.mod_eq_of_lt hss).symm, (Nat.mod_eq_of_lt hss).symm, le_rfl, Nat.zero_le _,
      fun _ _ h => absurd h (Nat.not_lt_zero _), fun _ _ h => absurd h (Nat.not_lt_zero _), rfl⟩
  completions :=
    ⟨(Nat.mod_eq_of_lt hcs).symm, (Nat.mod_eq_of_lt hcs).symm, le_rfl, rfl, le_rfl, Nat.zero_le _,
      fun _ _ h => absurd h (Nat.not_lt_zero _)⟩
  pc := trivial
  freed _ := rfl

private theorem two_pow_lt (ha : a ≤ 31) : 2 ^ a < 2 ^ 32 := Nat.pow_lt_pow_right (by decide) (by omega)

private theorem ringPlace_eq (bits start j : Nat) :
    (start + j) % 2 ^ 32 &&& (2 ^ bits - 1) = ringPlace bits start j := rfl

/-- Entries less than a ring's length apart are in different places. -/
private theorem ringPlace_ne {i j : Nat} (ha : a ≤ 31) (hij : i < j) (hj : j < i + 2 ^ a) :
    ringPlace a ss i ≠ ringPlace a ss j := by
  have hne : RingBuffer.place a ((ss + i + 0) % 2 ^ 32) ≠ RingBuffer.place a ((ss + i + (j - i)) % 2 ^ 32) :=
    RingBuffer.place_ne (by omega) (by omega) (by omega)
  rwa [Nat.add_zero, show ss + i + (j - i) = ss + j by omega] at hne

/-- What the thread reads of the counters of submissions says how many entries are not taken. -/
private theorem SqOk.count (hs : SqOk a ss s) (ha : a ≤ 31) :
    ringCount s.io.sqTail s.io.sqHead = s.unconsumed := by
  have hlt := two_pow_lt ha
  have := hs.room
  rw [hs.tail, hs.head]
  exact RingBuffer.count_of_le hs.le (by omega)

/-- The ring is full, or the entry at the tail is of no place that is still to take. -/
private theorem RingInv.gtSqeIdx (hi : RingInv a b ss cs s) (ha : a ≤ 31) :
    (s.unconsumed = 2 ^ a ∧ gtSqeIdx s.io s.io.sqTail s.io.sqHead = none) ∨
      (s.unconsumed < 2 ^ a ∧ gtSqeIdx s.io s.io.sqTail s.io.sqHead = some (ringPlace a ss s.io.ops)) := by
  have hroom := hi.submissions.room
  have hle := hi.submissions.le
  have hun : s.unconsumed = s.io.ops - s.consumed.length := rfl
  rw [Sppc.gtSqeIdx, hi.submissions.count ha, hi.sizes.sqEntries]
  by_cases hfull : s.unconsumed ≥ 2 ^ a
  · exact Or.inl ⟨by omega, if_pos hfull⟩
  · refine Or.inr ⟨by omega, ?_⟩
    rw [if_neg hfull, hi.submissions.tail, hi.sizes.sqMask, ringPlace_eq]

/-! ### What each step keeps -/

/-- The thread has made an access of its own that changes none of the entries. -/
private theorem RingInv.move (hi : RingInv a b ss cs s) {pc : RingPc} {ret : Option Nat} {inflight seen : Nat}
    (hpc : { s with pc := pc, ret := ret, inflight := inflight, seen := seen : RingState }.PcOk a ss cs)
    (hfreed : (∀ head tail, pc ≠ .pollLoop head tail) → s.freed = s.processed.length) :
    RingInv a b ss cs { s with pc := pc, ret := ret, inflight := inflight, seen := seen } where
  sizes := hi.sizes
  submissions := ⟨hi.submissions.tail, hi.submissions.head, hi.submissions.le, hi.submissions.room,
    hi.submissions.array, hi.submissions.sqes, hi.submissions.consumed⟩
  completions := ⟨hi.completions.tail, hi.completions.head, hi.completions.freed, hi.completions.processed,
    hi.completions.le, hi.completions.room, hi.completions.cqes⟩
  pc := hpc
  freed := hfreed

/-- The thread is outside, and calls. -/
private theorem RingInv.outside (hi : RingInv a b ss cs s) (hout : s.pc = .out) : s.freed = s.processed.length :=
  hi.freed fun head tail h => by rw [hout] at h; cases h

/-- The entry is cleared. -/
private theorem RingInv.clear (hi : RingInv a b ss cs s) (ha : a ≤ 31) {idx tail : Nat}
    (hpc : s.pc = .sqeClear idx tail) : RingInv a b ss cs { s with
      io := { s.io with sqes := Function.update s.io.sqes idx { UringSqe.zero with op := s.io.ops } }
      pc := .sqeArray idx tail } := by
  have hok := hi.pc
  rw [RingState.PcOk, hpc] at hok
  obtain ⟨rfl, rfl, hroom⟩ := hok
  have hs := hi.submissions
  refine ⟨⟨hi.sizes.sqMask, hi.sizes.sqEntries, hi.sizes.cqMask, hi.sizes.cqEntries⟩,
    ⟨hs.tail, hs.head, hs.le, hs.room, hs.array, fun j hj hlt => ?_, hs.consumed⟩,
    ⟨hi.completions.tail, hi.completions.head, hi.completions.freed, hi.completions.processed, hi.completions.le,
      hi.completions.room, hi.completions.cqes⟩, ⟨rfl, rfl, hroom, ?_⟩, fun _ => hi.freed fun _ _ h => by
        rw [hpc] at h; cases h⟩
  · have hj' : s.consumed.length ≤ j := hj
    have hlt' : j < s.io.ops := hlt
    dsimp only
    rw [Function.update_of_ne (ringPlace_ne ha hlt' (by omega))]
    exact hs.sqes j hj hlt
  · dsimp only
    rw [Function.update_self]

/-- Its place is put into the array. -/
private theorem RingInv.array (hi : RingInv a b ss cs s) (ha : a ≤ 31) {idx tail : Nat}
    (hpc : s.pc = .sqeArray idx tail) : RingInv a b ss cs { s with
      io := { s.io with sqArray := Function.update s.io.sqArray idx idx }
      pc := .sqePublish idx tail } := by
  have hok := hi.pc
  rw [RingState.PcOk, hpc] at hok
  obtain ⟨rfl, rfl, hroom, hop⟩ := hok
  have hs := hi.submissions
  refine ⟨⟨hi.sizes.sqMask, hi.sizes.sqEntries, hi.sizes.cqMask, hi.sizes.cqEntries⟩,
    ⟨hs.tail, hs.head, hs.le, hs.room, fun j hj hlt => ?_, hs.sqes, hs.consumed⟩,
    ⟨hi.completions.tail, hi.completions.head, hi.completions.freed, hi.completions.processed, hi.completions.le,
      hi.completions.room, hi.completions.cqes⟩, ⟨rfl, rfl, hroom, hop, ?_⟩,
    fun _ => hi.freed fun _ _ h => by rw [hpc] at h; cases h⟩
  · have hj' : s.consumed.length ≤ j := hj
    have hlt' : j < s.io.ops := hlt
    dsimp only
    rw [Function.update_of_ne (ringPlace_ne ha hlt' (by omega))]
    exact hs.array j hj hlt
  · dsimp only
    rw [Function.update_self]

/-- The tail is stored, and the entry with it. -/
private theorem RingInv.publish (hi : RingInv a b ss cs s) {idx tail : Nat} (hpc : s.pc = .sqePublish idx tail) :
    RingInv a b ss cs { s with
      io := { s.io with sqTail := incr 32 tail, ops := s.io.ops + 1 }
      pc := .out
      ret := some idx } := by
  have hok := hi.pc
  rw [RingState.PcOk, hpc] at hok
  obtain ⟨rfl, rfl, hroom, hop, harray⟩ := hok
  have hs := hi.submissions
  refine ⟨⟨hi.sizes.sqMask, hi.sizes.sqEntries, hi.sizes.cqMask, hi.sizes.cqEntries⟩,
    ⟨?_, hs.head, Nat.le_succ_of_le hs.le, hroom, fun j hj hlt => ?_, fun j hj hlt => ?_, hs.consumed⟩,
    ⟨hi.completions.tail, hi.completions.head, hi.completions.freed, hi.completions.processed, hi.completions.le,
      hi.completions.room, hi.completions.cqes⟩, trivial, fun _ => hi.freed fun _ _ h => by rw [hpc] at h; cases h⟩
  · dsimp only
    rw [incr, hs.tail, Nat.mod_add_mod, Nat.add_assoc]
  · rcases Nat.lt_or_eq_of_le (Nat.le_of_lt_succ hlt) with hlt | rfl
    · exact hs.array j hj hlt
    · exact harray
  · rcases Nat.lt_or_eq_of_le (Nat.le_of_lt_succ hlt) with hlt | rfl
    · exact hs.sqes j hj hlt
    · exact hop

/-- The caller fills its entry in. -/
private theorem RingInv.fill (hi : RingInv a b ss cs s) (hout : s.pc = .out) (idx : Nat) (sqe : UringSqe) :
    RingInv a b ss cs { s with
      io := { s.io with sqes := Function.update s.io.sqes idx { sqe with op := (s.io.sqes idx).op } } } := by
  have hs := hi.submissions
  refine ⟨⟨hi.sizes.sqMask, hi.sizes.sqEntries, hi.sizes.cqMask, hi.sizes.cqEntries⟩,
    ⟨hs.tail, hs.head, hs.le, hs.room, hs.array, fun j hj hlt => ?_, hs.consumed⟩,
    ⟨hi.completions.tail, hi.completions.head, hi.completions.freed, hi.completions.processed, hi.completions.le,
      hi.completions.room, hi.completions.cqes⟩, ?_, fun _ => hi.outside hout⟩
  · dsimp only
    rw [Function.update_apply]
    split
    · rename_i heq
      rw [← heq]
      exact hs.sqes j hj hlt
    · exact hs.sqes j hj hlt
  · rw [RingState.PcOk]
    dsimp only
    rw [hout]
    trivial

/-- The kernel takes the oldest entry that is still to take. -/
private theorem RingInv.consume (hi : RingInv a b ss cs s) (hne : s.io.sqHead ≠ s.io.sqTail) :
    RingInv a b ss cs { s with
      consumed := s.consumed ++ [s.io.sqes (s.io.sqArray (s.io.sqHead &&& s.io.sqMask))]
      io := { s.io with sqHead := incr 32 s.io.sqHead } } := by
  have hs := hi.submissions
  have hlt : s.consumed.length < s.io.ops := by
    have hle := hs.le
    rcases Nat.lt_or_eq_of_le hle with hlt | heq
    · exact hlt
    · exact absurd (by rw [hs.head, hs.tail, heq]) hne
  have hplace : s.io.sqHead &&& s.io.sqMask = ringPlace a ss s.consumed.length := by
    rw [hs.head, hi.sizes.sqMask, ringPlace_eq]
  have htaken : (s.io.sqes (s.io.sqArray (s.io.sqHead &&& s.io.sqMask))).op = s.consumed.length := by
    rw [hplace, hs.array _ le_rfl hlt, hs.sqes _ le_rfl hlt]
  have hlength : (s.consumed ++ [s.io.sqes (s.io.sqArray (s.io.sqHead &&& s.io.sqMask))]).length =
      s.consumed.length + 1 :=
    List.length_append
  have hpc := hi.pc
  refine ⟨⟨hi.sizes.sqMask, hi.sizes.sqEntries, hi.sizes.cqMask, hi.sizes.cqEntries⟩,
    ⟨hs.tail, ?_, ?_, ?_, fun j hj hlt => ?_, fun j hj hlt => ?_, ?_⟩,
    ⟨hi.completions.tail, hi.completions.head, hi.completions.freed, hi.completions.processed, hi.completions.le,
      hi.completions.room, hi.completions.cqes⟩, ?_, hi.freed⟩
  · dsimp only
    rw [hlength, incr, hs.head, Nat.mod_add_mod, Nat.add_assoc]
  · dsimp only
    omega
  · dsimp only
    have := hs.room
    omega
  · dsimp only at hj hlt
    exact hs.array j (by omega) hlt
  · dsimp only at hj hlt
    exact hs.sqes j (by omega) hlt
  · dsimp only
    rw [List.map_append, hs.consumed, hlength, List.range_succ, List.map_singleton, htaken]
  · -- what the thread has read of the ring is still so: only the kernel's head has moved
    unfold RingState.PcOk at hpc ⊢
    dsimp only
    rw [hlength]
    cases hc : s.pc with
    | sqeClear idx tail =>
      rw [hc] at hpc
      exact ⟨hpc.1, hpc.2.1, by omega⟩
    | sqeArray idx tail =>
      rw [hc] at hpc
      exact ⟨hpc.1, hpc.2.1, by omega, hpc.2.2.2⟩
    | sqePublish idx tail =>
      rw [hc] at hpc
      exact ⟨hpc.1, hpc.2.1, by omega, hpc.2.2.2⟩
    | _ =>
      rw [hc] at hpc
      exact hpc

/-- The kernel appends a completion where it has room. -/
private theorem RingInv.complete (hi : RingInv a b ss cs s) (hb : b ≤ 31) (cqe : UringCqe)
    (hroom : ringCount s.io.cqTail s.io.cqHead < s.io.cqEntries) :
    RingInv a b ss cs { s with
      io := { s.io with
        cqes := Function.update s.io.cqes (s.io.cqTail &&& s.io.cqMask) cqe
        cqTail := incr 32 s.io.cqTail }
      appended := s.appended ++ [cqe] } := by
  have hc := hi.completions
  have hlt := two_pow_lt hb
  have hfl : s.freed ≤ s.appended.length := hc.freed.trans hc.le
  have hcount : ringCount s.io.cqTail s.io.cqHead = s.appended.length - s.freed := by
    have := hc.room
    rw [hc.tail, hc.head]
    exact RingBuffer.count_of_le hfl (by omega)
  have hplace : s.io.cqTail &&& s.io.cqMask = ringPlace b cs s.appended.length := by
    rw [hc.tail, hi.sizes.cqMask, ringPlace_eq]
  rw [hcount, hi.sizes.cqEntries] at hroom
  have hpc := hi.pc
  have hlength : (s.appended ++ [cqe]).length = s.appended.length + 1 := List.length_append
  refine ⟨⟨hi.sizes.sqMask, hi.sizes.sqEntries, hi.sizes.cqMask, hi.sizes.cqEntries⟩,
    ⟨hi.submissions.tail, hi.submissions.head, hi.submissions.le, hi.submissions.room, hi.submissions.array,
      hi.submissions.sqes, hi.submissions.consumed⟩,
    ⟨?_, hc.head, hc.freed, ?_, ?_, ?_, fun j hj hlt => ?_⟩, ?_, hi.freed⟩
  · dsimp only
    rw [hlength, incr, hc.tail, Nat.mod_add_mod, Nat.add_assoc]
  · dsimp only
    rw [List.take_append_of_le_length hc.le]
    exact hc.processed
  · dsimp only
    have := hc.le
    omega
  · dsimp only
    omega
  · have hj' : s.freed ≤ j := hj
    dsimp only at hlt ⊢
    rw [hlength] at hlt
    rw [hplace, Function.update_apply]
    rcases Nat.lt_or_eq_of_le (Nat.le_of_lt_succ hlt) with hlt | rfl
    · rw [if_neg (ringPlace_ne hb hlt (by omega)), List.getElem_append_left hlt]
      exact hc.cqes j hj hlt
    · rw [if_pos rfl, List.getElem_concat_length rfl]
  · unfold RingState.PcOk at hpc ⊢
    dsimp only
    rw [hlength]
    cases hp : s.pc with
    | pollLoop head tail =>
      rw [hp] at hpc
      exact ⟨hpc.1, hpc.2.1, hpc.2.2.1, by omega⟩
    | _ =>
      rw [hp] at hpc
      exact hpc

/-- The loop of a poll has the next completion, or all of those that were there when it looked. -/
private theorem RingInv.loop (hi : RingInv a b ss cs s) (hb : b ≤ 31) {head tail : Nat}
    (hpc : s.pc = .pollLoop head tail) :
    s.seen ≤ s.appended.length ∧ (head = tail ↔ s.processed.length = s.seen) ∧
      (head ≠ tail → s.appended[s.processed.length]? = some (s.io.cqes (head &&& s.io.cqMask))) := by
  have hok := hi.pc
  rw [RingState.PcOk, hpc] at hok
  obtain ⟨hhead, htail, hle, hseen⟩ := hok
  have hc := hi.completions
  have hlt := two_pow_lt hb
  have hroom := hc.room
  have hfreed := hc.freed
  have heq : head = tail ↔ s.processed.length = s.seen := by
    rw [hhead, htail]
    exact RingBuffer.counter_inj hle (by omega)
  refine ⟨hseen, heq, fun hne => ?_⟩
  have hnext : s.processed.length < s.appended.length := by
    have := mt heq.2 hne
    omega
  rw [hhead, hi.sizes.cqMask, ringPlace_eq, hc.cqes _ hfreed hnext, List.getElem?_eq_getElem hnext]

private theorem RingInv.process (hi : RingInv a b ss cs s) (hb : b ≤ 31) {head tail : Nat}
    (hpc : s.pc = .pollLoop head tail) (hne : head ≠ tail) : RingInv a b ss cs { s with
      processed := s.processed ++ [s.io.cqes (head &&& s.io.cqMask)]
      inflight := (s.inflight + (2 ^ 32 - 1)) % 2 ^ 32
      pc := .pollLoop (incr 32 head) tail } := by
  obtain ⟨hseen, heq, hnext⟩ := hi.loop hb hpc
  have hnext := hnext hne
  have hok := hi.pc
  rw [RingState.PcOk, hpc] at hok
  obtain ⟨hhead, htail, hle, -⟩ := hok
  have hc := hi.completions
  have hlength : (s.processed ++ [s.io.cqes (head &&& s.io.cqMask)]).length = s.processed.length + 1 :=
    List.length_append
  have hless : s.processed.length < s.seen := by
    have := mt heq.2 hne
    omega
  refine ⟨hi.sizes, ⟨hi.submissions.tail, hi.submissions.head, hi.submissions.le, hi.submissions.room,
    hi.submissions.array,
      hi.submissions.sqes, hi.submissions.consumed⟩,
    ⟨hc.tail, hc.head, ?_, ?_, ?_, hc.room, hc.cqes⟩, ⟨?_, htail, ?_, hseen⟩, fun h => absurd rfl (h _ _)⟩
  · dsimp only
    have := hc.freed
    omega
  · dsimp only
    rw [hlength, List.take_add_one, ← hc.processed, hnext, Option.toList_some]
  · dsimp only
    omega
  · dsimp only
    rw [hlength, incr, hhead, Nat.mod_add_mod, Nat.add_assoc]
  · dsimp only
    omega

private theorem RingInv.release (hi : RingInv a b ss cs s) {head : Nat} (hpc : s.pc = .pollLoop head head) :
    RingInv a b ss cs { s with io := { s.io with cqHead := head }, pc := .out, freed := s.processed.length } := by
  have hok := hi.pc
  rw [RingState.PcOk, hpc] at hok
  have hc := hi.completions
  refine ⟨⟨hi.sizes.sqMask, hi.sizes.sqEntries, hi.sizes.cqMask, hi.sizes.cqEntries⟩,
    ⟨hi.submissions.tail, hi.submissions.head, hi.submissions.le, hi.submissions.room, hi.submissions.array,
      hi.submissions.sqes, hi.submissions.consumed⟩,
    ⟨hc.tail, hok.1, le_rfl, hc.processed, hc.le, ?_, fun j hj => hc.cqes j (hc.freed.trans hj)⟩, trivial, fun _ =>
      rfl⟩
  have := hc.room
  have := hc.freed
  dsimp only
  omega

private theorem RingInv.run (hi : RingInv a b ss cs s) (ha : a ≤ 31) (hb : b ≤ 31) (hstep : ringRun s = some s') :
    RingInv a b ss cs s' := by
  unfold ringRun at hstep
  split at hstep
  · cases hstep
  · rename_i tail hpc
    have htail : tail = s.io.sqTail := by
      have hok := hi.pc
      rw [RingState.PcOk, hpc] at hok
      exact hok
    subst htail
    have hidle : ∀ head tail, s.pc ≠ .pollLoop head tail := fun _ _ h => by rw [hpc] at h; cases h
    rcases hi.gtSqeIdx ha with ⟨-, hnull⟩ | ⟨hroom, hidx⟩
    · rw [hnull] at hstep
      cases hstep
      exact hi.move trivial fun _ => hi.freed hidle
    · rw [hidx] at hstep
      cases hstep
      have hless : s.io.ops < s.consumed.length + 2 ^ a := by
        unfold RingState.unconsumed at hroom
        omega
      exact hi.move ⟨rfl, rfl, hless⟩ fun _ => hi.freed hidle
  · rename_i idx tail hpc
    cases hstep
    exact hi.clear ha hpc
  · rename_i idx tail hpc
    cases hstep
    exact hi.array ha hpc
  · rename_i idx tail hpc
    cases hstep
    exact hi.publish hpc
  · rename_i head hpc
    cases hstep
    have hok := hi.pc
    rw [RingState.PcOk, hpc] at hok
    have hfreed : s.freed = s.processed.length := hi.freed fun _ _ h => by rw [hpc] at h; cases h
    refine hi.move ⟨?_, hi.completions.tail, hi.completions.le, le_rfl⟩ fun h => absurd rfl (h _ _)
    rw [hok, hi.completions.head, hfreed]
  · rename_i head tail hpc
    split at hstep
    · rename_i heq
      subst heq
      cases hstep
      exact hi.release hpc
    · rename_i hne
      cases hstep
      exact hi.process hb hpc hne

private theorem RingInv.step {e : RingEvent} (hi : RingInv a b ss cs s) (ha : a ≤ 31) (hb : b ≤ 31)
    (hstep : ringStep s e = some s') : RingInv a b ss cs s' := by
  cases e with
  | run => exact hi.run ha hb hstep
  | sqe =>
    simp only [ringStep, Option.ite_none_right_eq_some, Option.some_inj] at hstep
    obtain ⟨hout, rfl⟩ := hstep
    exact hi.move rfl fun _ => hi.outside hout
  | poll =>
    simp only [ringStep, Option.ite_none_right_eq_some, Option.some_inj] at hstep
    obtain ⟨hout, rfl⟩ := hstep
    split
    · exact hi
    · exact hi.move rfl fun _ => hi.outside hout
  | count inflight =>
    simp only [ringStep, Option.ite_none_right_eq_some, Option.some_inj] at hstep
    obtain ⟨hout, rfl⟩ := hstep
    have hpc := hi.pc
    exact hi.move hpc fun _ => hi.outside hout
  | fill sqe =>
    simp only [ringStep, Option.ite_none_right_eq_some, Option.map_eq_some_iff] at hstep
    obtain ⟨hout, idx, -, rfl⟩ := hstep
    exact hi.fill hout idx sqe
  | consume =>
    simp only [ringStep, Option.ite_none_left_eq_some, Option.some_inj] at hstep
    obtain ⟨hne, rfl⟩ := hstep
    exact hi.consume hne
  | complete cqe =>
    simp only [ringStep, Option.ite_none_right_eq_some, Option.some_inj] at hstep
    obtain ⟨hroom, rfl⟩ := hstep
    exact hi.complete hb cqe hroom

/-! ### What is published -/

/-- The `k`th entry that is not taken is in its place. -/
private theorem RingInv.place (hi : RingInv a b ss cs s) {k : Nat} (hk : k < s.unconsumed) :
    s.io.sqArray ((s.io.sqHead + k) % 2 ^ 32 &&& s.io.sqMask) = ringPlace a ss (s.consumed.length + k) := by
  have hs := hi.submissions
  have hun : s.unconsumed = s.io.ops - s.consumed.length := rfl
  rw [hs.head, hi.sizes.sqMask, Nat.mod_add_mod, Nat.add_assoc, ringPlace_eq]
  exact hs.array _ (Nat.le_add_right ..) (by omega)

/-- What a `_gt_sqe` claims is the place of the next entry. -/
private theorem RingInv.claims (hi : RingInv a b ss cs s) {idx : Nat} (hpc : s.pc.claims idx) :
    idx = ringPlace a ss s.io.ops ∧ s.io.ops < s.consumed.length + 2 ^ a := by
  have hok := hi.pc
  unfold RingState.PcOk at hok
  cases hc : s.pc with
  | sqeClear i tail =>
    rw [hc] at hok hpc
    obtain rfl : i = idx := hpc
    exact ⟨hok.2.1, hok.2.2⟩
  | sqeArray i tail =>
    rw [hc] at hok hpc
    obtain rfl : i = idx := hpc
    exact ⟨hok.2.1, hok.2.2.1⟩
  | sqePublish i tail =>
    rw [hc] at hok hpc
    obtain rfl : i = idx := hpc
    exact ⟨hok.2.1, hok.2.2.1⟩
  | _ =>
    rw [hc] at hpc
    exact hpc.elim

private theorem RingInv.fresh (hi : RingInv a b ss cs s) (ha : a ≤ 31) {idx k : Nat} (hpc : s.pc.claims idx)
    (hk : k < s.unconsumed) : ringPlace a ss (s.consumed.length + k) ≠ idx := by
  obtain ⟨rfl, hroom⟩ := hi.claims hpc
  have hun : s.unconsumed = s.io.ops - s.consumed.length := rfl
  exact ringPlace_ne ha (by omega) (by omega)

/-- The thread's own accesses leave what is published. -/
private theorem RingInv.keeps (hi : RingInv a b ss cs s) (ha : a ≤ 31) (hstep : ringRun s = some s') {k : Nat}
    (hk : k < s.unconsumed) : s'.entry k = s.entry k := by
  have hplace := hi.place hk
  have hun : s.unconsumed = s.io.ops - s.consumed.length := rfl
  unfold RingState.entry
  unfold ringRun at hstep
  split at hstep
  · cases hstep
  · split at hstep <;> cases hstep <;> rfl
  · rename_i idx tail hpc
    cases hstep
    dsimp only
    have hclaims : s.pc.claims idx := by
      rw [hpc]
      rfl
    rw [hplace, Function.update_of_ne (hi.fresh ha hclaims hk)]
  · rename_i idx tail hpc
    cases hstep
    dsimp only
    -- the array has another place there
    have hne : (s.io.sqHead + k) % 2 ^ 32 &&& s.io.sqMask ≠ idx := by
      rw [hi.submissions.head, hi.sizes.sqMask, Nat.mod_add_mod, Nat.add_assoc, ringPlace_eq]
      exact hi.fresh ha (by rw [hpc]; rfl) hk
    rw [Function.update_of_ne hne]
  · cases hstep
    rfl
  · cases hstep
    rfl
  · split at hstep <;> cases hstep <;> rfl

/-! ### What the calls return -/

/-- A `_gt_sqe` that was called in `s` has got to `s'`. -/
def SqeGoing (s s' : RingState) : Prop :=
  s'.io.sqEntries = s.io.sqEntries ∧ s'.io.sqMask = s.io.sqMask ∧ s.consumed.length ≤ s'.consumed.length ∧
  match s'.pc with
  | .sqeHead tail => tail = s.io.sqTail ∧ s'.io.sqTail = s.io.sqTail ∧ s'.io.ops = s.io.ops ∧
      s'.io.sqArray = s.io.sqArray ∧ s'.io.sqes = s.io.sqes
  | .sqeClear idx tail => s.io.ops < s'.consumed.length + s.io.sqEntries ∧ idx = s.io.sqTail &&& s.io.sqMask ∧
      tail = s.io.sqTail ∧ s'.io.ops = s.io.ops
  | .sqeArray idx tail => s.io.ops < s'.consumed.length + s.io.sqEntries ∧ idx = s.io.sqTail &&& s.io.sqMask ∧
      tail = s.io.sqTail ∧ s'.io.ops = s.io.ops ∧ s'.io.sqes idx = { UringSqe.zero with op := s.io.ops }
  | .sqePublish idx tail => s.io.ops < s'.consumed.length + s.io.sqEntries ∧ idx = s.io.sqTail &&& s.io.sqMask ∧
      tail = s.io.sqTail ∧ s'.io.ops = s.io.ops ∧ s'.io.sqArray idx = idx ∧
      s'.io.sqes idx = { UringSqe.zero with op := s.io.ops }
  | .out => SqeReturns s s'
  | .pollTail _ | .pollLoop _ _ => False

/-- The ring is loaded: it was full when the call began, or has room by now. -/
private theorem SqeGoing.load {t : RingState} {tail : Nat} (hs : RingInv a b ss cs s) (hi : RingInv a b ss cs t)
    (ha : a ≤ 31) (h : SqeGoing s t) (hpc : t.pc = .sqeHead tail) (hstep : ringRun t = some s') : SqeGoing s s' := by
  obtain ⟨hentries, hmask, hle, hgoing⟩ := h
  rw [hpc] at hgoing
  obtain ⟨rfl, htail, hops, harray, hsqes⟩ := hgoing
  have hun : t.unconsumed = t.io.ops - t.consumed.length := rfl
  have hroom := hs.submissions.room
  have hle' := hi.submissions.le
  rw [ringRun, hpc] at hstep
  dsimp only at hstep
  rw [← htail] at hstep
  rcases hi.gtSqeIdx ha with ⟨hfull, hnull⟩ | ⟨hfree, hidx⟩
  · rw [hnull] at hstep
    cases hstep
    refine ⟨hentries, hmask, hle, fun _ => ⟨?_, htail, hops, harray, hsqes⟩, nofun⟩
    rw [hs.sizes.sqEntries, RingState.unconsumed]
    omega
  · rw [hidx] at hstep
    cases hstep
    refine ⟨hentries, hmask, hle, ?_, ?_, htail, hops⟩
    · rw [hs.sizes.sqEntries]
      dsimp only
      omega
    · rw [hops, hs.sizes.sqMask, hs.submissions.tail, ringPlace_eq]

private theorem SqeGoing.run {t : RingState} (hs : RingInv a b ss cs s) (hi : RingInv a b ss cs t) (ha : a ≤ 31)
    (h : SqeGoing s t) (hstep : ringRun t = some s') : SqeGoing s s' := by
  cases hpc : t.pc with
  | sqeHead tail => exact h.load hs hi ha hpc hstep
  | out =>
    rw [ringRun, hpc] at hstep
    cases hstep
  | sqeClear idx tail =>
    obtain ⟨hentries, hmask, hle, hgoing⟩ := h
    rw [hpc] at hgoing
    obtain ⟨hroom, hidx, htail, hops⟩ := hgoing
    rw [ringRun, hpc] at hstep
    cases hstep
    refine ⟨hentries, hmask, hle, hroom, hidx, htail, hops, ?_⟩
    dsimp only
    rw [Function.update_self, hops]
  | sqeArray idx tail =>
    obtain ⟨hentries, hmask, hle, hgoing⟩ := h
    rw [hpc] at hgoing
    obtain ⟨hroom, hidx, htail, hops, hzero⟩ := hgoing
    rw [ringRun, hpc] at hstep
    cases hstep
    exact ⟨hentries, hmask, hle, hroom, hidx, htail, hops, Function.update_self .., hzero⟩
  | sqePublish idx tail =>
    obtain ⟨hentries, hmask, hle, hgoing⟩ := h
    rw [hpc] at hgoing
    obtain ⟨hroom, hidx, rfl, hops, harray, hzero⟩ := hgoing
    rw [ringRun, hpc] at hstep
    cases hstep
    refine ⟨hentries, hmask, hle, nofun, fun i hret => ?_⟩
    rw [← Option.some_inj.1 hret]
    exact ⟨hroom, hidx, rfl, congrArg (· + 1) hops, harray, hzero⟩
  | pollTail head =>
    have hgoing := h.2.2.2
    rw [hpc] at hgoing
    exact hgoing.elim
  | pollLoop head tail =>
    have hgoing := h.2.2.2
    rw [hpc] at hgoing
    exact hgoing.elim

/-- What the kernel does meanwhile. -/
private theorem SqeGoing.kernel {t : RingState} (h : SqeGoing s t) (hgoing : t.pc ≠ .out) (hpc : s'.pc = t.pc)
    (hio : s'.io.sqEntries = t.io.sqEntries ∧ s'.io.sqMask = t.io.sqMask ∧ s'.io.sqTail = t.io.sqTail ∧
      s'.io.ops = t.io.ops ∧ s'.io.sqArray = t.io.sqArray ∧ s'.io.sqes = t.io.sqes)
    (hconsumed : t.consumed.length ≤ s'.consumed.length) : SqeGoing s s' := by
  obtain ⟨hentries, hmask, hle, hat⟩ := h
  obtain ⟨h1, h2, h3, h4, h5, h6⟩ := hio
  refine ⟨h1.trans hentries, h2.trans hmask, hle.trans hconsumed, ?_⟩
  rw [hpc, h3, h4, h5, h6]
  cases hc : t.pc with
  | out => exact absurd hc hgoing
  | sqeHead tail =>
    rw [hc] at hat
    exact hat
  | sqeClear idx tail =>
    rw [hc] at hat
    exact ⟨by have := hat.1; omega, hat.2⟩
  | sqeArray idx tail =>
    rw [hc] at hat
    exact ⟨by have := hat.1; omega, hat.2⟩
  | sqePublish idx tail =>
    rw [hc] at hat
    exact ⟨by have := hat.1; omega, hat.2⟩
  | pollTail head =>
    rw [hc] at hat
    exact hat
  | pollLoop head tail =>
    rw [hc] at hat
    exact hat

private theorem RingInv.sqe (hs : RingInv a b ss cs s) (ha : a ≤ 31) (hb : b ≤ 31)
    (h : Transition.During ringStep (·.pc = .out) s .sqe s') (hout : s'.pc = .out) : SqeReturns s s' := by
  have hcall := h.rule (P := SqeGoing s) (fun t e t' hi hstep => RingInv.step hi ha hb hstep) hs ?_ ?_
  · have hret := hcall.2.2.2.2
    rw [hout] at hret
    exact hret
  · intro t hstep
    simp only [ringStep, Option.ite_none_right_eq_some, Option.some_inj] at hstep
    obtain ⟨-, rfl⟩ := hstep
    exact ⟨rfl, rfl, le_rfl, rfl, rfl, rfl, rfl, rfl⟩
  · intro t e t' hi hgoing hnot hstep
    cases e with
    | run => exact hgoing.run hs hi ha hstep
    | consume =>
      simp only [ringStep, Option.ite_none_left_eq_some, Option.some_inj] at hstep
      obtain ⟨-, rfl⟩ := hstep
      exact hgoing.kernel hnot rfl ⟨rfl, rfl, rfl, rfl, rfl, rfl⟩ (by simp)
    | complete cqe =>
      simp only [ringStep, Option.ite_none_right_eq_some, Option.some_inj] at hstep
      obtain ⟨-, rfl⟩ := hstep
      exact hgoing.kernel hnot rfl ⟨rfl, rfl, rfl, rfl, rfl, rfl⟩ le_rfl
    | _ =>
      simp only [ringStep, Option.ite_none_right_eq_some] at hstep
      exact absurd hstep.1 hnot

/-- A `_gt_io_poll` that was called in `s` has got to `s'`. -/
def PollGoing (s s' : RingState) : Prop :=
  s.appended.length ≤ s'.appended.length ∧
  match s'.pc with
  | .pollTail _ => s.io.ok = true ∧ s.inflight ≠ 0 ∧ s'.processed = s.processed ∧ s'.inflight = s.inflight
  | .pollLoop _ _ => s.io.ok = true ∧ s.inflight ≠ 0 ∧ s.appended.length ≤ s'.seen ∧
      s.processed.length ≤ s'.processed.length ∧
      (s'.inflight + (s'.processed.length - s.processed.length)) % 2 ^ 32 = s.inflight % 2 ^ 32
  | .out => PollReturns s s'
  | _ => False

private theorem PollGoing.run {t : RingState} (hi : RingInv a b ss cs t) (hb : b ≤ 31) (h : PollGoing s t)
    (hstep : ringRun t = some s') : PollGoing s s' := by
  obtain ⟨happended, hat⟩ := h
  cases hpc : t.pc with
  | out =>
    rw [ringRun, hpc] at hstep
    cases hstep
  | pollTail head =>
    rw [hpc] at hat
    obtain ⟨hok, hinflight, hprocessed, heq⟩ := hat
    rw [ringRun, hpc] at hstep
    cases hstep
    refine ⟨happended, hok, hinflight, happended, ?_, ?_⟩
    · dsimp only
      rw [hprocessed]
    · dsimp only
      rw [hprocessed, heq, Nat.sub_self, Nat.add_zero]
  | pollLoop head tail =>
    rw [hpc] at hat
    obtain ⟨hok, hinflight, hseen, hle, hcount⟩ := hat
    obtain ⟨hseen', hdone, -⟩ := hi.loop hb hpc
    rw [ringRun, hpc] at hstep
    dsimp only at hstep
    split at hstep
    · rename_i heq
      cases hstep
      have hall := hdone.1 heq
      have hc := hi.completions
      have hpcok := hi.pc
      rw [RingState.PcOk, hpc] at hpcok
      have hlt := two_pow_lt hb
      refine ⟨happended, fun hidle => ?_, fun _ _ => ⟨t.processed.length, ?_, hc.le, hc.processed, ?_, hcount⟩⟩
      · rcases hidle with h | h
        · rw [hok] at h
          cases h
        · exact absurd h hinflight
      · rw [hall]
        exact hseen
      · dsimp only
        rw [hc.tail, hpcok.1]
        have := hc.room
        have := hc.freed
        exact RingBuffer.count_of_le hc.le (by omega)
    · cases hstep
      refine ⟨happended, hok, hinflight, hseen, ?_, ?_⟩
      · dsimp only
        rw [List.length_append]
        omega
      · dsimp only
        rw [List.length_append, List.length_singleton]
        omega
  | _ =>
    rw [hpc] at hat
    exact hat.elim

/-- What the kernel does meanwhile. -/
private theorem PollGoing.kernel {t : RingState} (h : PollGoing s t) (hgoing : t.pc ≠ .out) (hpc : s'.pc = t.pc)
    (hkeep : s'.processed = t.processed ∧ s'.inflight = t.inflight ∧ s'.seen = t.seen)
    (happended : t.appended.length ≤ s'.appended.length) : PollGoing s s' := by
  obtain ⟨hle, hat⟩ := h
  obtain ⟨h1, h2, h3⟩ := hkeep
  refine ⟨hle.trans happended, ?_⟩
  rw [hpc, h1, h2, h3]
  cases hc : t.pc with
  | out => exact absurd hc hgoing
  | _ =>
    rw [hc] at hat
    exact hat

private theorem RingInv.poll (hs : RingInv a b ss cs s) (ha : a ≤ 31) (hb : b ≤ 31)
    (h : Transition.During ringStep (·.pc = .out) s .poll s') (hout : s'.pc = .out) : PollReturns s s' := by
  have hcall := h.rule (P := PollGoing s) (fun t e t' hi hstep => RingInv.step hi ha hb hstep) hs ?_ ?_
  · have hret := hcall.2.2
    rw [hout] at hret
    exact hret
  · intro t hstep
    simp only [ringStep, Option.ite_none_right_eq_some, Option.some_inj] at hstep
    obtain ⟨hout, rfl⟩ := hstep
    by_cases hidle : s.io.ok = false ∨ s.inflight = 0
    · rw [if_pos hidle]
      refine ⟨le_rfl, ?_⟩
      rw [hout]
      refine ⟨fun _ => rfl, fun hok hne => ?_⟩
      rcases hidle with h | h
      · rw [hok] at h
        cases h
      · exact absurd h hne
    · rw [if_neg hidle]
      obtain ⟨hok, hne⟩ := not_or.1 hidle
      exact ⟨le_rfl, Bool.eq_true_of_not_eq_false hok, hne, rfl, rfl⟩
  · intro t e t' hi hgoing hnot hstep
    cases e with
    | run => exact hgoing.run hi hb hstep
    | consume =>
      simp only [ringStep, Option.ite_none_left_eq_some, Option.some_inj] at hstep
      obtain ⟨-, rfl⟩ := hstep
      exact hgoing.kernel hnot rfl ⟨rfl, rfl, rfl⟩ le_rfl
    | complete cqe =>
      simp only [ringStep, Option.ite_none_right_eq_some, Option.some_inj] at hstep
      obtain ⟨-, rfl⟩ := hstep
      exact hgoing.kernel hnot rfl ⟨rfl, rfl, rfl⟩ (by simp)
    | _ =>
      simp only [ringStep, Option.ite_none_right_eq_some] at hstep
      exact absurd hstep.1 hnot

private theorem RingInv.ringOk (hi : RingInv a b ss cs s) (ha : a ≤ 31) (hb : b ≤ 31) : RingOk s where
  full := by
    intro tail s' hpc hstep
    have hok := hi.pc
    rw [RingState.PcOk, hpc] at hok
    rw [ringStep, ringRun, hpc] at hstep
    dsimp only at hstep
    rw [show tail = s.io.sqTail from hok] at hstep
    rw [hi.sizes.sqEntries]
    rcases hi.gtSqeIdx ha with ⟨hfull, hnull⟩ | ⟨hroom, hidx⟩
    · rw [hnull] at hstep
      cases hstep
      exact ⟨iff_of_true rfl hfull, fun _ => rfl⟩
    · rw [hidx] at hstep
      cases hstep
      exact ⟨iff_of_false nofun hroom.ne, nofun⟩
  fresh := by
    intro idx hpc k hk
    rw [hi.place hk]
    exact hi.fresh ha hpc hk
  tail := by
    have hs := hi.submissions
    have hle := hs.le
    rw [hs.tail, hs.head, Nat.mod_add_mod, RingState.unconsumed]
    congr 1
    omega
  published := by
    intro k hk
    have hun : s.unconsumed = s.io.ops - s.consumed.length := rfl
    rw [RingState.entry, hi.place hk]
    exact hi.submissions.sqes _ (Nat.le_add_right ..) (by omega)
  keeps := fun s' hstep k hk => hi.keeps ha hstep hk
  consumed := hi.submissions.consumed
  processed := by
    rw [hi.completions.processed]
    exact List.take_prefix _ _
  polled := fun _ _ hpc => hi.loop hb hpc
  sqe := fun s' h hout => hi.sqe ha hb h hout
  poll := fun s' h hout => hi.poll ha hb h hout

/-- In every state that a ring of any size gets into, from any values of its counters and however the kernel comes in
between. -/
theorem ring_ok (ha : a ≤ 31) (hb : b ≤ 31) (hss : ss < 2 ^ 32) (hcs : cs < 2 ^ 32)
    (hs : Transition.Reach ringStep (RingState.init a b ss cs) s) : RingOk s :=
  (hs.invariant (fun _ _ _ hi hstep => RingInv.step hi ha hb hstep) (RingInv.init a b hss hcs)).ringOk ha hb

/-- Two entries and a completion across the end of the counters, with a third call that finds the ring full. -/
theorem ring_ok_wrap : ∃ s : RingState,
    (s.io.sqTail = 1 ∧ s.io.cqHead = 0 ∧ s.ret = none ∧ s.processed = [⟨some 7, 5, 0⟩]) ∧ RingOk s := by
  have hrun : (Transition.run ringStep (RingState.init 1 1 (2 ^ 32 - 1) (2 ^ 32 - 1))
      [.sqe, .run, .run, .run, .run, .sqe, .run, .run, .run, .run, .sqe, .run, .count 2, .consume,
        .complete ⟨some 7, 5, 0⟩, .poll, .run, .run, .run]).map (fun s => (s.io.sqTail, s.io.cqHead, s.ret,
        s.processed)) =
      some (1, 0, none, [⟨some 7, 5, 0⟩]) := by decide +kernel
  obtain ⟨s, hs, hend⟩ := Option.map_eq_some_iff.1 hrun
  simp only [Prod.mk.injEq] at hend
  exact ⟨s, hend, ring_ok (by decide) (by decide) (by decide) (by decide) ⟨_, hs⟩⟩

/-- Without the kernel in between, the accesses come to `gtSqe`. -/
theorem ringRun_gtSqe (hout : s.pc = .out) :
    Transition.run ringStep s (match gtSqe s.io with | none => [.sqe, .run] | some _ => [.sqe, .run, .run, .run,
      .run]) = some { s with io := ((gtSqe s.io).map Prod.snd).getD s.io, ret := (gtSqe s.io).map Prod.fst } := by
  obtain ⟨io, inflight, pc, ret, consumed, appended, processed, freed, seen⟩ := s
  dsimp only at hout
  subst hout
  unfold gtSqe
  by_cases hfull : ringCount io.sqTail io.sqHead ≥ io.sqEntries
  · rw [if_pos hfull]
    simp only [Transition.run, ringStep, ringRun, gtSqeIdx, if_pos hfull, if_true, Option.map_none, Option.getD_none]
  · rw [if_neg hfull]
    simp only [Transition.run, ringStep, ringRun, gtSqeIdx, if_neg hfull, if_true, Option.map_some, Option.getD_some]

end Sppc
