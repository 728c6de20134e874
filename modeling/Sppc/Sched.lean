import Sppc.Vmem

/-!
# The scheduler's parts (`async/sched.h`)

The run queue, the task slots and handles, and the queue of tasks waiting for thread locks, as the code works on
their links.  A loop over a list follows the links as the code does; its first argument bounds the number of turns,
and every list the code keeps is shorter than the bound (`loopBound`).
-/

namespace Sppc

variable {Io : Type} [IoBackend Io]

/-- More turns than a list of different tasks can take. -/
def loopBound (R : GtRuntime Io) : Nat := R.nslots + 1

/-! ### The run queue -/

/-- `_gt_rq_push`. -/
def gtRqPush (R : GtRuntime Io) (t : Nat) : GtRuntime Io :=
  let R := R.modify t fun s => { s with state := .ready, next := none }
  let R := match R.rqTail with
    | some tail => R.modify tail fun s => { s with next := some t }
    | none => { R with rqHead := some t }
  { R with rqTail := some t }

/-- `_gt_rq_pop`. -/
def gtRqPop (R : GtRuntime Io) : Option Nat × GtRuntime Io :=
  match R.rqHead with
  | none => (none, R)
  | some t =>
    let R := { R with rqHead := (R.slots t).next }
    let R := if R.rqHead = none then { R with rqTail := none } else R
    (some t, R.modify t fun s => { s with next := none })

/-- The loop of `_gt_rq_remove`, at `cur` after `prev`; `none` when the task is not on the queue. -/
def gtRqRemoveFrom (R : GtRuntime Io) (t : Nat) : Nat → Option Nat → Option Nat → Option (GtRuntime Io)
  | 0, _, _ => none
  | _ + 1, _, none => none
  | n + 1, prev, some cur =>
    if cur ≠ t then gtRqRemoveFrom R t n (some cur) (R.slots cur).next
    else
      let next := (R.slots cur).next
      let R := match prev with
        | some p => R.modify p fun s => { s with next := next }
        | none => { R with rqHead := next }
      let R := if R.rqTail = some cur then { R with rqTail := prev } else R
      some (R.modify cur fun s => { s with next := none })

/-- `_gt_rq_remove`. -/
def gtRqRemove (R : GtRuntime Io) (t : Nat) : Option (GtRuntime Io) :=
  gtRqRemoveFrom R t (loopBound R) none R.rqHead

/-! ### Task slots -/

/-- What the allocations of a spawn answer: growing the slot table, the task's block, its stack and its unsafe
stack. -/
structure SpawnAnswer where
  realloc : Bool
  calloc : Bool
  stack : MapAnswer
  ustack : MapAnswer
  deriving DecidableEq, Repr

/-- `_gt_slot_alloc` with a slot to reuse. -/
def gtSlotReuse (R : GtRuntime Io) (t : Nat) : GtRuntime Io :=
  let R := { R with freeSlots := (R.slots t).next }
  let R := R.modify t fun s => { GtTask.zero with idx := s.idx, gen := if s.gen ≠ 0 then s.gen else 1 }
  { R with live := incr 64 R.live }.note (.alloc t)

/-- The growth of the slot table in `_gt_slot_alloc`; `none` when it cannot grow. -/
def gtSlotsGrow (R : GtRuntime Io) (realloc : Bool) : Option (GtRuntime Io) :=
  if R.nslots = R.cslots then
    let nc := if R.cslots ≠ 0 then (R.cslots * 2) % 2 ^ 32 else 64
    if nc > gtIdxMask then none
    else if realloc then some { R with cslots := nc } else none
  else some R

/-- `_gt_slot_alloc` with a block of its own. -/
def gtSlotFresh (R : GtRuntime Io) : GtRuntime Io :=
  let t := R.nslots
  let R := R.modify t fun _ => { GtTask.zero with idx := t, gen := 1 }
  let R := { R with nslots := incr 32 R.nslots }
  { R with live := incr 64 R.live }.note (.alloc t)

/-- `_gt_slot_alloc`. -/
def gtSlotAlloc (R : GtRuntime Io) (o : SpawnAnswer) : Option Nat × GtRuntime Io :=
  match R.freeSlots with
  | some t => (some t, gtSlotReuse R t)
  | none =>
    match gtSlotsGrow R o.realloc with
    | none => (none, R)
    | some R => if o.calloc then (some R.nslots, gtSlotFresh R) else (none, R)

/-- `t->gen = (t->gen + 1) & GT_GEN_MASK; if (t->gen == 0) { t->gen = 1; }` -/
def nextGen (gen : Nat) : Nat := if (gen + 1) &&& gtGenMask = 0 then 1 else (gen + 1) &&& gtGenMask

/-- `_gt_slot_free`; `_gt_reap` retires a detached task with the same statements. -/
def gtSlotFree (R : GtRuntime Io) (t : Nat) : GtRuntime Io :=
  let R := R.modify t fun s => { s with state := .free, gen := nextGen s.gen, next := R.freeSlots }
  { R with freeSlots := some t, live := decr 64 R.live }.note (.retire t)

/-- `_gt_resolve`. -/
def gtResolve (R : GtRuntime Io) (handle : Int) : Option Nat :=
  let idx := asUint32 handle &&& gtIdxMask
  let gen := (asUint32 handle >>> gtIdxBits) &&& gtGenMask
  if handle ≤ 0 ∨ idx ≥ R.nslots then none
  else if (R.slots idx).gen ≠ gen ∨ (R.slots idx).state = .free then none
  else some idx

/-! ### Finished tasks -/

/-- The stacks of the finished task `z` are released. -/
def gtReapStacks (R : GtRuntime Io) (z : Nat) : GtRuntime Io :=
  let R := R.modify z fun s => { s with next := none }
  let R := (gtStackFree R (R.slots z).stack (R.slots z).stackSize).modify z fun s => { s with stack := none }
  (gtStackFree R (R.slots z).ustack (R.slots z).ustackSize).modify z fun s => { s with ustack := none }

/-- The loop of `_gt_reap`. -/
def gtReapFrom : Nat → Option Nat → GtRuntime Io → GtRuntime Io
  | 0, _, R => R
  | _ + 1, none, R => R
  | n + 1, some z, R =>
    let next := (R.slots z).next
    let R := gtReapStacks R z
    let R := if (R.slots z).detached then gtSlotFree R z else R
    gtReapFrom n next R

/-- `_gt_reap`. -/
def gtReap (R : GtRuntime Io) : GtRuntime Io :=
  gtReapFrom (loopBound R) R.zombies { R with zombies := none }

/-- The loop of `_gt_task_run` that wakes the awaiters of `t`. -/
def gtWakeFrom (t : Nat) : Nat → Option Nat → GtRuntime Io → GtRuntime Io
  | 0, _, R => R
  | _ + 1, none, R => R
  | n + 1, some w, R =>
    let next := (R.slots w).wnext
    let R := R.modify w fun s => { s with wnext := none }
    gtWakeFrom t n next ((gtRqPush R w).note (.woken w t))

/-! ### Completions -/

/-- What a poll does with one completion. -/
def gtDeliver (R : GtRuntime Io) (c : Completion) : GtRuntime Io :=
  let R := match c.task with
    | none => R
    | some t => gtRqPush ((R.modify t fun s => { s with ioRes := c.res }).note (.taken t c.op (R.slots t).state)) t
  { R with inflight := decr 32 R.inflight }

/-- `_gt_io_poll` and `_gt_io_poll_until`. -/
def gtIoPoll (R : GtRuntime Io) (wait : Wait) : GtRuntime Io :=
  if IoBackend.ready R.io = false ∨ R.inflight = 0 then R
  else
    let (done, io) := IoBackend.collect wait R.io
    done.foldl gtDeliver { R with io := io }

/-- The poll that does not wait, made where something is outstanding. -/
def gtIoPollNow (R : GtRuntime Io) : GtRuntime Io := if R.inflight ≠ 0 then gtIoPoll R .now else R

/-! ### Tasks waiting for thread locks -/

/-- The links of `_gt_lock_wait_add` up to the last entry, which gets the new one after it. -/
def gtLockWaitAddFrom (w : Nat) : Nat → Nat → (Nat → GtLockWaiter) → Nat → GtLockWaiter
  | 0, _, lw => lw
  | n + 1, at', lw =>
    match (lw at').next with
    | some e => gtLockWaitAddFrom w n e lw
    | none =>
      let lw := Function.update lw w { lw w with next := none }
      Function.update lw at' { lw at' with next := some w }

/-- `_gt_lock_wait_add` of the entry `w`. -/
def gtLockWaitAdd (R : GtRuntime Io) (w : Nat) : GtRuntime Io :=
  match R.lockWaiters with
  | none =>
    { R with lockWaiters := some w, lockWaiter :=
      Function.update R.lockWaiter w { R.lockWaiter w with next := none } }
  | some e => { R with lockWaiter := gtLockWaitAddFrom w (loopBound R) e R.lockWaiter }

/-- The links of `_gt_lock_wait_remove` after the entry `at'`. -/
def gtLockWaitRemoveFrom (w : Nat) : Nat → Nat → (Nat → GtLockWaiter) → Nat → GtLockWaiter
  | 0, _, lw => lw
  | n + 1, at', lw =>
    match (lw at').next with
    | none => lw
    | some e =>
      if e = w then Function.update lw at' { lw at' with next := (lw w).next }
      else gtLockWaitRemoveFrom w n e lw

/-- `_gt_lock_wait_remove` of the entry `w`. -/
def gtLockWaitRemove (R : GtRuntime Io) (w : Nat) : GtRuntime Io :=
  match R.lockWaiters with
  | none => R
  | some e =>
    if e = w then { R with lockWaiters := (R.lockWaiter w).next }
    else { R with lockWaiter := gtLockWaitRemoveFrom w (loopBound R) e R.lockWaiter }

/-- The loop of `_gt_lock_released`: the first entry for `lock` whose task is ready and taken off the run queue. -/
def gtLockReleasedFrom (R : GtRuntime Io) (lock : Nat) : Nat → Option Nat → Option (Nat × GtRuntime Io)
  | 0, _ => none
  | _ + 1, none => none
  | n + 1, some e =>
    let w := R.lockWaiter e
    match w.task with
    | none => gtLockReleasedFrom R lock n w.next
    | some t =>
      if w.lock ≠ lock ∨ (R.slots t).state ≠ .ready then gtLockReleasedFrom R lock n w.next
      else match gtRqRemove R t with
        | none => gtLockReleasedFrom R lock n w.next
        | some R => some (t, R)

/-! ### Deadlines -/

/-- `_gt_remaining`, at the clock reading `now`. -/
def gtRemaining (now deadline : Timespec) : Timespec :=
  let left : Timespec := ⟨deadline.sec - now.sec, deadline.nsec - now.nsec⟩
  let left := if left.nsec < 0 then ⟨left.sec - 1, left.nsec + 1000000000⟩ else left
  if left.sec < 0 then ⟨0, 0⟩ else left

/-- `_gt_passed`, at the clock reading `now`. -/
def gtPassed (now deadline : Timespec) : Bool :=
  let left := gtRemaining now deadline
  left.sec = 0 ∧ left.nsec = 0

/-- `_gt_passed_if_any`, at the clock reading `now`. -/
def gtPassedIfAny (now : Timespec) (deadline : Option Timespec) : Bool :=
  match deadline with
  | none => false
  | some d => gtPassed now d

end Sppc
