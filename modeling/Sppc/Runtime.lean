import Mathlib.Algebra.Group.Int.Defs
import Mathlib.Algebra.Group.Nat.Defs
import Mathlib.Logic.Function.Basic

/-!
# The runtime's data (`async/runtime.h`, `closure.h`)

A pointer to a `gt_task` is the position of its block in the slot table: blocks are never moved or freed while the
runtime lives, and the table's entry `i` always points to the same block.  A null pointer is `none`.  What a task has
on its own stack while it is switched away is the chain of runtime calls it will return through, so a saved stack
pointer is the place it resumes at (`Resume`).  The runtime also carries a `log` of what happened to its tasks and
closures, newest first: no function reads it, it is there for the statements.
-/

namespace Sppc

/-! ### Numbers -/

def einval : Int := 22
def enomem : Int := 12
def ebusy : Int := 16
def edeadlk : Int := 35
def etimedout : Int := 110

def gtIdxBits : Nat := 20
def gtIdxMask : Nat := 0xFFFFF
def gtGenMask : Nat := 0x7FF
def gtStackSize : Nat := 128 * 1024
def gtStackMin : Nat := 16 * 1024
def gtStackCache : Nat := 32

/-- `++n` on an unsigned counter of `w` bits. -/
def incr (w n : Nat) : Nat := (n + 1) % 2 ^ w

/-- `--n` on an unsigned counter of `w` bits. -/
def decr (w n : Nat) : Nat := (n + 2 ^ w - 1) % 2 ^ w

theorem incr_of_lt {w n : Nat} (h : n + 1 < 2 ^ w) : incr w n = n + 1 := Nat.mod_eq_of_lt h

theorem decr_of_pos {w n : Nat} (h : 0 < n) (h' : n ≤ 2 ^ w) : decr w n = n - 1 := by
  obtain ⟨m, rfl⟩ : ∃ m, n = m + 1 := ⟨n - 1, by omega⟩
  rw [decr, show m + 1 + 2 ^ w - 1 = m + 2 ^ w by omega, Nat.add_mod_right, Nat.mod_eq_of_lt (by omega)]
  rfl

/-- A 32-bit unsigned value read as a C `int`. -/
def asInt32 (n : Nat) : Int := if n < 2 ^ 31 then n else (n : Int) - 2 ^ 32

/-- A C `int` converted to `uint32_t`. -/
def asUint32 (h : Int) : Nat := (h % 2 ^ 32).toNat

structure Timespec where
  sec : Int
  nsec : Int
  deriving DecidableEq, Repr

/-- `CLOCK_MONOTONIC`. -/
def clockMonotonic : Int := 1

/-! ### Closures -/

/-- A closure's environment: the heap block (`id` is the allocation it came from), whether it owns its storage, and
whether there are captures to drop. -/
structure SppcClosureEnv where
  id : Nat
  owns : Bool
  dropCaptures : Bool
  deriving DecidableEq, Repr

structure SppcClosure where
  fn : Nat
  env : Option SppcClosureEnv
  deriving DecidableEq, Repr

/-! ### Where a task resumes -/

/-- The arguments of a condition wait that the rest of it still needs. -/
structure CondWait where
  mutex : Nat
  clock : Int
  deadline : Option Timespec
  deriving DecidableEq, Repr

/-- Who called `_gt_lock_until`: the task's own lock call, or a condition wait taking its mutex back. -/
inductive LockUse
  | call
  | cond (k : CondWait)
  deriving DecidableEq, Repr

/-- One `_gt_lock_until`: its lock's address, its deadline, and `queued_`. -/
structure LockCall where
  lock : Nat
  clock : Int
  deadline : Option Timespec
  queued : Bool
  use : LockUse
  deriving DecidableEq, Repr

/-- Where a switched-away task goes on. -/
inductive Resume
  /-- A primed stack: `_gt_trampoline`, so the start of `_gt_task_run`. -/
  | entry
  /-- In `_gt_yield`. -/
  | yielded
  /-- In `_gt_await` of the task `t`, after its `_gt_block`. -/
  | joined (t : Nat)
  /-- In `_gt_io_wait` for the submission `op`, after its `_gt_block`. -/
  | waited (op : Nat)
  /-- In `_gt_lock_until`, after its `_gt_step`. -/
  | stepped (c : LockCall)
  /-- In `_gt_lock_released`, called by an unlock or by a condition wait. -/
  | released (k : Option CondWait)
  /-- In `_gt_cond_wait_until`, after its `_gt_step`. -/
  | condStepped (k : CondWait)
  /-- In `_gt_drain`. -/
  | drained
  /-- At the end of `_gt_task_run`. -/
  | finished
  deriving DecidableEq, Repr

/-! ### Tasks -/

inductive GtState
  | free | ready | running | joining | waiting | done
  deriving DecidableEq, Repr

structure GtTask where
  sp : Option Resume
  stack : Option Nat
  stackSize : Nat
  ustack : Option Nat
  ustackSize : Nat
  usp : Option Nat
  next : Option Nat
  waiters : Option Nat
  wnext : Option Nat
  body : SppcClosure
  njoiners : Nat
  ioRes : Int
  idx : Nat
  gen : Nat
  state : GtState
  detached : Bool
  deriving DecidableEq, Repr

/-- A zeroed block (`calloc`, `memset`). -/
def GtTask.zero : GtTask where
  sp := none
  stack := none
  stackSize := 0
  ustack := none
  ustackSize := 0
  usp := none
  next := none
  waiters := none
  wnext := none
  body := ⟨0, none⟩
  njoiners := 0
  ioRes := 0
  idx := 0
  gen := 0
  state := .free
  detached := false

/-- `_gt_handle`. -/
def gtHandle (t : GtTask) : Int := asInt32 ((t.gen <<< gtIdxBits ||| t.idx) % 2 ^ 32)

/-- A `gt_lock_waiter`.  It lies in the frame of the task that waits, and a task waits for one lock at a time, so the
task's position is also its address. -/
structure GtLockWaiter where
  lock : Nat
  task : Option Nat
  next : Option Nat
  deriving DecidableEq, Repr

/-! ### The log -/

/-- The protection of mapped memory: `PROT_NONE`, or `PROT_READ | PROT_WRITE`. -/
inductive Prot
  | none
  | readWrite
  deriving DecidableEq, Repr

/-- What the log records. -/
inductive Ev
  /-- `_gt_slot_alloc` handed out the slot `t`. -/
  | alloc (t : Nat)
  /-- The slot `t` was pushed on `free_slots`. -/
  | retire (t : Nat)
  /-- A spawn succeeded with the slot `t`. -/
  | spawned (t : Nat)
  /-- The body of `t` was called. -/
  | started (t : Nat)
  /-- The body of `t` returned. -/
  | returned (t : Nat)
  /-- The task `w` put itself on the waiters list of `t`. -/
  | joined (w t : Nat)
  /-- The task `w` awaits `t`, which has already finished. -/
  | late (w t : Nat)
  /-- The end of `t` made its awaiter `w` ready. -/
  | woken (w t : Nat)
  /-- The awaiter `w` of `t` went on from its `_gt_block`. -/
  | resumed (w t : Nat)
  /-- The await of `t` by `w` has its result, 0. -/
  | collected (w t : Nat)
  /-- `t` was detached. -/
  | detached (t : Nat)
  /-- The task `w` put its entry on `lock_waiters`. -/
  | queued (w : Nat)
  /-- The backend refused a submission of the task `t`. -/
  | refused (t : Nat)
  /-- The task `t` parked on the submission `op`. -/
  | parked (t op : Nat)
  /-- A poll took the completion of the submission `op` for the task `t`, which was in the state `st`. -/
  | taken (t op : Nat) (st : GtState)
  /-- `sppc_async` was given the environment `e`. -/
  | given (e : SppcClosureEnv)
  /-- The body with the environment `e` was called. -/
  | called (e : Nat)
  /-- The captures of `e` were dropped by the runtime. -/
  | dropped (e : Nat)
  /-- The storage of `e` was freed. -/
  | freed (e : Nat)
  /-- A stack was mapped. -/
  | mapped (base len : Nat) (prot : Prot)
  /-- Mapped memory got another protection. -/
  | mprotected (base len : Nat) (prot : Prot)
  /-- A stack was unmapped. -/
  | unmapped (base len : Nat)
  deriving DecidableEq, Repr

/-! ### The i/o backend's side -/

/-- How long a poll may wait for a completion. -/
inductive Wait
  | now
  | block
  | until (clock : Int) (deadline : Timespec)
  deriving DecidableEq, Repr

/-- One finished operation taken by a poll: the task to make runnable, if any, its result, and (for the statements)
which submission it was. -/
structure Completion where
  task : Option Nat
  res : Int
  op : Nat
  deriving DecidableEq, Repr

/-- What became of a call a task tried to make through the backend. -/
inductive Submitted (Io : Type)
  /-- The call takes its plain fallback. -/
  | declined
  /-- The submission failed with this errno. -/
  | refused (io : Io) (errno : Int)
  /-- The submission `op` was accepted: the task parks. -/
  | parked (io : Io) (op : Nat)

/-- An i/o backend: `Io` is `gt_io` together with what lies behind it (the kernel's part), `Req` what a call asks for
with what the kernel answers, `Env` what the kernel does by itself.  `Started io` says that setting the backend up
may leave `io`. -/
class IoBackend (Io : Type) where
  Req : Type
  Env : Type
  Started : Io → Prop
  ready : Io → Bool
  submit : Req → Nat → Io → Submitted Io
  collect : Wait → Io → List Completion × Io
  kernel : Env → Io → Option Io
  teardown : Io → Io

/-! ### The runtime -/

/-- `gt_runtime`, with the task blocks, the lock waiters and the thread's unsafe stack pointer it works on.
`page` is what `_gt_page` answers, `unsafeStackWanted` the program's `_unsafe_stack_wanted`. -/
structure GtRuntime (Io : Type) where
  current : Nat
  rqHead : Option Nat
  rqTail : Option Nat
  freeSlots : Option Nat
  zombies : Option Nat
  slots : Nat → GtTask
  nslots : Nat
  cslots : Nat
  live : Nat
  stackSize : Nat
  page : Nat
  guard : Bool
  stackCache : List Nat
  cachedSize : Nat
  io : Io
  inflight : Nat
  lockWaiters : Option Nat
  lockWaiter : Nat → GtLockWaiter
  usp : Option Nat
  unsafeStackWanted : Bool
  log : List Ev

variable {Io : Type}

namespace GtRuntime

/-- Write to the block `t`. -/
def modify (R : GtRuntime Io) (t : Nat) (f : GtTask → GtTask) : GtRuntime Io :=
  { R with slots := Function.update R.slots t (f (R.slots t)) }

/-- Record an event. -/
def note (R : GtRuntime Io) (e : Ev) : GtRuntime Io := { R with log := e :: R.log }

end GtRuntime

/-- `_sppc_env_free`. -/
def sppcEnvFree (R : GtRuntime Io) : Option SppcClosureEnv → GtRuntime Io
  | none => R
  | some e => R.note (.freed e.id)

/-- `_sppc_closure_discard`. -/
def sppcClosureDiscard (R : GtRuntime Io) (closure : SppcClosure) : GtRuntime Io :=
  match closure.env with
  | none => R
  | some env =>
    let R := if env.dropCaptures then R.note (.dropped env.id) else R
    if env.owns then sppcEnvFree R (some env) else R

end Sppc
