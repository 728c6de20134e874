import Sppc.Sched
import Sppc.Transition

/-!
# The runtime of one thread as a state machine

Between two context switches one task runs, in its own code or inside a runtime call.  `Ctl` says where it is: in its
code, where it may make any call, or at a point of a call where something outside the runtime is waited for or
answers (a completion, another thread's lock).  Everything between two such points is one step.  The tasks that are
switched away are at the place their saved stack pointer leads to.
-/

namespace Sppc

variable {Io : Type} [IoBackend Io]

/-- The ways the runtime ends the process. -/
inductive Panic
  /-- `_gt_block`: deadlock, blocked with nothing left to run. -/
  | deadlock
  /-- `_gt_task_run`: finished with nothing left to run. -/
  | nothingLeft
  /-- `_gt_trampoline`: a finished task was resumed. -/
  | resumedFinished
  deriving DecidableEq, Repr

/-- Where the running task is. -/
inductive Ctl
  /-- In its own code. -/
  | code
  /-- At the head of `_gt_pick`'s loop; it goes on at `f` when it is switched back to. -/
  | pick (f : Resume)
  /-- In the blocking poll of `_gt_pick`. -/
  | pickWait (f : Resume)
  /-- In `_gt_lock_until`, about to try the lock. -/
  | lockTry (c : LockCall)
  /-- In `_gt_lock_until`, in the poll of its `_gt_step`. -/
  | lockWait (c : LockCall)
  /-- In `_gt_lock_until`, in the blocking or the timed call. -/
  | lockCall (c : LockCall)
  /-- In the platform's condition wait. -/
  | condCall (k : CondWait)
  /-- In `_gt_cond_wait_until`, the mutex released. -/
  | condReleased (k : CondWait)
  /-- In `_gt_cond_wait_until`, in the poll of its `_gt_step`. -/
  | condPoll (k : CondWait)
  /-- In `_gt_cond_wait_until`, the mutex taken back. -/
  | condLocked (k : CondWait)
  /-- At the head of `_gt_drain`'s loop. -/
  | drain
  /-- In the blocking poll of `_gt_drain`. -/
  | drainWait
  /-- The process was ended. -/
  | panic (p : Panic)
  /-- Control went through a stack pointer that leads nowhere. -/
  | lost
  /-- The thread has exited and the runtime is gone. -/
  | exited
  deriving DecidableEq, Repr

/-- The runtime, where its running task is, and what the last call returned to that task. -/
structure Machine (Io : Type) where
  rt : GtRuntime Io
  ctl : Ctl
  ret : Int

/-- Back in the task's code. -/
def toCode (R : GtRuntime Io) (ret : Int) : Machine Io := ⟨R, .code, ret⟩

/-! ### Locks: the end of a call -/

/-- The end of `_gt_lock_until` with the result `err`. -/
def gtLockUntilEnd (R : GtRuntime Io) (c : LockCall) (err : Int) : Machine Io :=
  let R := if c.queued then gtLockWaitRemove R R.current else R
  match c.use with
  | .call => toCode R err
  | .cond k => if err ≠ 0 then toCode R err else ⟨R, .condLocked k, 0⟩

/-- The start of `_gt_lock_until`. -/
def gtLockUntil (R : GtRuntime Io) (lock : Nat) (clock : Int) (deadline : Option Timespec) (use : LockUse) :
    Machine Io :=
  ⟨{ R with lockWaiter := Function.update R.lockWaiter R.current ⟨lock, none, none⟩ },
    .lockTry ⟨lock, clock, deadline, false, use⟩, 0⟩

/-- `_gt_mutex_lock` at the end of a condition wait: no deadline applies. -/
def gtCondRelock (R : GtRuntime Io) (k : CondWait) : Machine Io :=
  gtLockUntil R k.mutex clockMonotonic none (.cond k)

/-! ### Switching -/

/-- The end of `_gt_await` by `w` on the finished task `t`. -/
def gtAwaitEnd (R : GtRuntime Io) (w t : Nat) : Machine Io :=
  let R := R.note (.collected w t)
  toCode (if (R.slots t).njoiners = 0 then gtSlotFree R t else R) 0

/-- The call of a body is recorded. -/
def noteCalled (R : GtRuntime Io) (body : SppcClosure) : GtRuntime Io :=
  match body.env with
  | none => R
  | some e => R.note (.called e.id)

/-- The start of `_gt_task_run`'s body. -/
def gtBodyStart (R : GtRuntime Io) : Machine Io :=
  toCode (noteCalled (R.note (.started R.current)) (R.slots R.current).body) 0

/-- What the running task does from the place `f` on. -/
def gtResume (R : GtRuntime Io) : Resume → Machine Io
  | .entry => gtBodyStart R
  | .yielded => toCode R 0
  | .joined t =>
    let R := R.modify t fun s => { s with njoiners := decr 32 s.njoiners }
    gtAwaitEnd (R.note (.resumed R.current t)) R.current t
  | .waited _ => toCode R (R.slots R.current).ioRes
  | .stepped c => ⟨R, .lockTry c, 0⟩
  | .released none => toCode R 0
  | .released (some k) => ⟨R, .condReleased k, 0⟩
  | .condStepped k => gtCondRelock R k
  | .drained => ⟨R, .drain, 0⟩
  | .finished => ⟨R, .panic .resumedFinished, 0⟩

/-- `_gt_context_switch(&self->sp, &next->sp)` with `self` to go on at `f`, and what `next` does where it lands: every
place reaps the zombies before it goes on. -/
def gtContextSwitch (R : GtRuntime Io) (self : Nat) (f : Resume) (next : Nat) : Machine Io :=
  let R := R.modify self fun s => { s with sp := some f }
  match (R.slots next).sp with
  | none => ⟨R, .lost, 0⟩
  | some .finished => ⟨R, .panic .resumedFinished, 0⟩
  | some g => gtResume (if R.zombies ≠ none then gtReap R else R) g

/-- `_gt_switch_to`. -/
def gtSwitchTo (R : GtRuntime Io) (f : Resume) (next : Nat) : Machine Io :=
  let self := R.current
  if next = self then gtResume (R.modify self fun s => { s with state := .running }) f
  else
    let R := { R with current := next }
    let R := R.modify next fun s => { s with state := .running }
    let R := R.modify self fun s => { s with usp := R.usp }
    let R := { R with usp := (R.slots next).usp }
    gtContextSwitch R self f next

/-- The last switch of `_gt_task_run`. -/
def gtTaskRunSwitch (R : GtRuntime Io) (next : Nat) : Machine Io :=
  let self := R.current
  let R := { R with current := next }
  let R := R.modify next fun s => { s with state := .running }
  let R := { R with usp := (R.slots next).usp }
  gtContextSwitch R self .finished next

/-- One turn of `_gt_pick`, up to its blocking poll, and its caller's switch. -/
def gtPick (R : GtRuntime Io) (f : Resume) : Machine Io :=
  let R := gtIoPollNow R
  match gtRqPop R with
  | (some t, R) => if f = .finished then gtTaskRunSwitch R t else gtSwitchTo R f t
  | (none, R) =>
    if R.inflight ≠ 0 then ⟨R, .pickWait f, 0⟩
    else ⟨R, .panic (if f = .finished then .nothingLeft else .deadlock), 0⟩

/-- `_gt_block`, to go on at `f`. -/
def gtBlock (R : GtRuntime Io) (state : GtState) (f : Resume) : Machine Io :=
  ⟨R.modify R.current fun s => { s with state := state }, .pick f, 0⟩

/-! ### The calls of a task -/

/-- `_gt_yield`. -/
def gtYield (R : GtRuntime Io) : Machine Io :=
  let R := gtIoPollNow R
  match gtRqPop R with
  | (none, R) => toCode R 0
  | (some next, R) => gtSwitchTo (gtRqPush R R.current) .yielded next

/-- The end of `_gt_spawn`, its stacks allocated: the task is primed and becomes ready. -/
def gtSpawnReady (R : GtRuntime Io) (t : Nat) (body : SppcClosure) (size stack : Nat) (ustack : Option Nat) :
    GtRuntime Io × Except Int Int :=
  let R := R.modify t fun s =>
    { s with
      body := body
      stack := some stack
      stackSize := size
      ustack := ustack
      ustackSize := if ustack = none then 0 else size
      usp := ustack.map (· + size)
      sp := some .entry }
  let R := gtRqPush R t
  (R.note (.spawned t), .ok (gtHandle (R.slots t)))

/-- `_gt_spawn`: the runtime after it, and the handle or the error. -/
def gtSpawn (R : GtRuntime Io) (body : SppcClosure) (o : SpawnAnswer) : GtRuntime Io × Except Int Int :=
  match gtSlotAlloc R o with
  | (none, R) => (R, .error enomem)
  | (some t, R) =>
    let size := R.stackSize
    match gtStackAlloc R size o.stack with
    | (none, R) => (gtSlotFree R t, .error enomem)
    | (some stack, R) =>
      if R.unsafeStackWanted then
        match gtStackAlloc R size o.ustack with
        | (none, R) => (gtSlotFree (gtStackFree R (some stack) size) t, .error enomem)
        | (some ustack, R) => gtSpawnReady R t body size stack (some ustack)
      else gtSpawnReady R t body size stack none

/-- The closure handed to `sppc_async` is recorded. -/
def giveClosure (R : GtRuntime Io) (body : SppcClosure) : GtRuntime Io :=
  match body.env with
  | none => R
  | some e => R.note (.given e)

/-- `sppc_async`. -/
def sppcAsync (R : GtRuntime Io) (body : SppcClosure) (o : SpawnAnswer) : GtRuntime Io × Except Int Int :=
  match gtSpawn (giveClosure R body) body o with
  | (R, .error err) => (sppcClosureDiscard R body, .error err)
  | (R, .ok handle) => (R, .ok handle)

/-- `_gt_await`, up to its `_gt_block`. -/
def gtAwait (R : GtRuntime Io) (handle : Int) : Machine Io :=
  match gtResolve R handle with
  | none => toCode R einval
  | some t =>
    if t = R.current then toCode R edeadlk
    else if (R.slots t).detached then toCode R einval
    else if (R.slots t).state ≠ .done then
      let self := R.current
      let R := R.modify self fun s => { s with wnext := (R.slots t).waiters }
      let R := R.modify t fun s => { s with waiters := some self }
      let R := R.modify t fun s => { s with njoiners := incr 32 s.njoiners }
      gtBlock (R.note (.joined self t)) .joining (.joined t)
    else gtAwaitEnd (R.note (.late R.current t)) R.current t

/-- `_gt_detach`. -/
def gtDetach (R : GtRuntime Io) (handle : Int) : Machine Io :=
  match gtResolve R handle with
  | none => toCode R einval
  | some t =>
    if t = R.current then toCode R einval
    else if (R.slots t).detached then toCode R einval
    else
      let R := (R.modify t fun s => { s with detached := true }).note (.detached t)
      toCode (if (R.slots t).state = .done then gtSlotFree R t else R) 0

/-- The body of the running task has returned: its environment is freed and it is done. -/
def gtBodyEnd (R : GtRuntime Io) : GtRuntime Io :=
  let self := R.current
  let R := sppcEnvFree (R.note (.returned self)) (R.slots self).body.env
  let R := R.modify self fun s => { s with body := { s.body with env := none } }
  R.modify self fun s => { s with state := .done }

/-- The end of a task's body and the rest of `_gt_task_run`, up to its `_gt_pick`. -/
def gtTaskRunEnd (R : GtRuntime Io) : Machine Io :=
  let self := R.current
  let R := gtBodyEnd R
  let w := (R.slots self).waiters
  let R := R.modify self fun s => { s with waiters := none }
  let R := gtWakeFrom self (loopBound R) w R
  let R := R.modify self fun s => { s with next := R.zombies }
  ⟨{ R with zombies := some self }, .pick .finished, 0⟩

/-- A call through the backend: it takes its plain fallback, fails, or parks in `_gt_io_wait`.  `inflight` is raised
before the submission and lowered again when that fails. -/
def gtIoCall (R : GtRuntime Io) (req : IoBackend.Req Io) : Machine Io :=
  if IoBackend.ready R.io = false then toCode R 0
  else
    match IoBackend.submit req R.current R.io with
    | .declined => toCode R 0
    | .refused io errno =>
      toCode ({ R with io := io, inflight := decr 32 (incr 32 R.inflight) }.note (.refused R.current)) (-errno)
    | .parked io op =>
      gtBlock ({ R with io := io, inflight := incr 32 R.inflight }.note (.parked R.current op)) .waiting (.waited op)

/-! ### Locks -/

/-- The running task gives way to the task `t`, which is off the run queue, and goes to its tail. -/
def gtGiveWay (R : GtRuntime Io) (f : Resume) (t : Nat) : Machine Io :=
  gtSwitchTo (gtRqPush R R.current) f t

/-- `_gt_step`: switch to a ready task, or go to a poll. -/
def gtStep (R : GtRuntime Io) (f : Resume) (poll : Ctl) : Machine Io :=
  match gtRqPop R with
  | (some next, R) => gtGiveWay R f next
  | (none, R) => ⟨R, poll, 0⟩

/-- Whether the running task's thread has anything else to do, after `_gt_has_other_work`'s poll. -/
def gtHasOtherWork (R : GtRuntime Io) : Bool := R.rqHead ≠ none ∨ R.inflight ≠ 0

/-- One turn of `_gt_lock_until`: the try answered `err` and the clock reads `now`. -/
def gtLockTurn (R : GtRuntime Io) (c : LockCall) (err : Int) (now : Timespec) : Machine Io :=
  if err ≠ ebusy then gtLockUntilEnd R c err
  else
    let R := gtIoPollNow R
    if gtHasOtherWork R = false then ⟨R, .lockCall c, 0⟩
    else if gtPassedIfAny now c.deadline then gtLockUntilEnd R c etimedout
    else
      let R := if c.queued then R
        else
          let w := R.current
          let entry := { R.lockWaiter w with task := some R.current }
          (gtLockWaitAdd { R with lockWaiter := Function.update R.lockWaiter w entry } w).note (.queued w)
      let c := { c with queued := true }
      gtStep R (.stepped c) (.lockWait c)

/-- The poll of a `_gt_step` with this deadline. -/
def stepWait (clock : Int) : Option Timespec → Wait
  | none => .block
  | some d => .until clock d

/-- `_gt_lock_released`; where no waiter runs ahead of it, the running task goes on at `f`. -/
def gtLockReleased (R : GtRuntime Io) (lock : Nat) (f : Resume) : Machine Io :=
  match gtLockReleasedFrom R lock (loopBound R) R.lockWaiters with
  | none => gtResume R f
  | some (t, R) => gtGiveWay R f t

/-- The unlocks: the platform's call answered `err`. -/
def gtUnlock (R : GtRuntime Io) (lock : Nat) (err : Int) : Machine Io :=
  if err = 0 then gtLockReleased R lock (.released none) else toCode R err

/-- `_gt_cond_wait_until`, up to the platform's wait or the release of the mutex, which answered `err`. -/
def gtCondWaitUntil (R : GtRuntime Io) (k : CondWait) (err : Int) : Machine Io :=
  let R := gtIoPollNow R
  if gtHasOtherWork R = false then ⟨R, .condCall k, 0⟩
  else if err = 0 then gtLockReleased R k.mutex (.released (some k)) else toCode R err

/-- `_gt_cond_wait_until` after the release of the mutex. -/
def gtCondReleased (R : GtRuntime Io) (k : CondWait) : Machine Io :=
  let R := gtIoPollNow R
  if gtHasOtherWork R then gtStep R (.condStepped k) (.condPoll k) else gtCondRelock R k

/-! ### Draining and the end of the thread -/

/-- One turn of `_gt_drain`'s loop, up to its blocking poll. -/
def gtDrain (R : GtRuntime Io) : Machine Io :=
  if R.rqHead = none then
    if R.inflight = 0 then
      let R := if R.zombies ≠ none then gtReap R else R
      toCode { R with io := IoBackend.teardown R.io, inflight := 0 } 0
    else ⟨R, .drainWait, 0⟩
  else
    match gtRqPop R with
    | (none, R) => ⟨R, .drain, 0⟩
    | (some next, R) => gtGiveWay R .drained next

/-- The stacks of the block `t` in `_gt_teardown`; the stack it runs on, `live`, is left. -/
def gtTeardownStacks (live : Option Nat) (R : GtRuntime Io) (t : GtTask) : GtRuntime Io :=
  let R := match t.stack with
    | none => R
    | some u => if some u ≠ live then gtStackUnmap R u t.stackSize else R
  match t.ustack with
  | none => R
  | some u => gtStackUnmap R u t.ustackSize

/-- What `_gt_teardown` does with one block. -/
def gtTeardownSlot (live : Option Nat) (R : GtRuntime Io) (i : Nat) : GtRuntime Io :=
  let t := R.slots i
  let R := gtTeardownStacks live R t
  if t.state ≠ .free ∧ t.state ≠ .done then sppcEnvFree R t.body.env else R

/-- `_gt_teardown`. -/
def gtTeardown (R : GtRuntime Io) : Machine Io :=
  let R := { R with io := IoBackend.teardown R.io, inflight := 0 }
  let R := if R.zombies ≠ none then gtReap R else R
  let live := (R.slots R.current).stack
  let R := (List.range R.nslots).foldl (gtTeardownSlot live) R
  ⟨gtStackFlush R R.stackCache, .exited, 0⟩

/-! ### The machine -/

/-- What happens next: a call of the running task, an answer it waits for, or the backend moving by itself. -/
inductive Event (Io : Type) [IoBackend Io]
  | async (body : SppcClosure) (o : SpawnAnswer)
  | yield
  | await (handle : Int)
  | detach (handle : Int)
  | io (req : IoBackend.Req Io)
  /-- The task's body returns. -/
  | finish
  /-- A turn of `_gt_pick` or `_gt_drain`. -/
  | turn
  /-- A blocking poll ends. -/
  | poll
  | lock (lock : Nat) (clock : Int) (deadline : Option Timespec)
  /-- The non-blocking try answers `err`; the clock reads `now`. -/
  | tried (err : Int) (now : Timespec)
  /-- The blocking or timed lock call, or the platform's condition wait, returns `err`. -/
  | answered (err : Int)
  | unlock (lock : Nat) (err : Int)
  | condWait (k : CondWait) (err : Int)
  /-- A condition wait goes on; the clock reads `now`. -/
  | condGo (now : Timespec)
  | drain
  | setStackSize (bytes : Nat)
  | setGuardPages (enabled : Bool)
  /-- The thread exits. -/
  | exit
  /-- The backend moves by itself. -/
  | kernel (e : IoBackend.Env Io)

/-- The environment a `given` event is about. -/
def givenId : Ev → Option Nat
  | .given e => some e.id
  | _ => none

/-- An environment given to `sppc_async` is a block of its own, which starts with its header and owns its storage. -/
def FreshEnv (R : GtRuntime Io) (body : SppcClosure) : Prop :=
  ∀ e, body.env = some e → e.owns = true ∧ ∀ e', Ev.given e' ∈ R.log → e'.id ≠ e.id

instance (R : GtRuntime Io) (body : SppcClosure) : Decidable (FreshEnv R body) :=
  match h : body.env with
  | none => .isTrue fun e he => by rw [h] at he; cases he
  | some e =>
    decidable_of_iff (e.owns = true ∧ ∀ ev ∈ R.log, givenId ev ≠ some e.id)
      ⟨fun hd e' he => by
        rw [h] at he
        cases he
        exact ⟨hd.1, fun e' he' hid => hd.2 _ he' (by rw [givenId, hid])⟩,
      fun hd => ⟨(hd e h).1, fun ev hev hid => by
        cases ev <;> simp only [givenId, reduceCtorEq, Option.some.injEq] at hid
        exact (hd e h).2 _ hev hid⟩⟩

/-- The runtime's transitions. -/
def step (s : Machine Io) : Event Io → Option (Machine Io)
  | .async body o =>
    if s.ctl = .code ∧ FreshEnv s.rt body then
      match sppcAsync s.rt body o with
      | (R, .error err) => some (toCode R err)
      | (R, .ok _) => some (toCode R 0)
    else none
  | .yield => if s.ctl = .code then some (gtYield s.rt) else none
  | .await handle => if s.ctl = .code then some (gtAwait s.rt handle) else none
  | .detach handle => if s.ctl = .code then some (gtDetach s.rt handle) else none
  | .io req => if s.ctl = .code then some (gtIoCall s.rt req) else none
  -- the thread's own task has no body to return from
  | .finish => if s.ctl = .code ∧ s.rt.current ≠ 0 then some (gtTaskRunEnd s.rt) else none
  | .turn =>
    match s.ctl with
    | .pick f => some (gtPick s.rt f)
    | .drain => some (gtDrain s.rt)
    | _ => none
  | .poll =>
    match s.ctl with
    | .pickWait f => some ⟨gtIoPoll s.rt .block, .pick f, 0⟩
    | .lockWait c => some ⟨gtIoPoll s.rt (stepWait c.clock c.deadline), .lockTry c, 0⟩
    | .condPoll k => some (gtCondRelock (gtIoPoll s.rt (stepWait k.clock k.deadline)) k)
    | .drainWait => some ⟨gtIoPoll s.rt .block, .drain, 0⟩
    | _ => none
  | .lock lock clock deadline =>
    if s.ctl = .code then some (gtLockUntil s.rt lock clock deadline .call) else none
  | .tried err now =>
    match s.ctl with
    | .lockTry c => some (gtLockTurn s.rt c err now)
    | _ => none
  | .answered err =>
    match s.ctl with
    | .lockCall c => some (gtLockUntilEnd s.rt c err)
    | .condCall _ => some (toCode s.rt err)
    | _ => none
  | .unlock lock err => if s.ctl = .code then some (gtUnlock s.rt lock err) else none
  | .condWait k err => if s.ctl = .code then some (gtCondWaitUntil s.rt k err) else none
  | .condGo now =>
    match s.ctl with
    | .condReleased k => some (gtCondReleased s.rt k)
    | .condLocked k => some (toCode s.rt (if gtPassedIfAny now k.deadline then etimedout else 0))
    | _ => none
  | .drain => if s.ctl = .code then some ⟨s.rt, .drain, 0⟩ else none
  | .setStackSize bytes => if s.ctl = .code then some (toCode (gtSetStackSize s.rt bytes) 0) else none
  | .setGuardPages enabled => if s.ctl = .code then some (toCode (gtSetGuardPages s.rt enabled) 0) else none
  | .exit => if s.ctl = .code then some (gtTeardown s.rt) else none
  | .kernel e =>
    if s.ctl = .exited then none
    else match IoBackend.kernel e s.rt.io with
      | some io => some { s with rt := { s.rt with io := io } }
      | none => none

/-! ### The start -/

/-- The runtime's block as `_gt_init_slow` has it before the first slot. -/
def gtRuntimeZero (io : Io) (page : Nat) (unsafeStackWanted : Bool) : GtRuntime Io where
  current := 0
  rqHead := none
  rqTail := none
  freeSlots := none
  zombies := none
  slots := fun _ => GtTask.zero
  nslots := 0
  cslots := 0
  live := 0
  stackSize := gtStackSize
  page := page
  guard := true
  stackCache := []
  cachedSize := 0
  io := io
  inflight := 0
  lockWaiters := none
  lockWaiter := fun _ => ⟨0, none, none⟩
  usp := none
  unsafeStackWanted := unsafeStackWanted
  log := []

/-- `_gt_init_slow`, its allocations made: the thread that starts the runtime becomes the task 0, which is already
running. -/
def gtInit (io : Io) (page : Nat) (unsafeStackWanted : Bool) : Machine Io :=
  let R := gtSlotFresh { gtRuntimeZero io page unsafeStackWanted with cslots := 64 }
  let R := R.modify 0 fun s => { s with state := .running, stack := none, usp := R.usp }
  toCode ((R.note (.spawned 0)).note (.started 0)) 0

/-- A state some run of the runtime reaches. -/
def Reachable (s : Machine Io) : Prop :=
  ∃ io page unsafeStackWanted, IoBackend.Started io ∧ Transition.Reach step (gtInit io page unsafeStackWanted) s

end Sppc
