import Sppc.Runtime

/-!
# The completion port (`async/iocp.h`)

One thread's tasks start operations, sleep and are switched, its polls take packets off the port and wake sleepers,
and at its end the operations that are left are waited out.  Windows finishes operations in any order, runs the sleep
timer and posts its expiry, and ends a wait on the port when there is a packet or the time is over.  Times are in
nanoseconds of the monotonic clock; a step that Windows is due to make is made before time goes on.
-/

namespace Sppc.Windows

/-- `_GT_IOCP_NOW`. -/
def iocpNow : Int := -2 ^ 63

/-- `_GT_IOCP_NEVER`. -/
def iocpNever : Int := 2 ^ 63 - 1

/-- `_GT_IOCP_BATCH`. -/
def iocpBatch : Nat := 64

/-- A task's `io` and its state: `handle` is whether there is one. -/
structure IocpTask where
  handle : Bool
  deadline : Int
  state : GtState
  deriving DecidableEq, Repr

/-- A wait on the port: what the clock read when the time left was worked out, when the wait began, and how many
milliseconds it may last (`none` is `INFINITE`). -/
structure PortWait where
  read : Int
  start : Int
  limit : Option Nat
  deriving DecidableEq, Repr

/-- Where the thread is: in a task or the scheduler, between an operation's start and `_gt_iocp_wait`, in a poll, or
in the teardown, and then how many packets it still counts on. -/
inductive IocpPhase
  | idle | starting
  | arm (read left : Int) | associate (read left : Int) | wait (w : PortWait) | wake
  | teardown (outstanding : Nat) | torn
  deriving DecidableEq, Repr

/-- The runtime's and its `io`'s part in this, then what Windows has: the operations not finished, the packets on the
port (`none` is the timer's), and when the timer goes off, whether it has, and whether its expiry is to be posted.
`packet` is whether there are wait completion packets.  Nobody stores the rest: how many operations each task has
started, the tasks that packets have made ready with the states they were in, and when each task last
went to sleep. -/
structure Iocp where
  slots : Nat → IocpTask
  nslots : Nat
  current : Nat
  rq : List Nat
  sleepers : List Nat
  inflight : Nat
  armed : Bool
  packet : Bool
  phase : IocpPhase
  pending : List Nat
  port : List (Option Nat)
  due : Option Int
  signaled : Bool
  tied : Bool
  now : Int
  started : List Nat
  readied : List (Nat × GtState)
  slept : Nat → Nat
  naps : Nat

/-- What a task or its scheduler does, how a call of Windows ends, and what Windows does by itself. -/
inductive IocpEvent
  | start | sleep (deadline : Int) | yield | block | finish | spawn (t : Nat)
  | switch | wake (t : Nat)
  | poll (limit : Int) | teardown
  | run | answer (yes : Bool) | batch (n : Nat) | timeout
  | complete (t : Nat) | fire | tick (ns : Nat)
  deriving DecidableEq, Repr

namespace Iocp

/-- Write to a task's block. -/
def modify (s : Iocp) (t : Nat) (f : IocpTask → IocpTask) : Iocp :=
  { s with slots := Function.update s.slots t (f (s.slots t)) }

/-- The state of a task is set. -/
def setState (s : Iocp) (t : Nat) (st : GtState) : Iocp := s.modify t fun task => { task with state := st }

/-- `_gt_rq_push`. -/
def push (s : Iocp) (t : Nat) : Iocp := { s.setState t .ready with rq := s.rq ++ [t] }

def deadline (s : Iocp) (t : Nat) : Int := (s.slots t).deadline

def state (s : Iocp) (t : Nat) : GtState := (s.slots t).state

def handle (s : Iocp) (t : Nat) : Bool := (s.slots t).handle

/-! ### Polls -/

/-- The 100 ns units of `_gt_iocp_arm`. -/
def dueUnits (left : Int) : Int := (left + 99) / 100

/-- How long the port's own time-out is. -/
def timeoutMs (left : Int) : Nat :=
  if left ≥ 0xFFFFFFFE * 1000000 then 0xFFFFFFFE else ((left + 999999) / 1000000).toNat

/-- Until when a poll waits: no later than the earliest sleeper's deadline. -/
def waitUntil (s : Iocp) (limit : Int) : Int :=
  match s.sleepers with
  | t :: _ => if s.deadline t < limit then s.deadline t else limit
  | [] => limit

/-- A poll up to `_gt_iocp_arm`. -/
def poll (s : Iocp) (limit : Int) : Iocp :=
  let limit := s.waitUntil limit
  if limit = iocpNever then { s with phase := .wait ⟨s.now, s.now, none⟩ }
  else if limit = iocpNow then { s with phase := .wait ⟨s.now, s.now, some 0⟩ }
  else if limit - s.now ≤ 0 then { s with phase := .wait ⟨s.now, s.now, some 0⟩ }
  else { s with phase := .arm s.now (limit - s.now) }

/-- The wait after `_gt_iocp_arm` has returned false. -/
def waitMs (s : Iocp) (read left : Int) : Iocp := { s with phase := .wait ⟨read, s.now, some (timeoutMs left)⟩ }

/-- `_gt_iocp_arm` as far as `SetWaitableTimer`, which answers `yes`. -/
def arm (s : Iocp) (read left : Int) (yes : Bool) : Iocp :=
  if s.packet && yes then
    let s := { s with due := some (s.now + 100 * dueUnits left), signaled := false }
    if s.armed then { s with phase := .wait ⟨read, s.now, none⟩ } else { s with phase := .associate read left }
  else s.waitMs read left

/-- `_gt_iocp_arm` from `NtAssociateWaitCompletionPacket` on, which fails for a packet that is tied already, and posts
the packet at once if the timer has gone off. -/
def associate (s : Iocp) (read left : Int) (yes : Bool) : Iocp :=
  if yes && !s.tied then
    if s.signaled then { s with signaled := false, port := s.port ++ [none] }.waitMs read left
    else { s with tied := true, armed := true, phase := .wait ⟨read, s.now, none⟩ }
  else s.waitMs read left

/-- One packet that a poll has taken off the port. -/
def take (s : Iocp) : Option Nat → Iocp
  | none => { s with armed := false }
  | some t =>
    let s := { s with readied := s.readied ++ [(t, s.state t)] }
    { s.modify t fun task => { task with handle := false } with inflight := s.inflight - 1 }.push t

/-- The last loop of a poll: the sleepers whose time has come. -/
def wakeFrom (s : Iocp) : List Nat → Iocp
  | [] => { s with sleepers := [] }
  | t :: ts =>
    if s.deadline t ≤ s.now then ({ s with inflight := s.inflight - 1 }.push t).wakeFrom ts
    else { s with sleepers := t :: ts }

/-! ### Operations -/

/-- `_gt_iocp_wait`. -/
def waitOn (s : Iocp) : Iocp :=
  { s.modify s.current fun task => { task with handle := true, state := .waiting } with
    inflight := s.inflight + 1, phase := .idle }

/-- Where `_gt_iocp_sleep_until` puts the task among the sleepers. -/
def insertSleeper (deadline : Nat → Int) (t : Nat) : List Nat → List Nat
  | [] => [t]
  | u :: us => if deadline u ≤ deadline t then u :: insertSleeper deadline t us else t :: u :: us

/-- `_gt_iocp_sleep_until`. -/
def sleepUntil (s : Iocp) (deadline : Int) : Iocp :=
  let s := s.modify s.current fun task => { task with deadline := deadline }
  { s.setState s.current .waiting with
    sleepers := insertSleeper s.deadline s.current s.sleepers
    inflight := s.inflight + 1
    slept := Function.update s.slept s.current s.naps
    naps := s.naps + 1 }

/-- `_gt_io_teardown` up to its wait: the operations that are outstanding are cancelled and counted. -/
def outstanding (s : Iocp) : Nat := (List.range s.nslots).countP s.handle

/-- The packets that are not the timer's. -/
def operations (port : List (Option Nat)) : List Nat := port.filterMap id

/-- Time may go on: the timer is not due, and a wait on the port has neither a packet nor waited long enough. -/
def Lasts (s : Iocp) (ns : Nat) : Prop :=
  (∀ d ∈ s.due, s.now + ns ≤ d) ∧ match s.phase with
    | .wait w => s.port = [] ∧ ∀ ms ∈ w.limit, s.now + ns ≤ w.start + ms * 1000000
    | _ => True

instance (s : Iocp) (ns : Nat) : Decidable (s.Lasts ns) :=
  haveI : Decidable (∀ d ∈ s.due, s.now + ns ≤ d) := inferInstance
  match h : s.phase with
  | .wait w =>
    decidable_of_iff ((∀ d ∈ s.due, s.now + ns ≤ d) ∧ s.port = [] ∧ ∀ ms ∈ w.limit,
      s.now + ns ≤ w.start + ms * 1000000) (by rw [Lasts, h])
  | .idle | .starting | .arm _ _ | .associate _ _ | .wake | .teardown _ | .torn =>
    decidable_of_iff (∀ d ∈ s.due, s.now + ns ≤ d) (by rw [Lasts, h]; exact (and_iff_left trivial).symm)

/-- What the program does between two polls. -/
def program (s : Iocp) : IocpEvent → Option Iocp
  | .start =>
    if s.state s.current = .running then
      some { s with pending := s.pending ++ [s.current], started := s.started ++ [s.current], phase := .starting }
    else none
  | .sleep d => if s.state s.current = .running then some (s.sleepUntil d) else none
  | .block => if s.state s.current = .running then some (s.setState s.current .joining) else none
  | .finish => if s.state s.current = .running then some (s.setState s.current .done) else none
  | .yield =>
    match s.rq with
    | t :: ts =>
      if s.state s.current = .running then
        some { ({ s with rq := ts }.push s.current).setState t .running with current := t }
      else none
    | [] => none
  | .switch =>
    match s.rq with
    | t :: ts =>
      if s.state s.current = .running then none
      else some { s.setState t .running with rq := ts, current := t }
    | [] => none
  | .wake t => if t < s.nslots ∧ s.state t = .joining then some (s.push t) else none
  -- `_gt_slot_alloc`: a slot that is free again, or a new one
  | .spawn t =>
    if t < s.nslots ∧ s.state t = .done ∨ t = s.nslots then
      some ({ s.modify t fun _ => ⟨false, 0, .free⟩ with nslots := max s.nslots (t + 1) }.push t)
    else none
  | .poll limit => some (s.poll limit)
  | .teardown => some { s with phase := .teardown s.outstanding }
  | _ => none

/-- What the thread does. -/
def thread (s : Iocp) (e : IocpEvent) : Option Iocp :=
  match s.phase, e with
  | .idle, e => s.program e
  | .starting, .run => some s.waitOn
  | .arm read left, .answer yes => some (s.arm read left yes)
  | .associate read left, .answer yes => some (s.associate read left yes)
  | .wait _, .batch n =>
    if 0 < n ∧ n ≤ iocpBatch ∧ n ≤ s.port.length then
      some ((s.port.take n).foldl take { s with port := s.port.drop n, phase := .wake })
    else none
  | .wait w, .timeout =>
    match w.limit with
    | some ms =>
      if s.port = [] ∧ w.start + ms * 1000000 ≤ s.now then some { s with phase := .wake } else none
    | none => none
  | .wake, .run => some { s.wakeFrom s.sleepers with phase := .idle }
  | .teardown (m + 1), .batch n =>
    if 0 < n ∧ n ≤ iocpBatch ∧ n ≤ s.port.length then
      some { s with
        port := s.port.drop n
        phase := .teardown (m + 1 - (operations (s.port.take n)).length) }
    else none
  | .teardown 0, .run => some { s with phase := .torn, sleepers := [], inflight := 0, armed := false }
  | _, _ => none

/-- One step. -/
def step (s : Iocp) : IocpEvent → Option Iocp
  | .complete t =>
    if t ∈ s.pending then some { s with pending := s.pending.erase t, port := s.port ++ [some t] } else none
  | .fire =>
    match s.due with
    | some d =>
      if d ≤ s.now then
        some (if s.tied then { s with due := none, tied := false, port := s.port ++ [none] }
          else { s with due := none, signaled := true })
      else none
    | none => none
  | .tick ns => if s.Lasts ns then some { s with now := s.now + ns } else none
  | e => s.thread e

/-- `_gt_io_setup` where it succeeds: the thread's own task runs, at any time. -/
def init (packet : Bool) (now : Int) : Iocp where
  slots t := ⟨false, 0, if t = 0 then .running else .free⟩
  nslots := 1
  current := 0
  rq := []
  sleepers := []
  inflight := 0
  armed := false
  packet := packet
  phase := .idle
  pending := []
  port := []
  due := none
  signaled := false
  tied := false
  now := now
  started := []
  readied := []
  slept _ := 0
  naps := 0

end Iocp

end Sppc.Windows
