import Sppc.Machine

/-!
# The io_uring backend (`async/io_uring.h`)

The two rings are shared with the kernel through free-running 32-bit counters; an entry's place is its counter masked
by the ring's size.  The kernel takes submission entries only inside `io_uring_enter` (the ring has no polling
thread), the oldest first, and appends completions in any order of the operations it has.  `ops` numbers the entries
claimed and `op` on an entry is its number: neither is read by the code.
-/

namespace Sppc

inductive UringOpcode
  | read | write | recv | send | accept | connect | fsync | timeout
  deriving DecidableEq, Repr

/-- `struct io_uring_sqe`, the fields the backend sets. -/
structure UringSqe where
  opcode : UringOpcode
  fd : Int
  addr : Nat
  len : Nat
  off : Nat
  flags : Nat
  userData : Option Nat
  op : Nat
  deriving DecidableEq, Repr

/-- `struct io_uring_cqe`. -/
structure UringCqe where
  userData : Option Nat
  res : Int
  op : Nat
  deriving DecidableEq, Repr

/-- `gt_io` and the kernel's side of the rings: `inKernel` are the operations submitted and not yet completed. -/
structure UringIo where
  ok : Bool
  sqHead : Nat
  sqTail : Nat
  sqMask : Nat
  sqArray : Nat → Nat
  sqes : Nat → UringSqe
  sqEntries : Nat
  cqHead : Nat
  cqTail : Nat
  cqMask : Nat
  cqes : Nat → UringCqe
  cqEntries : Nat
  inKernel : List UringSqe
  ops : Nat

def UringSqe.zero : UringSqe := ⟨.read, 0, 0, 0, 0, 0, none, 0⟩

/-- The rings before setup, after a setup that failed and after teardown. -/
def UringIo.zero : UringIo where
  ok := false
  sqHead := 0
  sqTail := 0
  sqMask := 0
  sqArray := fun _ => 0
  sqes := fun _ => UringSqe.zero
  sqEntries := 0
  cqHead := 0
  cqTail := 0
  cqMask := 0
  cqes := fun _ => ⟨none, 0, 0⟩
  cqEntries := 0
  inKernel := []
  ops := 0

/-- `_gt_io_setup` where it succeeds: rings of `2 ^ sqBits` and `2 ^ cqBits` entries, both empty, the counters
starting anywhere. -/
def UringIo.setup (sqBits cqBits sqStart cqStart : Nat) : UringIo :=
  { UringIo.zero with
    ok := true
    sqHead := sqStart
    sqTail := sqStart
    sqMask := 2 ^ sqBits - 1
    sqEntries := 2 ^ sqBits
    cqHead := cqStart
    cqTail := cqStart
    cqMask := 2 ^ cqBits - 1
    cqEntries := 2 ^ cqBits }

/-- The distance from `head` to `tail` on 32-bit counters. -/
def ringCount (tail head : Nat) : Nat := (tail + 2 ^ 32 - head) % 2 ^ 32

/-- `_gt_sqe`: the place of the entry claimed and the rings after it, or `none` where the ring is full. -/
def gtSqe (io : UringIo) : Option (Nat × UringIo) :=
  if ringCount io.sqTail io.sqHead ≥ io.sqEntries then none
  else
    let idx := io.sqTail &&& io.sqMask
    some (idx, { io with
      sqes := Function.update io.sqes idx { UringSqe.zero with op := io.ops }
      sqArray := Function.update io.sqArray idx idx
      sqTail := incr 32 io.sqTail
      ops := io.ops + 1 })

/-- What the kernel does for an `io_uring_enter` that submits one entry: it takes the oldest. -/
def uringSubmitOne (io : UringIo) : UringIo :=
  if io.sqHead = io.sqTail then io
  else { io with
    inKernel := io.inKernel ++ [io.sqes (io.sqArray (io.sqHead &&& io.sqMask))]
    sqHead := incr 32 io.sqHead }

/-! ### The operations -/

/-- The calls that go through the ring. -/
inductive UringCall
  | read (fd : Int) (buf n : Nat)
  | write (fd : Int) (buf n : Nat)
  | recv (fd : Int) (buf n flags : Nat)
  | send (fd : Int) (buf n flags : Nat)
  | accept (fd : Int) (addr addrlen : Nat)
  | connect (fd : Int) (addr addrlen : Nat)
  | fsync (fd : Int)
  | sleep (clock : Int) (flags ts : Nat)
  deriving DecidableEq, Repr

def clockRealtime : Int := 0
def clockBoottime : Int := 7
def msgDontwait : Nat := 0x40
def sockCloexec : Nat := 0x80000
def timerAbstime : Nat := 1
def ioringTimeoutAbs : Nat := 1
def ioringTimeoutBoottime : Nat := 4
def ioringTimeoutRealtime : Nat := 8

/-- Whether the call declines the ring before it claims an entry; `nonblock` is `_gt_fd_nonblocking` of its
descriptor. -/
def UringCall.declines (nonblock : Bool) : UringCall → Bool
  | .read .. | .write .. | .accept .. | .connect .. => nonblock
  | .recv _ _ _ flags | .send _ _ _ flags => flags &&& msgDontwait ≠ 0 ∨ nonblock
  | .fsync _ => false
  | .sleep clock _ _ => clock ≠ clockMonotonic ∧ clock ≠ clockRealtime ∧ clock ≠ clockBoottime

/-- How the call fills in its entry. -/
def UringCall.fill (sqe : UringSqe) : UringCall → UringSqe
  | .read fd buf n =>
    { sqe with opcode := .read, fd := fd, addr := buf, len := n % 2 ^ 32, off := 2 ^ 64 - 1 }
  | .write fd buf n =>
    { sqe with opcode := .write, fd := fd, addr := buf, len := n % 2 ^ 32, off := 2 ^ 64 - 1 }
  | .recv fd buf n flags =>
    { sqe with opcode := .recv, fd := fd, addr := buf, len := n % 2 ^ 32, flags := flags }
  | .send fd buf n flags =>
    { sqe with opcode := .send, fd := fd, addr := buf, len := n % 2 ^ 32, flags := flags }
  | .accept fd addr addrlen =>
    { sqe with opcode := .accept, fd := fd, addr := addr, off := addrlen, flags := sockCloexec }
  | .connect fd addr addrlen => { sqe with opcode := .connect, fd := fd, addr := addr, off := addrlen }
  | .fsync fd => { sqe with opcode := .fsync, fd := fd }
  | .sleep clock flags ts =>
    { sqe with
      opcode := .timeout
      addr := ts
      len := 1
      off := 0
      flags := (if flags &&& timerAbstime ≠ 0 then ioringTimeoutAbs else 0) |||
        (if clock = clockRealtime then ioringTimeoutRealtime
          else if clock = clockBoottime then ioringTimeoutBoottime else 0) }

/-- A call with what the system answers: whether its descriptor is non-blocking, and the errno of the
`io_uring_enter` where that fails. -/
structure UringReq where
  call : UringCall
  nonblock : Bool
  enter : Option Int
  deriving DecidableEq, Repr

/-- A `_gt_try_*` of the task `self` up to the end of `_gt_io_wait`'s submission: the entry is claimed, and so
published, and filled in before the kernel is entered. -/
def uringSubmit (req : UringReq) (self : Nat) (io : UringIo) : Submitted UringIo :=
  if req.call.declines req.nonblock then .declined
  else
    match gtSqe io with
    | none => .declined
    | some (idx, io') =>
      let sqe := { req.call.fill (io'.sqes idx) with userData := some self }
      let io' := { io' with sqes := Function.update io'.sqes idx sqe }
      match req.enter with
      | some errno => .refused io' errno
      | none => .parked (uringSubmitOne io') sqe.op

/-- The completions a poll finds from `head` to `tail`. -/
def uringCompletions (io : UringIo) : List UringCqe :=
  (List.range (ringCount io.cqTail io.cqHead)).map fun k => io.cqes ((io.cqHead + k) % 2 ^ 32 &&& io.cqMask)

/-- The loop of `_gt_io_poll` over the completion ring. -/
def uringCollect (io : UringIo) : List Completion × UringIo :=
  ((uringCompletions io).map fun c => ⟨c.userData, c.res, c.op⟩, { io with cqHead := io.cqTail })

/-- The kernel by itself: it completes one of the operations it has. -/
inductive UringEnv
  | complete (k : Nat) (res : Int)
  deriving DecidableEq, Repr

/-- A completion is appended where the ring has room (the kernel never overruns it). -/
def uringKernel : UringEnv → UringIo → Option UringIo
  | .complete k res, io =>
    match io.inKernel[k]? with
    | none => none
    | some sqe =>
      if ringCount io.cqTail io.cqHead ≥ io.cqEntries then none
      else some { io with
        inKernel := io.inKernel.eraseIdx k
        cqes := Function.update io.cqes (io.cqTail &&& io.cqMask) ⟨sqe.userData, res, sqe.op⟩
        cqTail := incr 32 io.cqTail }

/-- `_gt_io_teardown`. -/
def uringTeardown (io : UringIo) : UringIo := if io.ok then UringIo.zero else io

instance : IoBackend UringIo where
  Req := UringReq
  Env := UringEnv
  Started io := io = UringIo.zero ∨ ∃ sqBits cqBits sqStart cqStart, sqBits ≤ 31 ∧ cqBits ≤ 31 ∧
    sqStart < 2 ^ 32 ∧ cqStart < 2 ^ 32 ∧ io = UringIo.setup sqBits cqBits sqStart cqStart
  ready io := io.ok
  submit := uringSubmit
  collect _ := uringCollect
  kernel := uringKernel
  teardown := uringTeardown

end Sppc
