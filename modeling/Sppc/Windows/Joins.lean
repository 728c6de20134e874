import Sppc.Threads
import Sppc.Windows.Wait

/-!
# Windows threads (`platform/windows.h`)

One thread is created, joinable or detached, runs and finishes, while any number of other threads join and detach it.
A step is one access to the thread's block, a call of Windows, or the start function's return.  A join or a detach
begins with its exchange of `joinable`, which is made while the block is allocated; an access to a block that is not
faults.
-/

namespace Sppc.Windows

open Threads

/-- `_sppc_win_thread`, but for its slots: `handle` is whether there is one. -/
structure ThreadBlock (Val : Type) where
  handle : Bool
  retval : Option Val
  refs : Nat
  joinable : Bool

/-- The thread of Windows. -/
inductive OsThread
  | none | suspended | running | ended | terminated
  deriving DecidableEq, Repr

/-- The join that is owed on the thread: still owed, being paid by a call of `u`, or no more. -/
inductive JoinRef (User : Type)
  | owed
  | taken (u : User)
  | gone
  deriving DecidableEq, Repr

/-- What a call returns: `joined` is a join's 0, whether the value has been asked for, and what has been stored. -/
inductive ThreadRet (Val : Type)
  | zero
  | joined (want : Bool) (v : Option Val)
  | err (e : Errno)
  deriving DecidableEq, Repr

/-- The block while it is allocated, the thread of Windows and its handle.  Nobody stores the rest: how often the
block has been freed and the handle closed, whether an access has gone wrong, whether the start function has been
called and what it returned, the state of the join, and what the joins and detaches have returned. -/
structure ThreadState (User Val : Type) where
  block : Option (ThreadBlock Val)
  os : OsThread
  opened : Bool
  closes : Nat
  frees : Nat
  fault : Bool
  ran : Bool
  result : Option Val
  join : JoinRef User
  returned : List (User × ThreadRet Val)

/-- The thread that creates, the one that is created, and those who join and detach it. -/
inductive Party (User : Type)
  | creator | thread
  | user (u : User)
  deriving DecidableEq, Repr

/-- Where a party is: outside, its last call having returned, or before a step of a call.  `r` is what the call
returns that lets go of its reference. -/
inductive ThreadLoc (Val : Type)
  | out (r : Option (ThreadRet Val))
  | create | begin | storeHandle | resume | terminate | closeUnrun | freeUnrun
  | start | running | store (v : Val) | destructors
  | wait (want : Bool) | read (want : Bool)
  | release (r : ThreadRet Val) | close (r : ThreadRet Val) | free (r : ThreadRet Val)

/-- The calls of those outside, with or without a place for the value; whether a call of Windows succeeds, or another
destructor runs; the start function's return; and `run` for everything else. -/
inductive ThreadInput (Val : Type)
  | join (want : Bool) | detach
  | answer (yes : Bool)
  | ret (v : Val)
  | run

variable {User Val : Type} [DecidableEq User]

/-- An access to the block. -/
def ThreadState.access (h : ThreadState User Val) (l : ThreadLoc Val)
    (k : ThreadBlock Val → ThreadState User Val × ThreadLoc Val) : ThreadState User Val × ThreadLoc Val :=
  match h.block with
  | some b => k b
  | none => ({ h with fault := true }, l)

/-- `CloseHandle`. -/
def ThreadState.close (h : ThreadState User Val) : ThreadState User Val :=
  if h.opened then { h with opened := false, closes := h.closes + 1 } else { h with fault := true }

/-- `free`. -/
def ThreadState.free (h : ThreadState User Val) : ThreadState User Val :=
  if h.block.isSome then { h with block := none, frees := h.frees + 1 } else { h with fault := true }

/-- The call of a party returns. -/
def ThreadState.ret (h : ThreadState User Val) (p : Party User) (r : ThreadRet Val) :
    ThreadState User Val × ThreadLoc Val :=
  match p with
  | .user u => ({ h with join := .gone, returned := h.returned ++ [(u, r)] }, .out (some r))
  | _ => (h, .out (some r))

/-- The exchange of `joinable` with which the user `u` begins a call that goes on at `l`. -/
def ThreadState.exchange (h : ThreadState User Val) (u : User) (l l' : ThreadLoc Val) :
    ThreadState User Val × ThreadLoc Val :=
  h.access l fun b =>
    if b.joinable then ({ h with block := some { b with joinable := false }, join := .taken u }, l')
    else ({ h with returned := h.returned ++ [(u, .err .EINVAL)] }, .out (some (.err .EINVAL)))

/-- The next step of a party. -/
def threadAct (detached : Bool) (p : Party User) (i : ThreadInput Val) (h : ThreadState User Val)
    (l : ThreadLoc Val) : Option (ThreadState User Val × ThreadLoc Val) :=
  match l, i with
  -- _sppc_pthread_create
  | .create, .answer yes =>
    some (if yes then ({ h with
      block := some ⟨false, none, if detached then 1 else 2, !detached⟩
      join := if detached then .gone else .owed }, .begin)
    else (h, .out (some (.err .EAGAIN))))
  | .begin, .answer yes =>
    some (if yes then ({ h with os := .suspended, opened := true }, .storeHandle) else (h, .freeUnrun))
  | .storeHandle, .run => some (h.access l fun b => ({ h with block := some { b with handle := true } }, .resume))
  | .resume, .answer yes =>
    some (h.access l fun _ => if yes then ({ h with os := .running }, .out (some .zero)) else (h, .terminate))
  | .terminate, .run => some ({ h with os := .terminated }, .closeUnrun)
  | .closeUnrun, .run => some (h.close, .freeUnrun)
  | .freeUnrun, .run => some (h.free, .out (some (.err .EAGAIN)))
  -- _sppc_win_thread_start
  | .start, .run =>
    if h.os = .running then some (h.access l fun _ => ({ h with ran := true }, .running)) else none
  | .running, .ret v => some ({ h with result := some v }, .store v)
  | .store v, .run => some (h.access l fun b => ({ h with block := some { b with retval := some v } }, .destructors))
  | .destructors, .answer yes => some (h.access l fun _ => (h, if yes then .destructors else .release .zero))
  -- _sppc_pthread_join, _sppc_pthread_detach
  | .out _, .join want => match p with
    | .user u =>
      if h.block.isSome ∧ (h.os = .running ∨ h.os = .ended) then some (h.exchange u l (.wait want)) else none
    | _ => none
  | .out _, .detach => match p with
    | .user u =>
      if h.block.isSome ∧ (h.os = .running ∨ h.os = .ended) then some (h.exchange u l (.release .zero)) else none
    | _ => none
  | .wait want, .run =>
    if h.os = .ended then
      some (h.access l fun b => if b.handle && h.opened then (h, .read want) else ({ h with fault := true }, l))
    else none
  | .read want, .run => some (h.access l fun b => (h, .release (.joined want (if want then b.retval else none))))
  -- _sppc_win_release
  | .release r, .run =>
    some (h.access l fun b =>
      let h' := { h with block := some { b with refs := b.refs - 1 } }
      if b.refs - 1 ≠ 0 then h'.ret p r else (h', .close r))
  | .close r, .run => some (h.access l fun b => (if b.handle then h.close else h, .free r))
  | .free r, .run => some (h.free.ret p r)
  -- the thread of Windows ends
  | .out (some _), .run => if p = .thread ∧ h.os = .running then some ({ h with os := .ended }, l) else none
  | _, _ => none

abbrev ThreadSystem (User Val : Type) := Threads.State (Party User) (ThreadState User Val) (ThreadLoc Val)

abbrev ThreadEvent (User Val : Type) := Threads.Event (Party User) (ThreadInput Val) Empty

/-- Before the thread is created. -/
def ThreadSystem.init : ThreadSystem User Val :=
  ⟨⟨none, .none, false, 0, 0, false, false, none, .gone, []⟩, fun
    | .creator => .create
    | .thread => .start
    | .user _ => .out none⟩

/-- One step of a party. -/
def threadStep (detached : Bool) : ThreadSystem User Val → ThreadEvent User Val → Option (ThreadSystem User Val) :=
  Threads.step (threadAct detached) fun e _ => e.elim

end Sppc.Windows
