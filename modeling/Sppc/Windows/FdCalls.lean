import Sppc.Windows.Files
import Sppc.Threads

/-!
# References to open file descriptions (`platform/windows.h`)

Any number of threads call `open` or `adopt`, `pipe`, `dup`, `dup2`, `close`, `fcntl` and the calls that take
descriptions with `_sppc_fd_get` and let go of them with `_sppc_ofd_release`.  A step is what a call does under the
table's lock, the making of a description, or one of the three accesses of `_sppc_ofd_release`.
-/

namespace Sppc.Windows

open Threads

/-- What a new description is for: a call of its own, or the ends of a pipe, of which the write end comes second. -/
inductive FdThen
  | ret
  | pipeRead (w : Handle)
  | pipeWrite (rfd rd : Nat)
  deriving DecidableEq, Repr

/-- What a call does with the description that it has taken. -/
inductive FdGot
  | dup (lowest : Nat) (cloexec : Bool)
  | dup2 (target : Int)
  | setfd (cloexec : Bool)
  deriving DecidableEq, Repr

/-- Where a thread is: outside, its last call having returned `r`, or before a step.  A close that ends a failed pipe
keeps the error, and the description that the pipe has put there. -/
inductive FdLoc
  | out (r : Except FdErr (List Nat))
  | new (handle : Handle) (cloexec : Bool) (k : FdThen)
  | get (fd : Int) (k : FdGot)
  | install (d lowest : Nat) (cloexec : Bool) (k : FdThen)
  | dup2 (d target : Nat)
  | setfd (d fd : Nat) (cloexec : Bool)
  | close (fd : Int) (pipe : Option (FdErr × Nat))
  | holding (ds : List Nat)
  | decrement (d : Nat) (next : FdLoc) | closeHandle (d : Nat) (next : FdLoc) | free (d : Nat) (next : FdLoc)
  deriving DecidableEq

/-- The calls a thread outside may make, whether there is memory, and what a call does with the
descriptions it has. -/
inductive FdInput
  | adopt (handle : Handle) (cloexec : Bool)
  | pipe (created : Except Nat (Handle × Handle))
  | dup (fd : Int) (lowest : Nat) (cloexec : Bool)
  | dup2 (fd target : Int)
  | close (fd : Int)
  | setfd (fd : Int) (cloexec others : Bool)
  | use
  | mem (ok : Bool)
  | get (fd : Int) | release (d : Nat) | leave (r : Except FdErr (List Nat))
  | run

/-- The table, and the references that the call of each thread has taken and those that it has released. -/
structure FdState (Tid : Type) where
  files : Files
  took : Tid → List Nat
  released : Tid → List Nat

/-- A description has been installed. -/
def FdThen.done (d fd : Nat) : FdThen → FdLoc
  | .ret => .out (.ok [fd])
  | .pipeRead w => .new w true (.pipeWrite fd d)
  | .pipeWrite rfd _ => .out (.ok [rfd, fd])

/-- It has not, or there is none. -/
def FdThen.failed (e : FdErr) : FdThen → FdLoc
  | .ret | .pipeRead _ => .out (.error e)
  | .pipeWrite rfd rd => .close rfd (some (e, rd))

/-- What comes after `_sppc_fd_get` has found `d` at `fd`. -/
def FdGot.found (fd : Int) (d : Nat) : FdGot → FdLoc
  | .dup lowest cloexec => .install d lowest cloexec .ret
  | .dup2 target =>
    if target < 0 ∨ (fdMax : Int) ≤ target then .decrement d (.out (.error .EBADF))
    else if target = fd then .decrement d (.out (.ok [])) else .dup2 d target.toNat
  | .setfd cloexec => .setfd d fd.toNat cloexec

variable {Tid : Type} [DecidableEq Tid]

/-- A new call has taken and released nothing. -/
def FdState.begin (h : FdState Tid) (t : Tid) : FdState Tid :=
  { h with took := Function.update h.took t [], released := Function.update h.released t [] }

/-- The call takes a reference to `d`. -/
def FdState.take (h : FdState Tid) (t : Tid) (files : Files) (d : Nat) : FdState Tid :=
  { h with files := files, took := Function.update h.took t (d :: h.took t) }

/-- The next step of the thread `t`. -/
def fdAct (t : Tid) (i : FdInput) (h : FdState Tid) : FdLoc → Option (FdState Tid × FdLoc)
  | .out _ => match i with
    | .adopt handle c => some (h.begin t, .new handle c .ret)
    | .pipe (.error e) => some (h.begin t, .out (.error (.win e)))
    | .pipe (.ok (r, w)) => some (h.begin t, .new r true (.pipeRead w))
    | .dup fd lowest c => some (h.begin t, .get fd (.dup lowest c))
    | .dup2 fd target => some (h.begin t, .get fd (.dup2 target))
    | .close fd => some (h.begin t, .close fd none)
    | .setfd fd c others => some (h.begin t, if others then .out (.error .EINVAL) else .get fd (.setfd c))
    | .use => some (h.begin t, .holding [])
    | _ => none
  -- _sppc_ofd_new
  | .new handle c k => match i with
    | .mem true => some (h.take t (h.files.ofdNew handle) h.files.next, .install h.files.next 0 c k)
    | .mem false => some (h, k.failed .ENOMEM)
    | _ => none
  -- _sppc_fd_get
  | .get fd k => match h.files.fdGet fd with
    | none => some (h, .out (.error .EBADF))
    | some d => some (h.take t (h.files.ofdRetain d) d, k.found fd d)
  -- _sppc_fd_install
  | .install d lowest c k => match i with
    | .mem realloc => match h.files.installLocked d lowest c realloc with
      | .ok (fd, files) => some ({ h with files := files }, k.done d fd)
      | .error e => some (h, .decrement d (k.failed e))
    | _ => none
  -- sppc_dup2
  | .dup2 d target => match i with
    | .mem realloc => match h.files.dup2Locked d target realloc with
      | none => some (h, .decrement d (.out (.error .ENOMEM)))
      | some (none, files) => some ({ h with files := files }, .out (.ok []))
      | some (some old, files) => some ({ h with files := files }, .decrement old (.out (.ok [])))
    | _ => none
  -- sppc_fcntl_set
  | .setfd d fd c => some ({ h with files := h.files.setfdLocked fd d c }, .decrement d (.out (.ok [])))
  -- sppc_close
  | .close fd pipe =>
    let r := match pipe with | none => .ok [] | some (e, _) => .error e
    match h.files.closeLocked fd with
    | none => some (h, .out (match pipe with | none => .error .EBADF | some _ => r))
    | some (old, files) => some ({ h with files := files }, .decrement old (.out r))
  -- a call that takes descriptions, and uses them in between
  | .holding ds => match i with
    | .get fd => match h.files.fdGet fd with
      | none => some (h, .holding ds)
      | some d => some (h.take t (h.files.ofdRetain d) d, .holding (d :: ds))
    | .release d => if d ∈ ds then some (h, .decrement d (.holding (ds.erase d))) else none
    | .leave r => if ds = [] then some (h, .out r) else none
    | _ => none
  -- _sppc_ofd_release
  | .decrement d next =>
    some ({ h with
      files := h.files.ofdDecrement d
      released := Function.update h.released t (d :: h.released t) },
      if ((h.files.ofdDecrement d).ofds d).refs ≠ 0 then next else .closeHandle d next)
  | .closeHandle d next => some ({ h with files := h.files.ofdClose d }, .free d next)
  | .free d next => some ({ h with files := h.files.ofdFree d }, next)

abbrev FdSystem (Tid : Type) := Threads.State Tid (FdState Tid) FdLoc

abbrev FdEvent (Tid : Type) := Threads.Event Tid FdInput Empty

def FdSystem.init (std : Nat → Handle) (calloc : Nat → Bool) : FdSystem Tid :=
  ⟨⟨.init std calloc, fun _ => [], fun _ => []⟩, fun _ => .out (.ok [])⟩

/-- One step of a thread. -/
def fdStep : FdSystem Tid → FdEvent Tid → Option (FdSystem Tid) := Threads.step fdAct fun e _ => e.elim

end Sppc.Windows
