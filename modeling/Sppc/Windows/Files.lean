import Mathlib.Algebra.GroupWithZero.Nat
import Mathlib.Data.List.Basic

/-!
# The Windows fd table (`platform/windows.h`)

The table, the descriptions that its entries name, and what the calls do to them: `open` and `adopt`, `pipe`, `dup`,
`dup2`, `close`, and `fcntl` with `F_SETFD`, all of them once the table is up.  A handle that gets no description is
closed again at once, which leaves nothing here.
-/

namespace Sppc.Windows

/-- `HANDLE`: `NULL`, `INVALID_HANDLE_VALUE`, or one of Windows' objects. -/
inductive Handle
  | null | invalid
  | object (n : Nat)
  deriving DecidableEq, Repr

/-- The errors of the calls on descriptors, with those that Windows gives as `win`. -/
inductive FdErr
  | EBADF | EMFILE | ENOMEM | EINVAL
  | win (e : Nat)
  deriving DecidableEq, Repr

/-- `_sppc_ofd`, as far as the table reads it. -/
structure Ofd where
  refs : Nat
  handle : Handle
  deriving DecidableEq, Repr

/-- `_sppc_fd_slot`. -/
structure Slot where
  ofd : Option Nat
  cloexec : Bool
  deriving DecidableEq, Repr

/-- A slot of zeros. -/
def Slot.free : Slot := ⟨none, false⟩

/-- The table, whose length is `_sppc_fds_cap`; the descriptions made so far, the first `next` addresses, of which
none is used twice; the process's standard handles; and the descriptions whose handles have been closed and those that
have been freed, the last first. -/
structure Files where
  fds : List Slot
  ofds : Nat → Ofd
  next : Nat
  std : Nat → Handle
  closed : List Nat
  freed : List Nat

/-- `_SPPC_FD_MAX`. -/
def fdMax : Nat := 65536

namespace Files

/-! ### Descriptions -/

/-- `_sppc_ofd_new`, where there is memory for it. -/
def ofdNew (s : Files) (handle : Handle) : Files :=
  { s with ofds := Function.update s.ofds s.next ⟨1, handle⟩, next := s.next + 1 }

/-- `_sppc_ofd_retain`. -/
def ofdRetain (s : Files) (d : Nat) : Files :=
  { s with ofds := Function.update s.ofds d { s.ofds d with refs := (s.ofds d).refs + 1 } }

/-- The decrement of `_sppc_ofd_release`. -/
def ofdDecrement (s : Files) (d : Nat) : Files :=
  { s with ofds := Function.update s.ofds d { s.ofds d with refs := (s.ofds d).refs - 1 } }

/-- `CloseHandle` or `closesocket` in `_sppc_ofd_release`. -/
def ofdClose (s : Files) (d : Nat) : Files := { s with closed := d :: s.closed }

/-- The `free` of `_sppc_ofd_release`. -/
def ofdFree (s : Files) (d : Nat) : Files := { s with freed := d :: s.freed }

/-- `_sppc_ofd_release`. -/
def ofdRelease (s : Files) : Option Nat → Files
  | none => s
  | some d =>
    if ((s.ofdDecrement d).ofds d).refs ≠ 0 then s.ofdDecrement d else ((s.ofdDecrement d).ofdClose d).ofdFree d

/-! ### The table -/

/-- What an fd names: nothing past the end of the table. -/
def ofdAt (s : Files) (fd : Nat) : Option Nat := (s.fds[fd]?).bind Slot.ofd

/-- `_sppc_fd_get` finds this description; it then retains it. -/
def fdGet (s : Files) (fd : Int) : Option Nat := if fd < 0 then none else s.ofdAt fd.toNat

/-- `while (cap <= fd) { cap *= 2; }`, in at most `n` rounds. -/
def doubled (fd : Nat) : Nat → Nat → Nat
  | 0, cap => cap
  | n + 1, cap => if cap ≤ fd then doubled fd n (cap * 2) else cap

/-- `_sppc_fds_reserve`, which fails where `realloc` does. -/
def reserve (s : Files) (fd : Nat) (realloc : Bool) : Option Files :=
  if fd < s.fds.length then some s
  else
    let cap := doubled fd (fd + 1) s.fds.length
    let cap := if cap > fdMax then fdMax else cap
    if realloc then some { s with fds := s.fds ++ List.replicate (cap - s.fds.length) .free } else none

/-- `_sppc_fds_set`, which hands back the `ofdAt` of before. -/
def set (s : Files) (fd : Nat) (ofd : Option Nat) (cloexec : Bool) : Files :=
  { s with
    fds := s.fds.set fd ⟨ofd, cloexec⟩
    std := if fd < 3 then Function.update s.std fd (match ofd with | some d => (s.ofds d).handle | none => .null)
      else s.std }

/-- The loop of `_sppc_fd_install` under the table's lock, with `n` fds left to try. -/
def installFrom (s : Files) (ofd : Nat) (cloexec realloc : Bool) : Nat → Nat → Except FdErr (Nat × Files)
  | 0, _ => .error .EMFILE
  | n + 1, fd =>
    if s.ofdAt fd ≠ none then installFrom s ofd cloexec realloc n (fd + 1)
    else match s.reserve fd realloc with
      | none => .error .ENOMEM
      | some s' => .ok (fd, s'.set fd (some ofd) cloexec)

/-- What `_sppc_fd_install` does under the table's lock. -/
def installLocked (s : Files) (ofd lowest : Nat) (cloexec realloc : Bool) : Except FdErr (Nat × Files) :=
  s.installFrom ofd cloexec realloc (fdMax - lowest) lowest

/-- What `sppc_dup2` does under the table's lock. -/
def dup2Locked (s : Files) (ofd target : Nat) (realloc : Bool) : Option (Option Nat × Files) :=
  (s.reserve target realloc).map fun s' => (s'.ofdAt target, s'.set target (some ofd) false)

/-- What `sppc_close` does under the table's lock. -/
def closeLocked (s : Files) (fd : Int) : Option (Nat × Files) :=
  if fd < 0 then none else (s.ofdAt fd.toNat).map fun d => (d, s.set fd.toNat none false)

/-- What `sppc_fcntl_set` does under the table's lock, for `F_SETFD`. -/
def setfdLocked (s : Files) (fd ofd : Nat) (cloexec : Bool) : Files :=
  if s.ofdAt fd = some ofd then { s with fds := s.fds.set fd ⟨some ofd, cloexec⟩ } else s

/-- One round of `_sppc_fds_init`, where `calloc` says whether there is memory for a description. -/
def initStd (s : Files) (fd : Nat) (calloc : Bool) : Files :=
  let h := s.std fd
  if h = .null ∨ h = .invalid then s
  else match ((List.range fd).find? fun earlier =>
      (s.ofdAt earlier).map (fun d => (s.ofds d).handle) = some h).bind s.ofdAt with
    | some d => { s.ofdRetain d with fds := s.fds.set fd ⟨some d, false⟩ }
    | none => if calloc then { s.ofdNew h with fds := s.fds.set fd ⟨some s.next, false⟩ } else s

/-- `_sppc_fds_init`, from the process's standard handles. -/
def init (std : Nat → Handle) (calloc : Nat → Bool) : Files :=
  [0, 1, 2].foldl (fun s fd => s.initStd fd (calloc fd)) ⟨List.replicate 16 .free, fun _ => ⟨0, .null⟩, 0, std, [],
    []⟩

/-! ### The calls, one at a time -/

/-- `_sppc_fd_install`. -/
def fdInstall (s : Files) (ofd lowest : Nat) (cloexec realloc : Bool) : Except FdErr Nat × Files :=
  match s.installLocked ofd lowest cloexec realloc with
  | .ok (fd, s') => (.ok fd, s')
  | .error e => (.error e, s.ofdRelease (some ofd))

/-- `_sppc_fd_adopt`. -/
def fdAdopt (s : Files) (handle : Handle) (cloexec calloc realloc : Bool) : Except FdErr Nat × Files :=
  if calloc then (s.ofdNew handle).fdInstall s.next 0 cloexec realloc else (.error .ENOMEM, s)

/-- `sppc_close`. -/
def sppcClose (s : Files) (fd : Int) : Except FdErr Unit × Files :=
  match s.closeLocked fd with
  | none => (.error .EBADF, s)
  | some (old, s') => (.ok (), s'.ofdRelease (some old))

/-- A duplicate from a lowest fd, as `F_DUPFD` makes it. -/
def dupFrom (s : Files) (fd : Int) (lowest : Nat) (cloexec realloc : Bool) : Except FdErr Nat × Files :=
  match s.fdGet fd with
  | none => (.error .EBADF, s)
  | some d => (s.ofdRetain d).fdInstall d lowest cloexec realloc

/-- `sppc_dup`. -/
def sppcDup (s : Files) (fd : Int) (realloc : Bool) : Except FdErr Nat × Files := s.dupFrom fd 0 false realloc

/-- `sppc_dup2`. -/
def sppcDup2 (s : Files) (fd target : Int) (realloc : Bool) : Except FdErr Unit × Files :=
  match s.fdGet fd with
  | none => (.error .EBADF, s)
  | some d =>
    let s := s.ofdRetain d
    if target < 0 ∨ (fdMax : Int) ≤ target then (.error .EBADF, s.ofdRelease (some d))
    else if target = fd then (.ok (), s.ofdRelease (some d))
    else match s.dup2Locked d target.toNat realloc with
      | none => (.error .ENOMEM, s.ofdRelease (some d))
      | some (old, s') => (.ok (), s'.ofdRelease old)

/-- `sppc_pipe`, for what `CreatePipe` gives, and whether there is memory for either end. -/
def sppcPipe (s : Files) (created : Except Nat (Handle × Handle)) (callocR reallocR callocW reallocW : Bool) :
    Except FdErr (Nat × Nat) × Files :=
  match created with
  | .error e => (.error (.win e), s)
  | .ok (r, w) => match s.fdAdopt r true callocR reallocR with
    | (.error e, s) => (.error e, s)
    | (.ok rfd, s) => match s.fdAdopt w true callocW reallocW with
      | (.error e, s) => (.error e, (s.sppcClose rfd).2)
      | (.ok wfd, s) => (.ok (rfd, wfd), s)

/-- `sppc_fcntl_set` with `F_SETFD`, for the bits of its argument that are `SPPC_FD_CLOEXEC` and for the others. -/
def sppcSetfd (s : Files) (fd : Int) (cloexec others : Bool) : Except FdErr Unit × Files :=
  if others then (.error .EINVAL, s)
  else match s.fdGet fd with
    | none => (.error .EBADF, s)
    | some d => (.ok (), ((s.ofdRetain d).setfdLocked fd.toNat d cloexec).ofdRelease (some d))

end Files

end Sppc.Windows
