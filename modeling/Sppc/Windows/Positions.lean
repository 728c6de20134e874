import Sppc.Threads
import Sppc.Histories

/-!
# File positions (`platform/windows.h`)

Any number of threads read, write, seek, `pread`, `pwrite` and lock records from the current position, on descriptors
that share one description of a file on a disk.  A step is one Win32 call on its handle, or an acquisition or a
release of its lock.
-/

namespace Sppc.Windows

open Threads

/-- The file, and the position of the handle. -/
structure DiskFile where
  data : List UInt8
  pos : Nat
  deriving DecidableEq, Repr

/-- What the description was opened for. -/
structure DiskOfd where
  readable : Bool
  writable : Bool
  append : Bool

/-- `SPPC_SEEK_SET`, `_CUR` and `_END`, which are `FILE_BEGIN`, `FILE_CURRENT` and `FILE_END`. -/
inductive Whence
  | seekSet | seekCur | seekEnd
  deriving DecidableEq, Repr

/-- `SPPC_F_RDLCK`, `_WRLCK` and `_UNLCK`. -/
inductive LockType
  | rdlck | wrlck | unlck
  deriving DecidableEq, Repr

/-- The calls.  A record lock is one with `SPPC_SEEK_CUR`. -/
inductive FileCall
  | read (n : Nat) | write (bytes : List UInt8)
  | lseek (offset : Int) (whence : Whence)
  | pread (n : Nat) (offset : Int) | pwrite (bytes : List UInt8) (offset : Int)
  | lock (type : LockType) (start len : Int)
  deriving DecidableEq, Repr

inductive FileErr
  | EBADF | EINVAL
  | win (e : Nat)
  deriving DecidableEq, Repr

/-- What a call returns; a record lock, the range that it asks Windows for. -/
inductive FileRes
  | bytes (bs : List UInt8) | wrote (n : Nat) | pos (p : Nat) | range (start length : Nat)
  | err (e : FileErr)
  deriving DecidableEq, Repr

/-- `_SPPC_FD_IO_MAX`. -/
def ioMax : Nat := 2 ^ 30

/-! ### Win32 -/

/-- `ReadFile`, at the position or at an offset. -/
def DiskFile.readFile (f : DiskFile) (n : Nat) (offset : Option Nat) : List UInt8 × DiskFile :=
  let start := offset.getD f.pos
  let bs := (f.data.drop start).take n
  (bs, { f with pos := start + bs.length })

/-- `WriteFile`, at the position or at an offset. -/
def DiskFile.writeFile (f : DiskFile) (bs : List UInt8) (offset : Option Nat) : DiskFile :=
  let start := offset.getD f.pos
  let before := (f.data ++ List.replicate (start - f.data.length) 0).take start
  { data := if bs = [] then f.data else before ++ bs ++ f.data.drop (start + bs.length), pos := start + bs.length }

/-- `SetFilePointerEx`: none where the position would be no file's. -/
def DiskFile.setFilePointerEx (f : DiskFile) (distance : Int) (whence : Whence) : Option DiskFile :=
  let dest := distance + match whence with | .seekSet => 0 | .seekCur => (f.pos : Int) | .seekEnd => f.data.length
  if 0 ≤ dest ∧ dest < 2 ^ 63 then some { f with pos := dest.toNat } else none

/-! ### The calls -/

/-- What a call finds out before it takes the lock. -/
def FileCall.refused (o : DiskOfd) : FileCall → Option FileErr
  | .read _ => if o.readable then none else some .EBADF
  | .write _ => if o.writable then none else some .EBADF
  | .lseek _ _ => none
  | .pread _ offset => if ¬o.readable then some .EBADF else if offset < 0 then some .EINVAL else none
  | .pwrite _ offset => if ¬o.writable then some .EBADF else if offset < 0 then some .EINVAL else none
  | .lock type _ _ =>
    if type = .rdlck ∧ ¬o.readable ∨ type = .wrlck ∧ ¬o.writable then some .EBADF else none

/-- What a record lock makes of the position. -/
def rangeFrom (pos : Nat) (start len : Int) : FileRes :=
  let start := start + pos + if len < 0 then len else 0
  if start < 0 then .err .EINVAL
  else .range start.toNat (if len = 0 then 2 ^ 64 - 1 - start.toNat else len.natAbs)

/-- The Win32 call of `_sppc_ofd_read`, `_sppc_ofd_write` and `sppc_lseek`. -/
def FileCall.plain (o : DiskOfd) (f : DiskFile) : FileCall → Option (FileRes × DiskFile)
  | .read n => some ((f.readFile (min n ioMax) none).map .bytes id)
  | .write bs =>
    let bs := bs.take ioMax
    some (.wrote bs.length, f.writeFile bs (if o.append then some f.data.length else none))
  | .lseek offset whence => some (match f.setFilePointerEx offset whence with
    | some f' => (.pos f'.pos, f')
    | none => (.err .EINVAL, f))
  | _ => none

/-- The transfer of `_sppc_ofd_pio`, which leaves the position at its end. -/
def FileCall.positioned (f : DiskFile) : FileCall → Option (FileRes × DiskFile)
  | .pread n offset => some ((f.readFile (min n ioMax) (some offset.toNat)).map .bytes id)
  | .pwrite bs offset =>
    let bs := bs.take ioMax
    some (.wrote bs.length, f.writeFile bs (some offset.toNat))
  | _ => none

/-- A call as a whole: `pread` and `pwrite` leave the position alone, and a call that fails the file. -/
inductive FileCall.Whole (o : DiskOfd) (f : DiskFile) (c : FileCall) : FileRes → DiskFile → Prop
  | refused {e : FileErr} (h : c.refused o = some e) : Whole o f c (.err e) f
  | plain {r : FileRes} {f' : DiskFile} (hc : c.refused o = none) (h : c.plain o f = some (r, f')) : Whole o f c r f'
  | positioned {r : FileRes} {f' : DiskFile} (hc : c.refused o = none) (h : c.positioned f = some (r, f')) :
    Whole o f c r { f' with pos := f.pos }
  | lock {type : LockType} {start len : Int} (hc : c.refused o = none) (h : c = .lock type start len) :
    Whole o f c (rangeFrom f.pos start len) f
  | failed {e : Nat} (hc : c.refused o = none) : Whole o f c (.err (.win e)) f

/-- The file, the description's lock, and the calls that have returned, the last at the end. -/
structure FileState (Tid : Type) where
  file : DiskFile
  readers : List Tid
  writer : Option Tid
  returned : List (Tid × FileCall × FileRes)

/-- Where a thread is: outside, or before a step of a call.  `shared` and `leave` are under the lock held shared,
`borrow`, `transfer`, `restore` and `giveBack` under the lock held alone. -/
inductive FileLoc
  | out
  | enter (c : FileCall)
  | shared (c : FileCall) | leave (c : FileCall) (r : FileRes)
  | borrow (c : FileCall) | transfer (c : FileCall) (was : Nat) | restore (c : FileCall) (was : Nat) (r : FileRes)
  | giveBack (c : FileCall) (r : FileRes)
  | range (c : FileCall) (r : FileRes)
  deriving DecidableEq, Repr

/-- A call of a thread outside, or how a Win32 call goes: a positioned one that fails may leave
the position anywhere. -/
inductive FileInput
  | call (c : FileCall)
  | run
  | fail (e pos : Nat)
  deriving DecidableEq, Repr

variable {Tid : Type} [DecidableEq Tid]

/-- The next step of the thread `t`. -/
def fileAct (o : DiskOfd) (t : Tid) (i : FileInput) (h : FileState Tid) : FileLoc → Option (FileState Tid × FileLoc)
  | .out => match i with
    | .call c => some (match c.refused o with
      | some e => ({ h with returned := h.returned ++ [(t, c, .err e)] }, .out)
      | none => (h, .enter c))
    | _ => none
  | .enter c => match c with
    -- SetFilePointerEx, without the lock
    | .lock _ start len => some (h, .range c (rangeFrom h.file.pos start len))
    | .pread _ _ | .pwrite _ _ =>
      if h.writer = none ∧ h.readers = [] then some ({ h with writer := some t }, .borrow c) else none
    | .read _ | .write _ | .lseek _ _ =>
      if h.writer = none then some ({ h with readers := t :: h.readers }, .shared c) else none
  | .shared c => match i with
    | .fail e _ => some (h, .leave c (.err (.win e)))
    | .run => (c.plain o h.file).map fun r => ({ h with file := r.2 }, .leave c r.1)
    | .call _ => none
  | .leave c r =>
    some ({ h with readers := h.readers.filter (· ≠ t), returned := h.returned ++ [(t, c, r)] }, .out)
  -- _sppc_ofd_pio
  | .borrow c => some (h, .transfer c h.file.pos)
  | .transfer c was => match i with
    | .fail e pos => some ({ h with file := { h.file with pos := pos } }, .restore c was (.err (.win e)))
    | .run => (c.positioned h.file).map fun r => ({ h with file := r.2 }, .restore c was r.1)
    | .call _ => none
  | .restore c was r => some ({ h with file := { h.file with pos := was } }, .giveBack c r)
  | .giveBack c r => some ({ h with writer := none, returned := h.returned ++ [(t, c, r)] }, .out)
  -- sppc_fcntl_lock
  | .range c r => some ({ h with returned := h.returned ++ [(t, c, r)] }, .out)

abbrev FileSystem (Tid : Type) := Threads.State Tid (FileState Tid) FileLoc

abbrev FileEvent (Tid : Type) := Threads.Event Tid FileInput Empty

def FileSystem.init (f : DiskFile) : FileSystem Tid := ⟨⟨f, [], none, []⟩, fun _ => .out⟩

/-- One step of a thread. -/
def fileStep (o : DiskOfd) : FileSystem Tid → FileEvent Tid → Option (FileSystem Tid) :=
  Threads.step (fileAct o) fun e _ => e.elim

/-- The position that a `pread` or a `pwrite` has borrowed, once it has moved it. -/
def FileSystem.borrowed (s : FileSystem Tid) : Option Nat :=
  s.shared.writer.bind fun u => match s.loc u with
    | .restore _ was _ => some was
    | _ => none

/-- The position that the file has for all other calls. -/
def FileSystem.position (s : FileSystem Tid) : Nat := s.borrowed.getD s.shared.file.pos

/-- A record lock asks for the position while none has borrowed it. -/
def FileSystem.Proper (s : FileSystem Tid) (t : Tid) : Prop :=
  match s.loc t with
  | .enter (.lock _ _ _) => s.borrowed = none
  | _ => True

instance FileSystem.decidableProper (s : FileSystem Tid) (t : Tid) : Decidable (s.Proper t) := by
  unfold FileSystem.Proper
  split <;> infer_instance

/-- A step in which no record lock asks for a position that a `pread` or a `pwrite` has borrowed. -/
def fileProperStep (o : DiskOfd) (s : FileSystem Tid) : FileEvent Tid → Option (FileSystem Tid)
  | .thread t i => if s.Proper t then fileStep o s (.thread t i) else none
  | .env e => e.elim

end Sppc.Windows
