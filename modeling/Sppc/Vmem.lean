import Sppc.Runtime

/-!
# Task stacks (`async/vmem.h`)

A stack is the address of its usable region.  What the system answers to an `mmap` and the `mprotect` after it is an
argument of the allocation; mappings made and given back are logged with their base, length and protection.  A task's
own stack is one of these, but for Windows, where it is a fiber's.
-/

namespace Sppc

variable {Io : Type}

/-- What the system answers when a stack is mapped: the base of the mapping, if it is made, and whether its usable
part can be opened above the guard page. -/
structure MapAnswer where
  mmap : Option Nat
  mprotect : Bool
  deriving DecidableEq, Repr

/-- `_gt_stack_alloc` where the cache has nothing to give. -/
def gtStackMap (R : GtRuntime Io) (size : Nat) (m : MapAnswer) : Option Nat × GtRuntime Io :=
  if R.guard then
    let total := (size + R.page) % 2 ^ 64
    match m.mmap with
    | none => (none, R)
    | some p =>
      let R := R.note (.mapped p total .none)
      if m.mprotect then (some (p + R.page), R.note (.mprotected (p + R.page) size .readWrite))
      else (none, R.note (.unmapped p total))
  else
    match m.mmap with
    | none => (none, R)
    | some p => (some p, R.note (.mapped p size .readWrite))

/-- `_gt_stack_alloc`. -/
def gtStackAlloc (R : GtRuntime Io) (size : Nat) (m : MapAnswer) : Option Nat × GtRuntime Io :=
  match R.stackCache with
  | top :: rest => if R.cachedSize = size then (some top, { R with stackCache := rest }) else gtStackMap R size m
  | [] => gtStackMap R size m

/-- `_gt_stack_unmap`. -/
def gtStackUnmap (R : GtRuntime Io) (usable size : Nat) : GtRuntime Io :=
  if R.guard then R.note (.unmapped (usable - R.page) ((size + R.page) % 2 ^ 64))
  else R.note (.unmapped usable size)

/-- `_gt_stack_free`. -/
def gtStackFree (R : GtRuntime Io) (usable : Option Nat) (size : Nat) : GtRuntime Io :=
  match usable with
  | none => R
  | some u =>
    if R.stackCache.length < gtStackCache ∧ (R.stackCache = [] ∨ R.cachedSize = size) then
      { R with cachedSize := size, stackCache := u :: R.stackCache }
    else gtStackUnmap R u size

/-- Unmap every cached stack, the last one freed first. -/
def gtStackFlush (R : GtRuntime Io) : List Nat → GtRuntime Io
  | [] => { R with stackCache := [] }
  | u :: rest => gtStackFlush (gtStackUnmap R u R.cachedSize) rest

/-- `_gt_set_guard_pages`. -/
def gtSetGuardPages (R : GtRuntime Io) (enabled : Bool) : GtRuntime Io :=
  if enabled = R.guard then R else { gtStackFlush R R.stackCache with guard := enabled }

/-- `_gt_set_stack_size`. -/
def gtSetStackSize (R : GtRuntime Io) (bytes : Nat) : GtRuntime Io :=
  let bytes := if bytes < gtStackMin then gtStackMin else bytes
  { R with stackSize := ((bytes + R.page - 1) % 2 ^ 64) &&& ((2 ^ 64 - 1) ^^^ (R.page - 1)) }

end Sppc
