import Mathlib.Data.List.Perm.Basic
import Sppc.Bytes

/-!
# The heap on Windows (`platform/windows.h`)

`sppc_malloc` and its siblings over the C library's own, each block with a header below it.  The C library answers a
call with an address, or with none, and may write wherever it has given no block.  Sizes and addresses are natural
numbers below 2 ^ 64.
-/

namespace Sppc.Windows

open Bytes

/-- `SIZE_MAX`. -/
def sizeMax : Nat := 2 ^ 64 - 1

/-- `_SPPC_HEAP_HEAD`. -/
def heapHead : Nat := 16

/-- Arithmetic on `size_t` and `uintptr_t`. -/
def wrap (n : Nat) : Nat := n % 2 ^ 64

/-- A block that the C library has given; its `id` is how many it had given before. -/
structure RawBlock where
  id : Nat
  addr : Nat
  len : Nat
  deriving DecidableEq, Repr

/-- A block that a caller has: its address, and the size and the alignment asked for. -/
structure HeapBlock where
  ptr : Nat
  size : Nat
  align : Nat
  deriving DecidableEq, Repr

/-- What `errno` is set to. -/
inductive HeapErrno
  | ENOMEM | EINVAL
  deriving DecidableEq, Repr

/-- The memory, the C library's blocks, its `free` or `realloc` of what is not one of them, and `errno`.  Nobody
stores the rest: the callers' blocks, how many blocks the C library has given, the ids of those it was handed back,
and what the last call returned (0 is NULL). -/
structure Heap where
  mem : Bytes
  raws : List RawBlock
  fault : Bool
  errno : Option HeapErrno
  live : List HeapBlock
  given : Nat
  back : List Nat
  result : Nat

/-- The calls, each with what the C library answers to it and what it writes to the bytes outside of its blocks; and a
byte that a caller writes to a block. -/
inductive HeapEvent
  | malloc (size : Nat) (answer : Option Nat) (noise : Bytes)
  | aligned_alloc (size alignment : Nat) (answer : Option Nat) (noise : Bytes)
  | calloc (num size : Nat) (answer : Option Nat) (noise : Bytes)
  | free (ptr : Nat) (noise : Bytes)
  | realloc (ptr size : Nat) (answer : Option Nat) (noise noise' : Bytes)
  | write (ptr i : Nat) (byte : UInt8)

namespace Heap

/-- A call fails. -/
def refuse (s : Heap) (e : HeapErrno) : Heap := { s with errno := some e }

/-! ### The C library -/

/-- Where the C library can put a block: the end of a block is an address too. -/
def Fits (raws : List RawBlock) (addr len : Nat) : Prop :=
  addr ≠ 0 ∧ 16 ∣ addr ∧ addr + len < 2 ^ 64 ∧ ∀ r ∈ raws, addr + len ≤ r.addr ∨ r.addr + r.len ≤ addr

instance (raws : List RawBlock) (addr len : Nat) : Decidable (Fits raws addr len) := instDecidableAnd

/-- An address in one of the C library's blocks. -/
def InRaw (raws : List RawBlock) (x : Nat) : Prop := ∃ r ∈ raws, r.addr ≤ x ∧ x < r.addr + r.len

instance (raws : List RawBlock) (x : Nat) : Decidable (InRaw raws x) := List.decidableBEx _ _

/-- The C library writes where it has no block. -/
def scribble (s : Heap) (noise : Bytes) : Heap :=
  { s with mem := fun x => if InRaw s.raws x then s.mem x else noise x }

/-- A block is the C library's to give again. -/
def handBack (s : Heap) (addr : Nat) : Heap :=
  match s.raws.find? (·.addr == addr) with
  | some r => { s with raws := s.raws.erase r, back := r.id :: s.back }
  | none => { s with fault := true }

def give (s : Heap) (addr len : Nat) : Heap :=
  { s with raws := ⟨s.given, addr, len⟩ :: s.raws, given := s.given + 1 }

/-- `malloc`. -/
def mallocRaw (s : Heap) (len : Nat) (answer : Option Nat) (noise : Bytes) : Option (Nat × Heap) :=
  match answer with
  | none => some (0, (s.scribble noise).refuse .ENOMEM)
  | some addr => if Fits s.raws addr len then some (addr, (s.scribble noise).give addr len) else none

/-- `calloc`, of one element. -/
def callocRaw (s : Heap) (len : Nat) (answer : Option Nat) (noise : Bytes) : Option (Nat × Heap) :=
  s.mallocRaw len answer fun x => if ∃ addr ∈ answer, addr ≤ x ∧ x < addr + len then 0 else noise x

/-- `free`. -/
def freeRaw (s : Heap) (addr : Nat) (noise : Bytes) : Heap := (s.handBack addr).scribble noise

/-- `realloc`, of a block and to a size that is not 0: where it succeeds, the old block is handed back, and the new
one has its bytes as far as they fit. -/
def reallocRaw (s : Heap) (addr len : Nat) (answer : Option Nat) (noise : Bytes) : Option (Nat × Heap) :=
  match answer with
  | none => some (0, (s.scribble noise).refuse .ENOMEM)
  | some addr' =>
    match s.raws.find? (·.addr == addr) with
    | some r =>
      (s.handBack addr).mallocRaw len (some addr') fun x =>
        if addr' ≤ x ∧ x < addr' + min r.len len then s.mem (r.addr + (x - addr')) else noise x
    | none => some (addr', { s with fault := true })

/-! ### The calls -/

/-- `_sppc_heap_head_of`. -/
def headOf (ptr : Nat) : Nat := ptr - heapHead

/-- `head->raw`. -/
def headRaw (s : Heap) (head : Nat) : Nat := loadBytes s.mem head 8

/-- `head->size`. -/
def headSize (s : Heap) (head : Nat) : Nat := loadBytes s.mem (head + 8) 8

/-- `_sppc_heap_place`. -/
def place (s : Heap) (raw size align : Nat) : Nat × Heap :=
  if raw = 0 then (0, s)
  else
    let user := wrap (raw + heapHead + (align - 1)) &&& (2 ^ 64 - 1 - (align - 1))
    let head := headOf user
    (user, { s with mem := storeBytes (storeBytes s.mem head raw 8) (head + 8) size 8 })

/-- `_sppc_heap_overflows`. -/
def overflows (size extra : Nat) : Bool := !decide (size ≤ sizeMax - extra)

def sppcMalloc (s : Heap) (size : Nat) (answer : Option Nat) (noise : Bytes) : Option (Nat × Heap) :=
  if overflows size heapHead then some (0, s.refuse .ENOMEM)
  else (s.mallocRaw (wrap (size + heapHead)) answer noise).map fun (raw, s) => s.place raw size heapHead

def sppcAlignedAlloc (s : Heap) (size alignment : Nat) (answer : Option Nat) (noise : Bytes) : Option (Nat × Heap) :=
  if alignment = 0 ∨ alignment &&& (alignment - 1) ≠ 0 then some (0, s.refuse .EINVAL)
  else if alignment ≤ heapHead then s.sppcMalloc size answer noise
  else if overflows size (wrap (heapHead + alignment)) then some (0, s.refuse .ENOMEM)
  else (s.mallocRaw (wrap (size + heapHead + alignment)) answer noise).map fun (raw, s) => s.place raw size alignment

def sppcCalloc (s : Heap) (num size : Nat) (answer : Option Nat) (noise : Bytes) : Option (Nat × Heap) :=
  if size ≠ 0 ∧ num > sizeMax / size then some (0, s.refuse .ENOMEM)
  else
    let total := wrap (num * size)
    if overflows total heapHead then some (0, s.refuse .ENOMEM)
    else (s.callocRaw (wrap (total + heapHead)) answer noise).map fun (raw, s) => s.place raw total heapHead

def sppcFree (s : Heap) (ptr : Nat) (noise : Bytes) : Heap :=
  if ptr ≠ 0 then s.freeRaw (s.headRaw (headOf ptr)) noise else s

/-- The end of `sppc_realloc` where a block moves: its bytes are copied, and it is freed. -/
def moveTo (s : Heap) (ptr newSize moved : Nat) (noise : Bytes) : Nat × Heap :=
  if moved = 0 then (0, s)
  else
    let head := headOf ptr
    let n := if s.headSize head < newSize then s.headSize head else newSize
    let s := { s with mem := copy s.mem moved ptr n }
    (moved, s.freeRaw (s.headRaw head) noise)

def sppcRealloc (s : Heap) (ptr newSize : Nat) (answer : Option Nat) (noise noise' : Bytes) : Option (Nat × Heap) :=
  if ptr = 0 then s.sppcMalloc newSize answer noise
  else if newSize = 0 then some (0, s.sppcFree ptr noise)
  else
    let head := headOf ptr
    if s.headRaw head = head then
      if overflows newSize heapHead then some (0, s.refuse .ENOMEM)
      else (s.reallocRaw (s.headRaw head) (wrap (newSize + heapHead)) answer noise).map fun (raw, s) =>
        s.place raw newSize heapHead
    else
      (s.sppcMalloc newSize answer noise).map fun (moved, s) => s.moveTo ptr newSize moved noise'

/-! ### Runs -/

/-- What a caller has been given. -/
def HasPtr (s : Heap) (ptr : Nat) : Prop := ptr = 0 ∨ ∃ b ∈ s.live, b.ptr = ptr

instance (s : Heap) (ptr : Nat) : Decidable (s.HasPtr ptr) := instDecidableOr

/-- A block is not the caller's any more. -/
def drop (s : Heap) (ptr : Nat) : Heap := { s with live := s.live.filter (·.ptr ≠ ptr) }

/-- A call has returned a new block, or NULL. -/
def returned (size align : Nat) (x : Nat × Heap) : Heap :=
  if x.1 = 0 then { x.2 with result := 0 }
  else { x.2 with live := ⟨x.1, size, align⟩ :: x.2.live, result := x.1 }

/-- A call has returned a new block for an old one, or NULL. -/
def moved (ptr size : Nat) (x : Nat × Heap) : Heap :=
  if x.1 = 0 then { x.2 with result := 0 } else returned size heapHead (x.1, x.2.drop ptr)

/-- One step. -/
def step (s : Heap) : HeapEvent → Option Heap
  | .malloc size answer noise =>
    if size ≤ sizeMax then (s.sppcMalloc size answer noise).map (returned size heapHead) else none
  | .aligned_alloc size alignment answer noise =>
    if size ≤ sizeMax ∧ alignment ≤ sizeMax then
      (s.sppcAlignedAlloc size alignment answer noise).map (returned size alignment)
    else none
  | .calloc num size answer noise =>
    if num ≤ sizeMax ∧ size ≤ sizeMax then (s.sppcCalloc num size answer noise).map (returned (num * size) heapHead)
    else none
  | .free ptr noise => if s.HasPtr ptr then some ((s.sppcFree ptr noise).drop ptr) else none
  | .realloc ptr size answer noise noise' =>
    if s.HasPtr ptr ∧ size ≤ sizeMax then
      if ptr ≠ 0 ∧ size = 0 then
        (s.sppcRealloc ptr size answer noise noise').map fun x => { x.2.drop ptr with result := x.1 }
      else (s.sppcRealloc ptr size answer noise noise').map (moved ptr size)
    else none
  | .write ptr i byte =>
    if ∃ b ∈ s.live, b.ptr = ptr ∧ i < b.size then some { s with mem := Function.update s.mem (ptr + i) byte }
      else none

/-- Before the first call. -/
def init (mem : Bytes) : Heap where
  mem := mem
  raws := []
  fault := false
  errno := none
  live := []
  given := 0
  back := []
  result := 0

end Heap

end Sppc.Windows
