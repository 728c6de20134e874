import Sppc.Readings

/-!
# The names of functions by ELF symbols (`backtrace/elf.h`)

How the file of an object is read when a backtrace names a function in it, on a platform of 64 bits.  A pointer into
the file is an offset from its start, and wraps as the pointer does.
-/

namespace Sppc.Backtrace

/-- The file of an object that is mapped, of the byte order of the platform. -/
structure Elf extends MappedFile where
  order : ByteOrder

/-- A member of a structure of the file: where it is in it, and of how many bytes. -/
structure Member where
  start : Nat
  width : Nat

def ePhoff : Member := ⟨32, 8⟩
def eShoff : Member := ⟨40, 8⟩
def ePhnum : Member := ⟨56, 2⟩
def eShnum : Member := ⟨60, 2⟩
def eShstrndx : Member := ⟨62, 2⟩

def pType : Member := ⟨0, 4⟩
def pOffset : Member := ⟨8, 8⟩
def pVaddr : Member := ⟨16, 8⟩

def shName : Member := ⟨0, 4⟩
def shType : Member := ⟨4, 4⟩
def shAddr : Member := ⟨16, 8⟩
def shOffset : Member := ⟨24, 8⟩
def shSize : Member := ⟨32, 8⟩
def shLink : Member := ⟨40, 4⟩
def shEntsize : Member := ⟨56, 8⟩

def stName : Member := ⟨0, 4⟩
def stInfo : Member := ⟨4, 1⟩
def stShndx : Member := ⟨6, 2⟩
def stValue : Member := ⟨8, 8⟩
def stSize : Member := ⟨16, 8⟩

def sizeofEhdr : Nat := 64
def sizeofPhdr : Nat := 56
def sizeofShdr : Nat := 64
def sizeofSym : Nat := 24

def elfMag : List UInt8 := [0x7f, 69, 76, 70]
def PT_LOAD : Nat := 1
def SHT_SYMTAB : Nat := 2
def SHT_DYNSYM : Nat := 11
def STT_FUNC : Nat := 2
def STT_GNU_IFUNC : Nat := 10

/-- `".kcfi_traps"`, with its end. -/
def kcfiTraps : List UInt8 := [46, 107, 99, 102, 105, 95, 116, 114, 97, 112, 115, 0]

/-- The addresses of the object's control-flow-integrity traps in the file. -/
structure Traps where
  start : Nat
  vaddr : Nat
  count : Nat

/-- The symbols of the object, and their names, in the file. -/
structure Tables where
  syms : Nat
  nsyms : Nat
  strtab : Nat
  strtabSize : Nat

/-- `_sppc_bt_object`, as `_sppc_bt_load` leaves it. -/
structure Object where
  bias : Nat
  traps : Option Traps
  tables : Option Tables

/-- `size_t` wraps. -/
def sum64 (a b : Nat) : Nat := (a + b) % 2 ^ 64

def sub64 (a b : Nat) : Nat := (a + 2 ^ 64 - b) % 2 ^ 64

/-- `(uintptr_t)(intptr_t)` of a number of 32 bits. -/
def extend32 (n : Nat) : Nat := if n < 2 ^ 31 then n else n + (2 ^ 64 - 2 ^ 32)

namespace Elf

/-- What a member of the structure at `base` is in the file. -/
def member (e : Elf) (base : Nat) (c : Member) : Nat := e.peek e.order (base + c.start) c.width

/-- It is read. -/
def read (e : Elf) (base : Nat) (c : Member) : Reading Nat := e.toMappedFile.get e.order (base + c.start) c.width

/-- A byte is read. -/
def char (e : Elf) (off : Nat) : Reading UInt8 := ⟨e.byte (off % 2 ^ 64), [(off, 1)]⟩

/-- `n` bytes are read. -/
def chars (e : Elf) (off : Nat) : Nat → Reading (List UInt8)
  | 0 => pure []
  | n + 1 => do
    let c ← e.char off
    let rest ← e.chars (off + 1) n
    pure (c :: rest)

/-- `strncmp` with a string that has its end. -/
def strncmp (e : Elf) (off : Nat) : List UInt8 → Nat → Reading Bool
  | [], _ | _ :: _, 0 => pure true
  | c :: name, n + 1 => do
    let b ← e.char off
    if b = c then e.strncmp (off + 1) name n else pure false

/-- Whether a string ends after `k` bytes. -/
def endsAt (e : Elf) (off k : Nat) : Reading (Option Nat) := do
  let c ← e.char (off + k)
  pure (if c = 0 then some k else none)

/-- `strlen`, once around the address space at most. -/
def strlen (e : Elf) (off : Nat) : Reading Nat := do
  let found ← Reading.first (e.endsAt off) (2 ^ 64)
  pure (found.getD 0)

/-! ### `_sppc_bt_load` -/

/-- The link-time address of the segment `i`, if it is at the start of the file. -/
def segmentIn (e : Elf) (phoff i : Nat) : Reading (Option Nat) := do
  let type ← e.read (phoff + i * sizeofPhdr) pType
  if type = PT_LOAD then
    let offset ← e.read (phoff + i * sizeofPhdr) pOffset
    if offset = 0 then
      let vaddr ← e.read (phoff + i * sizeofPhdr) pVaddr
      pure (some vaddr)
    else pure none
  else pure none

def headerVaddr (e : Elf) (phoff phnum : Nat) : Reading Nat := do
  let found ← Reading.first (e.segmentIn phoff) phnum
  pure (found.getD 0)

/-- Whether the section `i` is that of the traps, by its name in `namesSize` bytes at `namesOffset`. -/
def trapsIn (e : Elf) (shoff namesOffset namesSize i : Nat) : Reading (Option Traps) := do
  let name ← e.read (shoff + i * sizeofShdr) shName
  if namesSize ≤ name then pure none
  else
    let offset ← e.read (shoff + i * sizeofShdr) shOffset
    let size ← e.read (shoff + i * sizeofShdr) shSize
    if e.size < sum64 offset size then pure none
    else
      let same ← e.strncmp (namesOffset + name) kcfiTraps (namesSize - name)
      if same then
        let vaddr ← e.read (shoff + i * sizeofShdr) shAddr
        pure (some ⟨offset, vaddr, size / 4⟩)
      else pure none

def findTraps (e : Elf) (shoff shnum : Nat) : Reading (Option Traps) := do
  let shstrndx ← e.read 0 eShstrndx
  if shstrndx < shnum then
    let namesOffset ← e.read (shoff + shstrndx * sizeofShdr) shOffset
    let namesSize ← e.read (shoff + shstrndx * sizeofShdr) shSize
    if sum64 namesOffset namesSize ≤ e.size then Reading.first (e.trapsIn shoff namesOffset namesSize) shnum
    else pure none
  else pure none

/-- Whether the section `i` is a symbol table of the type that is wanted, with its strings. -/
def tablesIn (e : Elf) (shoff shnum wanted i : Nat) : Reading (Option Tables) := do
  let type ← e.read (shoff + i * sizeofShdr) shType
  if type ≠ wanted then pure none
  else
    let entsize ← e.read (shoff + i * sizeofShdr) shEntsize
    if entsize ≠ sizeofSym then pure none
    else
      let link ← e.read (shoff + i * sizeofShdr) shLink
      if shnum ≤ link then pure none
      else
        let offset ← e.read (shoff + i * sizeofShdr) shOffset
        let size ← e.read (shoff + i * sizeofShdr) shSize
        if e.size < sum64 offset size then pure none
        else
          let strOffset ← e.read (shoff + link * sizeofShdr) shOffset
          let strSize ← e.read (shoff + link * sizeofShdr) shSize
          if e.size < sum64 strOffset strSize then pure none
          else pure (some ⟨offset, size / sizeofSym, strOffset, strSize⟩)

/-- `.symtab` if the file has one, `.dynsym` if not. -/
def findTables (e : Elf) (shoff shnum : Nat) : Reading (Option Tables) := do
  match ← Reading.first (e.tablesIn shoff shnum SHT_SYMTAB) shnum with
  | some tables => pure (some tables)
  | none => Reading.first (e.tablesIn shoff shnum SHT_DYNSYM) shnum

/-- `_sppc_bt_load` from where the file is mapped, of an object that is at `fbase`. -/
def load (e : Elf) (fbase : Nat) : Reading Object := do
  let ident ← e.chars 0 4
  if ident ≠ elfMag then pure ⟨0, none, none⟩
  else
    let phoff ← e.read 0 ePhoff
    let phnum ← e.read 0 ePhnum
    if e.size < sum64 phoff (phnum * sizeofPhdr) then pure ⟨0, none, none⟩
    else
      let shoff ← e.read 0 eShoff
      let shnum ← e.read 0 eShnum
      if shoff = 0 ∨ e.size < sum64 shoff (shnum * sizeofShdr) then pure ⟨0, none, none⟩
      else
        let vaddr ← e.headerVaddr phoff phnum
        let traps ← e.findTraps shoff shnum
        let tables ← e.findTables shoff shnum
        pure ⟨sub64 fbase vaddr, traps, tables⟩

/-! ### `_sppc_bt_is_cfi_trap` and `_sppc_bt_resolve` -/

/-- Whether the trap `i` is at the link-time address `addr`. -/
def trapAt (e : Elf) (t : Traps) (addr i : Nat) : Reading (Option Unit) := do
  let offset ← e.read (t.start + i * 4) ⟨0, 4⟩
  pure (if (t.vaddr + i * 4 + extend32 offset) % 2 ^ 64 = addr then some () else none)

def isCfiTrap (e : Elf) (obj : Object) (pc : Nat) : Reading Bool :=
  match obj.traps with
  | none => pure false
  | some t => do
    let found ← Reading.first (e.trapAt t (sub64 pc obj.bias)) t.count
    pure found.isSome

/-- `_sppc_bt_sym_code`: on ELFv1 the symbol is where the code's run-time address is in memory. -/
def symCode (opd : Option (Nat → Nat)) (bias value : Nat) : Nat :=
  match opd with
  | none => value
  | some word => sub64 (word (sum64 bias value)) bias

/-- One step of the search for the symbol of the link-time address `addr`. -/
def considerSym (e : Elf) (opd : Option (Nat → Nat)) (bias : Nat) (t : Tables) (addr i : Nat)
    (best : Option (Nat × Nat)) : Reading (ForInStep (Option (Nat × Nat))) := do
  let info ← e.read (t.syms + i * sizeofSym) stInfo
  if info % 16 ≠ STT_FUNC ∧ info % 16 ≠ STT_GNU_IFUNC then pure (.yield best)
  else
    let shndx ← e.read (t.syms + i * sizeofSym) stShndx
    if shndx = 0 then pure (.yield best)
    else
      let name ← e.read (t.syms + i * sizeofSym) stName
      if t.strtabSize ≤ name then pure (.yield best)
      else
        let value ← e.read (t.syms + i * sizeofSym) stValue
        if addr < symCode opd bias value then pure (.yield best)
        else
          let size ← e.read (t.syms + i * sizeofSym) stSize
          if addr < sum64 (symCode opd bias value) size then pure (.done (some (i, symCode opd bias value)))
          else if size = 0 ∧ best.all fun b => b.2 < symCode opd bias value then
            pure (.yield (some (i, symCode opd bias value)))
          else pure (.yield best)

/-- `_sppc_bt_resolve` by the file: where the name is in it, and the function's start.  Where there is none the name
is `dladdr`'s. -/
def resolve (e : Elf) (opd : Option (Nat → Nat)) (obj : Object) (pc : Nat) : Reading (Option (Nat × Nat)) :=
  match obj.tables with
  | none => pure none
  | some t => do
    match ← Reading.loop (e.considerSym opd obj.bias t (sub64 pc obj.bias)) 0 t.nsyms none with
    | none => pure none
    | some (i, code) => do
      let name ← e.read (t.syms + i * sizeofSym) stName
      pure (some (t.strtab + name, sum64 code obj.bias))

/-! ### `_sppc_bt_put_symbol` -/

def isHex (c : UInt8) : Bool := (48 ≤ c ∧ c ≤ 57) ∨ (97 ≤ c ∧ c ≤ 102)

/-- Whether a name of `n` bytes ends in a hash. -/
def hasHash (e : Elf) (name n : Nat) : Reading Bool := do
  if n < 18 then pure false
  else
    let dollar ← e.char (name + (n - 18))
    if dollar ≠ 36 then pure false
    else
      let h ← e.char (name + (n - 17))
      if h ≠ 104 then pure false
      else
        let hash ← e.chars (name + (n - 16)) 16
        pure (hash.all isHex)

/-- `_sppc_bt_put_symbol`, where the report has so much room. -/
def putSymbol (e : Elf) (name room : Nat) : Reading (List UInt8) := do
  let n ← e.strlen name
  let hash ← e.hasHash name n
  if hash then e.chars name (min (n - 18) room)
  else
    let n ← e.strlen name
    e.chars name (min n room)

end Elf

end Sppc.Backtrace
