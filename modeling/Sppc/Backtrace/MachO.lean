import Sppc.Backtrace.Elf
import Mathlib.Data.List.MinMax

/-!
# The names of functions by Mach-O symbols (`backtrace/macho.h`)

How the load commands and the symbols of an image are read where it is loaded.  What is `none` here reads memory that
is not mapped.
-/

namespace Sppc.Backtrace.MachO

/-- The memory of the process, as far as it is mapped. -/
abbrev Memory := Nat → Option UInt8

/-- The number in `n` bytes. -/
def Memory.read (m : Memory) (a n : Nat) : Option Nat :=
  if ∀ k < n, (m (a + k)).isSome then some (ByteOrder.little.load (fun b => (m b).getD 0) a n) else none

/-- Whether `strcmp` with a literal gives 0. -/
def Memory.strcmp (m : Memory) (a : Nat) : List UInt8 → Option Bool
  | [] => some true
  | c :: literal => do
    let b ← m a
    if b = c then m.strcmp (a + 1) literal else some false

def MH_MAGIC_64 : Nat := 0xfeedfacf
def LC_SYMTAB : Nat := 0x2
def LC_SEGMENT_64 : Nat := 0x19
def N_STAB : Nat := 0xe0
def N_TYPE : Nat := 0x0e
def N_SECT : Nat := 0xe

def sizeofMachHeader : Nat := 32
def sizeofLoadCommand : Nat := 8
def sizeofSegmentCommand : Nat := 72
def sizeofSection : Nat := 80
def sizeofNlist : Nat := 16

/-- `"__TEXT"` and `"__LINKEDIT"`, with their ends. -/
def SEG_TEXT : List UInt8 := [95, 95, 84, 69, 88, 84, 0]

def SEG_LINKEDIT : List UInt8 := [95, 95, 76, 73, 78, 75, 69, 68, 73, 84, 0]

/-- `_sppc_bt_image`. -/
structure Image where
  slide : Nat
  syms : Nat
  nsyms : Nat
  strtab : Nat
  strtabSize : Nat
  sect : Nat
  deriving DecidableEq, Repr

/-- The commands that have been found. -/
structure Found where
  text : Option Nat
  linkedit : Option Nat
  symtab : Option Nat
  deriving DecidableEq, Repr

/-- The first loop of `_sppc_bt_image_for`, over `n` commands from `cmd` on: `none` inside if one is too short. -/
def scanCommands (m : Memory) : Nat → Nat → Found → Option (Option Found)
  | 0, _, f => some (some f)
  | n + 1, cmd, f => do
    let cmdsize ← m.read (cmd + 4) 4
    if cmdsize < sizeofLoadCommand then some none
    else
      let kind ← m.read cmd 4
      if kind = LC_SEGMENT_64 then
        let text ← m.strcmp (cmd + 8) SEG_TEXT
        let linkedit ← m.strcmp (cmd + 8) SEG_LINKEDIT
        scanCommands m n (cmd + cmdsize)
          { f with text := if text then some cmd else f.text, linkedit := if linkedit then some cmd else f.linkedit }
      else if kind = LC_SYMTAB then scanCommands m n (cmd + cmdsize) { f with symtab := some cmd }
      else scanCommands m n (cmd + cmdsize) f

/-- The loop over the sections of a segment, `n` of them from `sect` on: the ordinal it comes to, and that of the
section that holds `addr`, or 0. -/
def scanSections (m : Memory) (addr : Nat) : Nat → Nat → Nat → Option (Nat × Nat)
  | 0, _, ordinal => some (ordinal, 0)
  | n + 1, sect, ordinal => do
    let start ← m.read (sect + 32) 8
    let size ← m.read (sect + 40) 8
    if start ≤ addr ∧ addr < sum64 start size then some (ordinal + 1, ordinal + 1)
    else scanSections m addr n (sect + sizeofSection) (ordinal + 1)

/-- The second loop, over `n` commands from `cmd` on. -/
def findSection (m : Memory) (addr : Nat) : Nat → Nat → Nat → Option Nat
  | 0, _, _ => some 0
  | n + 1, cmd, ordinal => do
    let cmdsize ← m.read (cmd + 4) 4
    let kind ← m.read cmd 4
    let nsects ← if kind = LC_SEGMENT_64 then m.read (cmd + 64) 4 else some 0
    let (ordinal, sect) ← scanSections m addr nsects (cmd + sizeofSegmentCommand) ordinal
    if sect ≠ 0 then some sect else findSection m addr n (cmd + cmdsize) ordinal

/-- The tables of an image, from the commands that have been found: `none` inside if they are out of place. -/
def tablesOf (m : Memory) (mh text linkedit symtab : Nat) : Option (Option Image) := do
  let vmaddr ← m.read (text + 24) 8
  let slide := sub64 mh vmaddr
  let lo ← m.read (linkedit + 40) 8
  let filesize ← m.read (linkedit + 48) 8
  let hi := sum64 lo filesize
  let symoff ← m.read (symtab + 8) 4
  let nsyms ← m.read (symtab + 12) 4
  if symoff < lo ∨ hi < symoff + nsyms * sizeofNlist then some none
  else
    let stroff ← m.read (symtab + 16) 4
    let strsize ← m.read (symtab + 20) 4
    if stroff < lo ∨ hi < stroff + strsize then some none
    else
      let linkaddr ← m.read (linkedit + 24) 8
      let base := sub64 (sum64 slide linkaddr) lo
      some (some ⟨slide, sum64 base symoff, nsyms, sum64 base stroff, strsize, 0⟩)

/-- `_sppc_bt_image_for`. -/
def imageFor (m : Memory) (mh pc : Nat) : Option (Option Image) := do
  let magic ← m.read mh 4
  if magic ≠ MH_MAGIC_64 then some none
  else
    let ncmds ← m.read (mh + 16) 4
    match ← scanCommands m ncmds (mh + sizeofMachHeader) ⟨none, none, none⟩ with
    | some ⟨some text, some linkedit, some symtab⟩ =>
      match ← tablesOf m mh text linkedit symtab with
      | none => some none
      | some img => do
        let sect ← findSection m (sub64 pc img.slide) ncmds (mh + sizeofMachHeader) 0
        some (if sect ≠ 0 then some { img with sect := sect } else none)
    | _ => some none

/-- `struct nlist_64`. -/
structure Nlist where
  strx : Nat
  type : Nat
  sect : Nat
  value : Nat
  deriving DecidableEq, Repr

/-- A symbol is read. -/
def Memory.nlist (m : Memory) (a : Nat) : Option Nlist := do
  let strx ← m.read a 4
  let type ← m.read (a + 4) 1
  let sect ← m.read (a + 5) 1
  let value ← m.read (a + 8) 8
  some ⟨strx, type, sect, value⟩

/-- A symbol that may name the function at the link-time address `addr`. -/
def Image.Candidate (img : Image) (addr : Nat) (s : Nlist) : Prop :=
  s.type &&& N_STAB = 0 ∧ s.type &&& N_TYPE = N_SECT ∧ s.sect = img.sect ∧ s.strx ≠ 0 ∧ s.strx < img.strtabSize ∧
    s.value ≤ addr

instance (img : Image) (addr : Nat) (s : Nlist) : Decidable (img.Candidate addr s) :=
  inferInstanceAs (Decidable (_ ∧ _))

/-- The search for the best symbol, over `n` of them from `a` on. -/
def bestFrom (m : Memory) (img : Image) (addr : Nat) : Nat → Nat → Option Nlist → Option (Option Nlist)
  | 0, _, best => some best
  | n + 1, a, best => do
    let s ← m.nlist a
    bestFrom m img addr n (a + sizeofNlist)
      (if img.Candidate addr s ∧ best.all (fun b => b.value < s.value) then some s else best)

/-- What `dladdr` knows of an address; strings are where they are in memory. -/
structure DlInfo where
  fname : Nat
  fbase : Option Nat
  sname : Option Nat
  saddr : Nat
  deriving DecidableEq, Repr

/-- What `_sppc_bt_resolve` returns, and leaves in `out_start` and `out_object`. -/
structure Name where
  name : Option Nat
  start : Nat
  object : Option Nat
  deriving DecidableEq, Repr

/-- The name by `dladdr` alone. -/
def DlInfo.fallback (info : DlInfo) (start : Nat) : Name :=
  match info.sname with
  | none => ⟨none, start, some info.fname⟩
  | some sname => ⟨some sname, info.saddr, some info.fname⟩

/-- `_sppc_bt_resolve`, where `out_start` is `start` before. -/
def resolve (m : Memory) (dladdr : Nat → Option DlInfo) (pc start : Nat) : Option Name :=
  match dladdr pc with
  | none => some ⟨none, start, none⟩
  | some info => do
    let img ← match info.fbase with
      | none => some none
      | some fbase => imageFor m fbase pc
    match img with
    | none => some (info.fallback start)
    | some img => do
      match ← bestFrom m img (sub64 pc img.slide) img.nsyms img.syms none with
      | none => some (info.fallback start)
      | some best => do
        let name := sum64 img.strtab best.strx
        let c ← m name
        some ⟨some (if c = 95 then sum64 name 1 else name), sum64 best.value img.slide, some info.fname⟩

/-! ### Images -/

/-- A segment command: the name of its segment, where that was linked at and is in the file, and its sections, each
from where on and of how many bytes. -/
structure Segment where
  cmdsize : Nat
  name : List UInt8
  vmaddr : Nat
  fileoff : Nat
  filesize : Nat
  sections : List (Nat × Nat)
  deriving DecidableEq, Repr

structure Symtab where
  cmdsize : Nat
  symoff : Nat
  nsyms : Nat
  stroff : Nat
  strsize : Nat
  deriving DecidableEq, Repr

/-- A load command. -/
inductive Command
  | segment (seg : Segment)
  | symtab (tab : Symtab)
  | other (cmdsize kind : Nat)
  deriving DecidableEq, Repr

def Command.cmdsize : Command → Nat
  | segment seg => seg.cmdsize
  | symtab tab => tab.cmdsize
  | other size _ => size

def Command.sections : Command → List (Nat × Nat)
  | segment seg => seg.sections
  | _ => []

/-- A segment command is at `p`. -/
structure Segment.At (m : Memory) (p : Nat) (seg : Segment) : Prop where
  kind : m.read p 4 = some LC_SEGMENT_64
  cmdsize : m.read (p + 4) 4 = some seg.cmdsize
  length : seg.name.length = 16
  name : ∀ k < 16, m (p + 8 + k) = seg.name[k]?
  vmaddr : m.read (p + 24) 8 = some seg.vmaddr
  fileoff : m.read (p + 40) 8 = some seg.fileoff
  filesize : m.read (p + 48) 8 = some seg.filesize
  nsects : m.read (p + 64) 4 = some seg.sections.length
  sections : ∀ k < seg.sections.length, ∀ s, seg.sections[k]? = some s →
    m.read (p + sizeofSegmentCommand + sizeofSection * k + 32) 8 = some s.1 ∧
    m.read (p + sizeofSegmentCommand + sizeofSection * k + 40) 8 = some s.2

structure Symtab.At (m : Memory) (p : Nat) (tab : Symtab) : Prop where
  kind : m.read p 4 = some LC_SYMTAB
  cmdsize : m.read (p + 4) 4 = some tab.cmdsize
  symoff : m.read (p + 8) 4 = some tab.symoff
  nsyms : m.read (p + 12) 4 = some tab.nsyms
  stroff : m.read (p + 16) 4 = some tab.stroff
  strsize : m.read (p + 20) 4 = some tab.strsize

/-- A command is at `p`. -/
def Command.At (m : Memory) (p : Nat) : Command → Prop
  | segment seg => seg.At m p
  | symtab tab => tab.At m p
  | other size kind => m.read p 4 = some kind ∧ m.read (p + 4) 4 = some size ∧ kind ≠ LC_SEGMENT_64 ∧ kind ≠ LC_SYMTAB

/-- Commands are from `p` on, back to back, as far as none is too short. -/
def CommandsAt (m : Memory) : Nat → List Command → Prop
  | _, [] => True
  | p, c :: cs => c.At m p ∧ (sizeofLoadCommand ≤ c.cmdsize → CommandsAt m (p + c.cmdsize) cs)

/-- An image with the commands is loaded at `mh`. -/
structure ImageAt (m : Memory) (mh : Nat) (cs : List Command) : Prop where
  magic : m.read mh 4 = some MH_MAGIC_64
  ncmds : m.read (mh + 16) 4 = some cs.length
  commands : CommandsAt m (mh + sizeofMachHeader) cs

/-- The last segment of the name. -/
def lastSegment (name : List UInt8) (cs : List Command) (before : Option Segment) : Option Segment :=
  cs.foldl (fun last c => match c with
    | .segment seg => if seg.name.take name.length = name then some seg else last
    | _ => last) before

def lastSymtab (cs : List Command) (before : Option Symtab) : Option Symtab :=
  cs.foldl (fun last c => match c with
    | .symtab tab => some tab
    | _ => last) before

/-- The section of the image that holds a link-time address. -/
def holds (addr : Nat) (s : Nat × Nat) : Bool := s.1 ≤ addr ∧ addr < sum64 s.1 s.2

/-- What a lookup needs of an image with the commands that is loaded at `mh`: its tables, which are in the file's part
of `__LINKEDIT`, and the ordinal of the first section that holds the pc. -/
def imageOf (cs : List Command) (mh pc : Nat) : Option Image :=
  match lastSegment SEG_TEXT cs none, lastSegment SEG_LINKEDIT cs none, lastSymtab cs none with
  | some text, some link, some tab =>
    let slide := sub64 mh text.vmaddr
    let base := sub64 (sum64 slide link.vmaddr) link.fileoff
    if (∀ c ∈ cs, sizeofLoadCommand ≤ c.cmdsize) ∧
        (link.fileoff ≤ tab.symoff ∧ tab.symoff + tab.nsyms * sizeofNlist ≤ sum64 link.fileoff link.filesize) ∧
        link.fileoff ≤ tab.stroff ∧ tab.stroff + tab.strsize ≤ sum64 link.fileoff link.filesize then
      ((cs.flatMap Command.sections).findIdx? (holds (sub64 pc slide))).map fun k =>
        ⟨slide, sum64 base tab.symoff, tab.nsyms, sum64 base tab.stroff, tab.strsize, k + 1⟩
    else none
  | _, _, _ => none

section image

variable {m : Memory} {mh pc p addr : Nat} {cs : List Command} {seg : Segment} {tab : Symtab}

private theorem strcmp_eq {a : Nat} {literal name : List UInt8} (hlength : literal.length ≤ name.length)
    (hname : ∀ k < name.length, m (a + k) = name[k]?) :
    m.strcmp a literal = some (decide (name.take literal.length = literal)) := by
  induction literal generalizing a name with
  | nil => simp [Memory.strcmp]
  | cons c literal ih =>
    cases name with
    | nil => simp at hlength
    | cons b name =>
      have hb := hname 0 (by simp)
      rw [Nat.add_zero, List.getElem?_cons_zero] at hb
      have htail : ∀ k < name.length, m (a + 1 + k) = name[k]? := fun k hk => by
        rw [Nat.add_assoc, Nat.add_comm 1 k, hname (k + 1) (by simpa using hk), List.getElem?_cons_succ]
      rw [Memory.strcmp, hb, Option.bind_eq_bind, Option.bind_some, ih (by simpa using hlength) htail]
      by_cases hbc : b = c
      · simp [hbc]
      · simp [hbc]

/-- What has been found of the commands is where they are. -/
structure FoundAt (m : Memory) (f : Found) (text link : Option Segment) (tab : Option Symtab) : Prop where
  text : Option.Rel (fun p (seg : Segment) => seg.At m p) f.text text
  link : Option.Rel (fun p (seg : Segment) => seg.At m p) f.linkedit link
  tab : Option.Rel (fun p (tab : Symtab) => tab.At m p) f.symtab tab

/-- The commands that have been found, after one more. -/
def Found.after (f : Found) (p : Nat) : Command → Found
  | .segment seg =>
    { f with
      text := if seg.name.take SEG_TEXT.length = SEG_TEXT then some p else f.text
      linkedit := if seg.name.take SEG_LINKEDIT.length = SEG_LINKEDIT then some p else f.linkedit }
  | .symtab _ => { f with symtab := some p }
  | .other .. => f

private theorem Segment.At.strcmp (h : seg.At m p) {literal : List UInt8} (hlength : literal.length ≤ 16) :
    m.strcmp (p + 8) literal = some (decide (seg.name.take literal.length = literal)) :=
  strcmp_eq (h.length ▸ hlength) fun k hk => h.name k (h.length ▸ hk)

private theorem scanCommands_cons {c : Command} (hc : c.At m p) (n : Nat) (f : Found) :
    scanCommands m (n + 1) p f =
      if c.cmdsize < sizeofLoadCommand then some none else scanCommands m n (p + c.cmdsize) (f.after p c) := by
  rw [scanCommands]
  cases c with
  | segment seg =>
    have hseg : seg.At m p := hc
    rw [hseg.cmdsize, hseg.kind, hseg.strcmp (by decide), hseg.strcmp (by decide)]
    simp [Command.cmdsize, Found.after]
    rfl
  | symtab tab =>
    have htab : tab.At m p := hc
    rw [htab.cmdsize, htab.kind]
    simp [Command.cmdsize, Found.after, LC_SYMTAB, LC_SEGMENT_64]
    rfl
  | other size kind =>
    obtain ⟨hkind, hsize, hseg, hsym⟩ := hc
    rw [hsize, hkind]
    simp [Command.cmdsize, Found.after, hseg, hsym]
    rfl

private theorem FoundAt.after {f : Found} {text link : Option Segment} {tab : Option Symtab}
    (hf : FoundAt m f text link tab) {c : Command} (hc : c.At m p) :
    FoundAt m (f.after p c) (lastSegment SEG_TEXT [c] text) (lastSegment SEG_LINKEDIT [c] link)
    (lastSymtab [c] tab) := by
  obtain ⟨htext, hlink, htab⟩ := hf
  cases c with
  | segment seg =>
    refine ⟨?_, ?_, htab⟩
    · simp only [Found.after, lastSegment, List.foldl_cons, List.foldl_nil]
      split
      · exact .some hc
      · exact htext
    · simp only [Found.after, lastSegment, List.foldl_cons, List.foldl_nil]
      split
      · exact .some hc
      · exact hlink
  | symtab tab => exact ⟨htext, hlink, .some hc⟩
  | other size kind => exact ⟨htext, hlink, htab⟩

/-- The first loop finds the last commands of their kinds, unless one is too short. -/
private theorem scanCommands_spec {f : Found} {text link : Option Segment} {tab : Option Symtab}
    (hat : CommandsAt m p cs) (hf : FoundAt m f text link tab) : if ∀ c ∈ cs, sizeofLoadCommand ≤ c.cmdsize then
      ∃ f', scanCommands m cs.length p f = some (some f') ∧
        FoundAt m f' (lastSegment SEG_TEXT cs text) (lastSegment SEG_LINKEDIT cs link) (lastSymtab cs tab)
    else scanCommands m cs.length p f = some none := by
  induction cs generalizing p f text link tab with
  | nil => exact ⟨f, rfl, hf⟩
  | cons c cs ih =>
    obtain ⟨hc, hrest⟩ := hat
    rw [List.length_cons, scanCommands_cons hc]
    by_cases hsize : sizeofLoadCommand ≤ c.cmdsize
    · have hih := ih (hrest hsize) (hf.after hc)
      rw [if_neg (Nat.not_lt.2 hsize)]
      simp only [List.forall_mem_cons, hsize, true_and]
      exact hih
    · rw [if_neg (fun hall => hsize (hall c List.mem_cons_self)), if_pos (Nat.not_le.1 hsize)]

private theorem scanSections_spec {sections : List (Nat × Nat)} {a : Nat} (ordinal : Nat)
    (hat : ∀ k < sections.length, ∀ s, sections[k]? = some s →
      m.read (a + sizeofSection * k + 32) 8 = some s.1 ∧ m.read (a + sizeofSection * k + 40) 8 = some s.2) :
    scanSections m addr sections.length a ordinal = some (match sections.findIdx? (holds addr) with
      | some k => (ordinal + k + 1, ordinal + k + 1)
      | none => (ordinal + sections.length, 0)) := by
  induction sections generalizing a ordinal with
  | nil => rfl
  | cons s sections ih =>
    obtain ⟨hstart, hsize⟩ := hat 0 (by simp) s rfl
    rw [Nat.mul_zero, Nat.add_zero] at hstart hsize
    rw [List.length_cons, scanSections, hstart, hsize, List.findIdx?_cons]
    simp only [Option.bind_eq_bind, Option.bind_some]
    by_cases hs : s.1 ≤ addr ∧ addr < sum64 s.1 s.2
    · simp [hs, holds]
    · rw [if_neg hs, ih (ordinal + 1) fun k hk t ht => ?_]
      · have hnot : holds addr s = false := by simpa [holds] using hs
        rw [hnot]
        cases sections.findIdx? (holds addr) with
        | none => simp [Nat.add_comm, Nat.add_left_comm]
        | some k => simp [Nat.add_comm, Nat.add_left_comm]
      · have hnext := hat (k + 1) (by simpa using hk) t (by simpa using ht)
        rwa [Nat.mul_add, Nat.mul_one, Nat.add_comm (sizeofSection * k), ← Nat.add_assoc] at hnext

/-- The second loop finds the first section that holds the address. -/
private theorem findSection_spec (ordinal : Nat) (hat : CommandsAt m p cs)
    (hsizes : ∀ c ∈ cs, sizeofLoadCommand ≤ c.cmdsize) :
    findSection m addr cs.length p ordinal = some (match (cs.flatMap Command.sections).findIdx? (holds addr) with
      | some k => ordinal + k + 1
      | none => 0) := by
  induction cs generalizing p ordinal with
  | nil => rfl
  | cons c cs ih =>
    obtain ⟨hc, hrest⟩ := hat
    obtain ⟨hsize, hsizes⟩ := List.forall_mem_cons.1 hsizes
    have hih := ih (ordinal + c.sections.length) (hrest hsize) hsizes
    have hone : findSection m addr (cs.length + 1) p ordinal =
        (scanSections m addr c.sections.length (p + sizeofSegmentCommand) ordinal).bind fun r =>
          if r.2 ≠ 0 then some r.2 else findSection m addr cs.length (p + c.cmdsize) r.1 := by
      rw [findSection]
      cases c with
      | segment seg =>
        have hseg : seg.At m p := hc
        rw [hseg.cmdsize, hseg.kind, hseg.nsects]
        rfl
      | symtab tab =>
        have htab : tab.At m p := hc
        rw [htab.cmdsize, htab.kind]
        rfl
      | other size kind =>
        obtain ⟨hkind, hsize, hseg, -⟩ := hc
        rw [hsize, hkind]
        simp [hseg, Command.sections, Command.cmdsize]
    have hsections : scanSections m addr c.sections.length (p + sizeofSegmentCommand) ordinal =
        some (match c.sections.findIdx? (holds addr) with
          | some k => (ordinal + k + 1, ordinal + k + 1)
          | none => (ordinal + c.sections.length, 0)) := by
      cases c with
      | segment seg => exact scanSections_spec ordinal (Segment.At.sections hc)
      | symtab tab => rfl
      | other size kind => rfl
    rw [List.length_cons, hone, hsections, List.flatMap_cons, List.findIdx?_append]
    cases c.sections.findIdx? (holds addr) with
    | some k => simp
    | none =>
      simp only [Option.bind_some, ne_eq, not_true_eq_false, if_false]
      rw [hih]
      cases (cs.flatMap Command.sections).findIdx? (holds addr) with
      | none => simp
      | some k => simp [Nat.add_comm, Nat.add_left_comm]

private theorem tablesOf_spec {text link : Nat} {tabAt : Nat} {textSeg linkSeg : Segment} (htext : textSeg.At m text)
    (hlink : linkSeg.At m link) (htab : tab.At m tabAt) :
    tablesOf m mh text link tabAt = some (if (linkSeg.fileoff ≤ tab.symoff ∧
        tab.symoff + tab.nsyms * sizeofNlist ≤ sum64 linkSeg.fileoff linkSeg.filesize) ∧
        linkSeg.fileoff ≤ tab.stroff ∧ tab.stroff + tab.strsize ≤ sum64 linkSeg.fileoff linkSeg.filesize then
      some ⟨sub64 mh textSeg.vmaddr,
        sum64 (sub64 (sum64 (sub64 mh textSeg.vmaddr) linkSeg.vmaddr) linkSeg.fileoff) tab.symoff, tab.nsyms,
        sum64 (sub64 (sum64 (sub64 mh textSeg.vmaddr) linkSeg.vmaddr) linkSeg.fileoff) tab.stroff, tab.strsize, 0⟩
      else none) := by
  unfold tablesOf
  rw [htext.vmaddr, hlink.fileoff, hlink.filesize, hlink.vmaddr, htab.symoff, htab.nsyms, htab.stroff, htab.strsize]
  simp only [Option.bind_eq_bind, Option.bind_some]
  by_cases hsyms : linkSeg.fileoff ≤ tab.symoff ∧ tab.symoff + tab.nsyms * sizeofNlist ≤
    sum64 linkSeg.fileoff linkSeg.filesize
  · rw [if_neg (by omega)]
    by_cases hstrs : linkSeg.fileoff ≤ tab.stroff ∧ tab.stroff + tab.strsize ≤ sum64 linkSeg.fileoff linkSeg.filesize
    · rw [if_neg (by omega), if_pos ⟨hsyms, hstrs⟩]
    · rw [if_pos (by omega), if_neg (fun h => hstrs h.2)]
  · rw [if_pos (by omega), if_neg (fun h => hsyms h.1)]

/-- What a lookup needs of an image is read off its commands. -/
private theorem imageFor_spec (h : ImageAt m mh cs) : imageFor m mh pc = some (imageOf cs mh pc) := by
  obtain ⟨hmagic, hncmds, hcommands⟩ := h
  have hnone : FoundAt m ⟨none, none, none⟩ none none none := ⟨.none, .none, .none⟩
  have hscan := scanCommands_spec hcommands hnone
  unfold imageFor imageOf
  rw [hmagic, hncmds]
  simp only [Option.bind_eq_bind, Option.bind_some, ne_eq, not_true_eq_false, if_false]
  by_cases hsizes : ∀ c ∈ cs, sizeofLoadCommand ≤ c.cmdsize
  · rw [if_pos hsizes] at hscan
    obtain ⟨⟨text, link, tab⟩, hscan, htext, hlink, htab⟩ := hscan
    rw [hscan]
    dsimp only at htext hlink htab
    generalize lastSegment SEG_TEXT cs none = textSeg at *
    generalize lastSegment SEG_LINKEDIT cs none = linkSeg at *
    generalize lastSymtab cs none = tabSeg at *
    cases htext with
    | none => rfl
    | some htext =>
      cases hlink with
      | none => rfl
      | some hlink =>
        cases htab with
        | none => rfl
        | some htab =>
          rename_i text textSeg link linkSeg tab tabSeg
          simp only [Option.bind_some, tablesOf_spec htext hlink htab]
          by_cases hin : (linkSeg.fileoff ≤ tabSeg.symoff ∧
              tabSeg.symoff + tabSeg.nsyms * sizeofNlist ≤ sum64 linkSeg.fileoff linkSeg.filesize) ∧
              linkSeg.fileoff ≤ tabSeg.stroff ∧
              tabSeg.stroff + tabSeg.strsize ≤ sum64 linkSeg.fileoff linkSeg.filesize
          · rw [if_pos hin, if_pos ⟨hsizes, hin⟩]
            simp only [findSection_spec 0 hcommands hsizes, Option.bind_some]
            cases (cs.flatMap Command.sections).findIdx? _ with
            | none => rfl
            | some k => simp
          · rw [if_neg hin, if_neg (fun h => hin h.2)]
  · rw [if_neg hsizes] at hscan
    rw [hscan]
    simp only [Option.bind_some]
    cases lastSegment SEG_TEXT cs none with
    | none => rfl
    | some text =>
      cases lastSegment SEG_LINKEDIT cs none with
      | none => rfl
      | some link =>
        cases lastSymtab cs none with
        | none => rfl
        | some tab =>
          dsimp only
          rw [if_neg (fun h => hsizes h.1)]

end image

/-! ### The nearest symbol -/

/-- The symbols of a table that is in memory. -/
def symbolsAt (m : Memory) (a n : Nat) : List Nlist := (List.range n).filterMap fun k => m.nlist (a + sizeofNlist * k)

/-- The bytes from `a` on are mapped. -/
def Mapped (m : Memory) (a n : Nat) : Prop := ∀ b, a ≤ b → b < a + n → (m b).isSome

section nearest

variable {m : Memory} {a n addr : Nat} {img : Image}

private theorem read_mapped {k : Nat} (h : Mapped m a n) {b : Nat} (hb : a ≤ b) (hbk : b + k ≤ a + n) :
    ∃ v, m.read b k = some v :=
  ⟨_, if_pos fun j hj => h (b + j) (by omega) (by omega)⟩

private theorem nlist_mapped (h : Mapped m a n) {b : Nat} (hb : a ≤ b) (hbn : b + sizeofNlist ≤ a + n) :
    ∃ s, m.nlist b = some s := by
  unfold sizeofNlist at hbn
  obtain ⟨strx, hstrx⟩ := read_mapped (k := 4) h hb (by omega)
  obtain ⟨type, htype⟩ := read_mapped (k := 1) (b := b + 4) h (by omega) (by omega)
  obtain ⟨sect, hsect⟩ := read_mapped (k := 1) (b := b + 5) h (by omega) (by omega)
  obtain ⟨value, hvalue⟩ := read_mapped (k := 8) (b := b + 8) h (by omega) (by omega)
  exact ⟨⟨strx, type, sect, value⟩, by
    simp only [Memory.nlist, hstrx, htype, hsect, hvalue, Option.bind_eq_bind, Option.bind_some]⟩

/-- The symbol that the search keeps. -/
def Image.keep (img : Image) (addr : Nat) (best : Option Nlist) (s : Nlist) : Option Nlist :=
  if img.Candidate addr s ∧ best.all (fun b => b.value < s.value) then some s else best

private theorem bestFrom_foldl (h : ∀ k < n, ∃ s, m.nlist (a + sizeofNlist * k) = some s) (best : Option Nlist) :
    bestFrom m img addr n a best = some ((symbolsAt m a n).foldl (img.keep addr) best) := by
  induction n generalizing a best with
  | zero => rfl
  | succ n ih =>
    obtain ⟨s, hs⟩ := h 0 (by omega)
    have hrest : symbolsAt m a (n + 1) = s :: symbolsAt m (a + sizeofNlist) n := by
      rw [symbolsAt, List.range_succ_eq_map, List.filterMap_cons, hs, List.filterMap_map, symbolsAt]
      refine congrArg (s :: ·) (List.filterMap_congr fun k _ => ?_)
      rw [Function.comp_apply, Nat.mul_succ, Nat.add_comm (sizeofNlist * k), Nat.add_assoc]
    rw [Nat.mul_zero, Nat.add_zero] at hs
    rw [bestFrom, hs, Option.bind_eq_bind, Option.bind_some, ih fun k hk => ?_, hrest, List.foldl_cons]
    · rfl
    · obtain ⟨t, ht⟩ := h (k + 1) (by omega)
      exact ⟨t, by rwa [Nat.mul_succ, Nat.add_comm (sizeofNlist * k), ← Nat.add_assoc] at ht⟩

/-- The search keeps the first of the greatest candidates. -/
private theorem foldl_keep (img : Image) (addr : Nat) (syms : List Nlist) :
    syms.foldl (img.keep addr) none = (syms.filter (img.Candidate addr)).argmax Nlist.value := by
  rw [List.argmax, List.foldl_filter]
  congr 1
  funext best s
  unfold Image.keep List.argAux
  by_cases hs : img.Candidate addr s
  · cases best with
    | none => simp [hs]
    | some b => simp [hs]
  · simp [hs]

/-- The nearest symbol at or before the pc in its section: its start is as far before the pc as its address is before
that of the pc, and its name is that of the table without an underscore. -/
def NearestName (m : Memory) (img : Image) (pc : Nat) (r : Name) : Prop :=
  ∃ b ∈ symbolsAt m img.syms img.nsyms, img.Candidate (sub64 pc img.slide) b ∧
    (∀ s ∈ symbolsAt m img.syms img.nsyms, img.Candidate (sub64 pc img.slide) s → s.value ≤ b.value) ∧
    r.start = sum64 b.value img.slide ∧ sub64 pc r.start = sub64 pc img.slide - b.value ∧
    ∃ c, m (img.strtab + b.strx) = some c ∧
    r.name = some (if c = 95 then img.strtab + b.strx + 1 else img.strtab + b.strx)

/-- `__LINKEDIT` is mapped as far as the file has it. -/
def LinkeditMapped (m : Memory) (mh : Nat) (cs : List Command) : Prop :=
  ∀ text link, lastSegment SEG_TEXT cs none = some text → lastSegment SEG_LINKEDIT cs none = some link →
    sum64 (sub64 mh text.vmaddr) link.vmaddr + link.filesize < 2 ^ 64 ∧
      Mapped m (sum64 (sub64 mh text.vmaddr) link.vmaddr) link.filesize

variable {mh pc : Nat} {cs : List Command}

/-- The tables of an image are in its `__LINKEDIT`, and the pc is in the section that is looked for. -/
private theorem imageOf_some (h : imageOf cs mh pc = some img) (hmapped : LinkeditMapped m mh cs) :
    Mapped m img.syms (sizeofNlist * img.nsyms) ∧ Mapped m img.strtab img.strtabSize ∧
      img.strtab + img.strtabSize < 2 ^ 64 ∧ img.slide < 2 ^ 64 ∧
      ∃ s, (cs.flatMap Command.sections)[img.sect - 1]? = some s ∧ holds (sub64 pc img.slide) s := by
  unfold imageOf at h
  split at h
  · rename_i text link tab htext hlink htab
    dsimp only at h
    split at h
    · rename_i hin
      obtain ⟨k, hk, rfl⟩ := Option.map_eq_some_iff.1 h
      obtain ⟨-, ⟨hlo, hhi⟩, hlo', hhi'⟩ := hin
      obtain ⟨hend, hlinked⟩ := hmapped text link htext hlink
      obtain ⟨hlt, hholds, -⟩ := List.findIdx?_eq_some_iff_getElem.1 hk
      have hwrap : sum64 link.fileoff link.filesize ≤ link.fileoff + link.filesize := Nat.mod_le _ _
      have hsmall : sum64 link.fileoff link.filesize < 2 ^ 64 := Nat.mod_lt _ (by decide)
      have hslide : sub64 mh text.vmaddr < 2 ^ 64 := Nat.mod_lt _ (by decide)
      have hbase : sum64 (sub64 mh text.vmaddr) link.vmaddr < 2 ^ 64 := Nat.mod_lt _ (by decide)
      have hplace {off : Nat} (hoff : link.fileoff ≤ off) (hle : off ≤ link.fileoff + link.filesize)
        (hlt : off < 2 ^ 64) :
          sum64 (sub64 (sum64 (sub64 mh text.vmaddr) link.vmaddr) link.fileoff) off =
            sum64 (sub64 mh text.vmaddr) link.vmaddr + (off - link.fileoff) := by
        generalize sum64 (sub64 mh text.vmaddr) link.vmaddr = base at *
        unfold sum64 sub64
        omega
      have hwidth : sizeofNlist * tab.nsyms = tab.nsyms * sizeofNlist := Nat.mul_comm _ _
      refine ⟨?_, ?_, ?_, hslide, _, List.getElem?_eq_getElem hlt, hholds⟩
      · dsimp only
        rw [hplace hlo (by omega) (by omega), hwidth]
        intro b hb hbn
        exact hlinked b (by omega) (by omega)
      · dsimp only
        rw [hplace hlo' (by omega) (by omega)]
        intro b hb hbn
        exact hlinked b (by omega) (by omega)
      · rw [hplace hlo' (by omega) (by omega)]
        dsimp only
        omega
    · cases h
  · cases h

/-- Where an image is loaded, nothing else than its commands and its `__LINKEDIT` is read of it, and a pc is named by
the nearest symbol at or before it in its section, or by `dladdr` where there is none. -/
theorem resolve_nearest (dladdr : Nat → Option DlInfo) {info : DlInfo} (start : Nat) (hpc : pc < 2 ^ 64)
    (hinfo : dladdr pc = some info) (hbase : info.fbase = some mh) (himage : ImageAt m mh cs)
    (hmapped : LinkeditMapped m mh cs) :
    ∃ r, resolve m dladdr pc start = some r ∧ r.object = some info.fname ∧
      match imageOf cs mh pc with
      | none => r = info.fallback start
      | some img => (∃ s, (cs.flatMap Command.sections)[img.sect - 1]? = some s ∧ holds (sub64 pc img.slide) s) ∧
          (NearestName m img pc r ∨
            (∀ s ∈ symbolsAt m img.syms img.nsyms, ¬img.Candidate (sub64 pc img.slide) s) ∧
            r = info.fallback start) := by
  have hfallback : (info.fallback start).object = some info.fname := by
    unfold DlInfo.fallback
    split <;> rfl
  have hresolve : resolve m dladdr pc start = (match imageOf cs mh pc with
      | none => some (info.fallback start)
      | some img => do
        match ← bestFrom m img (sub64 pc img.slide) img.nsyms img.syms none with
        | none => some (info.fallback start)
        | some best => do
          let name := sum64 img.strtab best.strx
          let c ← m name
          some ⟨some (if c = 95 then sum64 name 1 else name), sum64 best.value img.slide, some info.fname⟩) := by
    rw [resolve, hinfo]
    dsimp only
    rw [hbase]
    dsimp only
    rw [imageFor_spec himage]
    rfl
  rw [hresolve]
  cases himg : imageOf cs mh pc with
  | none => exact ⟨_, rfl, hfallback, rfl⟩
  | some img =>
    obtain ⟨hsyms, hstrs, hend, hslide, hsect⟩ := imageOf_some himg hmapped
    have hread : ∀ k < img.nsyms, ∃ s, m.nlist (img.syms + sizeofNlist * k) = some s := by
      intro k hk
      have hmul := Nat.mul_le_mul_left sizeofNlist (show k + 1 ≤ img.nsyms from hk)
      rw [Nat.mul_succ] at hmul
      exact nlist_mapped hsyms (Nat.le_add_right _ _) (by omega)
    dsimp only
    rw [bestFrom_foldl hread, foldl_keep, Option.bind_eq_bind, Option.bind_some]
    cases hbest : ((symbolsAt m img.syms img.nsyms).filter (img.Candidate (sub64 pc img.slide))).argmax Nlist.value
      with
    | none =>
      refine ⟨_, rfl, hfallback, hsect, .inr ⟨fun s hs hc => ?_, rfl⟩⟩
      have hmem : s ∈ (symbolsAt m img.syms img.nsyms).filter (img.Candidate (sub64 pc img.slide)) :=
        List.mem_filter.2 ⟨hs, decide_eq_true hc⟩
      rw [List.argmax_eq_none.1 hbest] at hmem
      cases hmem
    | some b =>
      obtain ⟨hb, hcand⟩ := List.mem_filter.1 (List.argmax_mem hbest)
      rw [decide_eq_true_eq] at hcand
      have hstrx : b.strx < img.strtabSize := hcand.2.2.2.2.1
      have hvalue : b.value ≤ sub64 pc img.slide := hcand.2.2.2.2.2
      obtain ⟨c, hc⟩ := Option.isSome_iff_exists.1 (hstrs (img.strtab + b.strx) (by omega) (by omega))
      have hname : sum64 img.strtab b.strx = img.strtab + b.strx := Nat.mod_eq_of_lt (by omega)
      have hnext : sum64 (img.strtab + b.strx) 1 = img.strtab + b.strx + 1 := Nat.mod_eq_of_lt (by omega)
      simp only [hname, hc, hnext]
      refine ⟨_, rfl, rfl, hsect, .inl ⟨b, hb, hcand, fun s hs hcs => ?_, rfl, ?_, c, hc, rfl⟩⟩
      · exact List.le_of_mem_argmax (List.mem_filter.2 ⟨hs, decide_eq_true hcs⟩) hbest
      · dsimp only
        unfold sub64 sum64 at *
        omega

end nearest

/-- A small image, and the commands of it: a section in `__TEXT`, and in `__LINKEDIT` the one symbol `_f` and its
name. -/
def smallImage : List UInt8 :=
  [0xcf, 0xfa, 0xed, 0xfe] ++ List.replicate 12 0 ++ [3, 0, 0, 0] ++ List.replicate 12 0 ++
  [0x19, 0, 0, 0, 152, 0, 0, 0] ++ [95, 95, 84, 69, 88, 84] ++ List.replicate 50 0 ++ [1] ++ List.replicate 39 0 ++
    [64] ++ List.replicate 7 0 ++ [8] ++ List.replicate 39 0 ++
  [0x19, 0, 0, 0, 72, 0, 0, 0] ++ [95, 95, 76, 73, 78, 75, 69, 68, 73, 84] ++ List.replicate 6 0 ++ [24, 1] ++
    List.replicate 14 0 ++ [24, 1] ++ List.replicate 6 0 ++ [20] ++ List.replicate 23 0 ++
  [2, 0, 0, 0, 24, 0, 0, 0, 24, 1, 0, 0, 1, 0, 0, 0, 40, 1, 0, 0, 4, 0, 0, 0] ++
  [1, 0, 0, 0, 14, 1, 0, 0, 66, 0, 0, 0, 0, 0, 0, 0] ++ [0, 95, 102, 0]

def smallCommands : List Command :=
  [.segment ⟨152, [95, 95, 84, 69, 88, 84, 0, 0, 0, 0, 0, 0, 0, 0, 0, 0], 0, 0, 0, [(64, 8)]⟩,
    .segment ⟨72, [95, 95, 76, 73, 78, 75, 69, 68, 73, 84, 0, 0, 0, 0, 0, 0], 280, 280, 20, []⟩,
    .symtab ⟨24, 280, 1, 296, 4⟩]

/-- The memory with an image at `mh`, and nothing else. -/
def Memory.image (mh : Nat) (bytes : List UInt8) : Memory := fun a => if mh ≤ a then bytes[a - mh]? else none

private theorem smallImage_at : ImageAt (Memory.image 4096 smallImage) 4096 smallCommands where
  magic := by decide +kernel
  ncmds := by decide +kernel
  commands := by
    refine ⟨⟨by decide +kernel, by decide +kernel, by decide +kernel, by decide +kernel, by decide +kernel, by
      decide +kernel, by decide +kernel, by decide +kernel, ?_⟩, fun _ =>
        ⟨⟨by decide +kernel, by decide +kernel, by decide +kernel,
      by decide +kernel, by decide +kernel, by decide +kernel, by decide +kernel, by decide +kernel, ?_⟩, fun _ =>
      ⟨⟨by decide +kernel, by decide +kernel, by decide +kernel, by decide +kernel, by decide +kernel, by
        decide +kernel⟩, fun _ => trivial⟩⟩⟩
    · intro k hk s hs
      obtain rfl : k = 0 := Nat.lt_one_iff.1 hk
      obtain rfl : (64, 8) = s := Option.some.inj hs
      decide +kernel
    · exact fun k hk => absurd hk (Nat.not_lt_zero k)

private theorem smallImage_linkedit : LinkeditMapped (Memory.image 4096 smallImage) 4096 smallCommands := by
  intro text link htext hlink
  obtain rfl := Option.some.inj htext
  obtain rfl := Option.some.inj hlink
  refine ⟨by decide +kernel, fun b hb hbn => ?_⟩
  have hbytes : ∀ k < 20, (Memory.image 4096 smallImage (4376 + k)).isSome := by decide +kernel
  have hlo : 4376 ≤ b := hb
  have hhi : b < 4376 + 20 := hbn
  simpa [Nat.add_sub_cancel' hlo] using hbytes (b - 4376) (by omega)

theorem resolve_nearest_small :
    ∃ r, resolve (Memory.image 4096 smallImage) (fun _ => some ⟨10, some 4096, none, 0⟩) 4165 0 = some r ∧
      r.object = some 10 ∧ match imageOf smallCommands 4096 4165 with
      | none => r = DlInfo.fallback ⟨10, some 4096, none, 0⟩ 0
      | some img => (∃ s, (smallCommands.flatMap Command.sections)[img.sect - 1]? = some s ∧
        holds (sub64 4165 img.slide) s) ∧
          (NearestName (Memory.image 4096 smallImage) img 4165 r ∨
            (∀ s ∈ symbolsAt (Memory.image 4096 smallImage) img.syms img.nsyms,
              ¬img.Candidate (sub64 4165 img.slide) s) ∧ r = DlInfo.fallback ⟨10, some 4096, none, 0⟩ 0) :=
  resolve_nearest (fun _ => some ⟨10, some 4096, none, 0⟩) 0 (by decide) rfl rfl smallImage_at smallImage_linkedit

end Sppc.Backtrace.MachO
