import Sppc.SaveArea

/-!
# Context switches with a flat register block (`asm/switch_*.S`, `async/context.h`)

For each calling convention, its `_gt_switch`, and what `_gt_stack_prime` lays out for it.  Memory is little-endian
here on every one: nothing but the code below reads the blocks, and it reads each value as it was stored.
-/

namespace Sppc

open Bytes SaveArea SaveArea.Instr

/-- What `_gt_stack_prime` writes: its block begins `below` bytes below the top of the stack, `zeroed` of its bytes
are 0, then values are stored there (an offset, a length and the value each), and the entry point. -/
structure Primer where
  below : Nat
  zeroed : Nat
  stores : List (Nat × Nat × Nat)
  entry : Nat

/-- `_gt_stack_prime`: the stack pointer to switch to, and the memory. -/
def Primer.stackPrime (p : Primer) (mem : Bytes) (usable size entry : Nat) : Nat × Bytes :=
  let top := (usable + size) % 2 ^ 64 &&& (2 ^ 64 - 1 - 15)
  let base := top - p.below
  let mem := clear mem base p.zeroed
  let mem := storeAll base mem p.stores
  (base, storeBytes mem (base + p.entry) entry 8)

/-- A calling convention with its switch: the register that has the return address after the switch, what is stored in
new stacks, the values that the control registers have then, how much a function may use above its stack pointer, and
what that is modulo 16 where a function begins. -/
structure Abi where
  Reg : Type
  dec : DecidableEq Reg
  width : Reg → Nat
  code : Routine width
  link : Reg
  primer : Primer
  defaults : List (Reg × Nat)
  above : Nat
  entryMod : Nat

instance (a : Abi) : DecidableEq a.Reg := a.dec

namespace Abi

/-- The control registers have their defaults, and the others are 0. -/
def initial (a : Abi) : Regs a.width :=
  a.defaults.foldl (fun ρ d => ρ.set d.1 d.2) ⟨fun _ => 0, fun _ => Nat.pow_pos (by decide)⟩

/-- The registers that a new stack starts its task with. -/
def primed (a : Abi) (entry sp : Nat) : Regs a.width := (a.initial.set a.link entry).set a.code.sp sp

/-- The registers at a call of `_gt_switch` on two slots. -/
def called (a : Abi) (regs : Regs a.width) (save load : Nat) : Regs a.width :=
  (regs.set a.code.arg0 save).set a.code.arg1 load

end Abi

/-! ### System V x86_64 -/

/-- The registers of x86_64: `call` and `ret` save and load `rip`. -/
inductive X86Reg
  | rsp | rip | rdi | rsi | rbp | rbx | r12 | r13 | r14 | r15 | mxcsr | x87
  deriving DecidableEq, Repr

def X86Reg.width : X86Reg → Nat
  | .mxcsr => 4
  | .x87 => 2
  | _ => 8

def push (r : X86Reg) : List (Instr X86Reg) := [add .rsp (-8), st 8 r .rsp 0]

def pop (r : X86Reg) : List (Instr X86Reg) := [ld 8 r .rsp 0, add .rsp 8]

/-- `switch_sysv_x86_64.S`, from the `call` to the `ret`; `ptr` is 4 on x32. -/
def switchX86 (ptr : Nat) : Routine X86Reg.width where
  sp := .rsp
  arg0 := .rdi
  arg1 := .rsi
  ptr := ptr
  size := 64
  saves := push .rip ++
    push .rbp ++ push .rbx ++ push .r12 ++ push .r13 ++ push .r14 ++ push .r15 ++
    [add .rsp (-8), st 4 .mxcsr .rsp 0, st 2 .x87 .rsp 4]
  exchange := [st ptr .rsp .rdi 0, ld ptr .rsp .rsi 0]
  loads := [ld 4 .mxcsr .rsp 0, ld 2 .x87 .rsp 4, add .rsp 8] ++
    pop .r15 ++ pop .r14 ++ pop .r13 ++ pop .r12 ++ pop .rbx ++ pop .rbp ++
    pop .rip
  kept := [.rip, .rbp, .rbx, .r12, .r13, .r14, .r15, .mxcsr, .x87]

def abiX86 (ptr : Nat) : Abi where
  Reg := X86Reg
  dec := inferInstance
  width := X86Reg.width
  code := switchX86 ptr
  link := .rip
  primer := ⟨16 + 56, 56, [(0, 4, 0x1F80), (4, 2, 0x037F)], 56⟩
  defaults := [(.mxcsr, 0x1F80), (.x87, 0x037F)]
  above := 8
  entryMod := 8

/-! ### AAPCS64 -/

inductive Arm64Reg
  | sp | x (n : Nat) | d (n : Nat) | fpcr
  deriving DecidableEq, Repr

def Arm64Reg.width (_ : Arm64Reg) : Nat := 8

def stp (r r' : Arm64Reg) (off : Nat) : List (Instr Arm64Reg) := [st 8 r .sp off, st 8 r' .sp (off + 8)]

def ldp (r r' : Arm64Reg) (off : Nat) : List (Instr Arm64Reg) := [ld 8 r .sp off, ld 8 r' .sp (off + 8)]

/-- `switch_aapcs64.S`. -/
def switchArm64 : Routine Arm64Reg.width where
  sp := .sp
  arg0 := .x 0
  arg1 := .x 1
  ptr := 8
  size := 176
  saves := [add .sp (-176)] ++
    stp (.x 19) (.x 20) 0 ++ stp (.x 21) (.x 22) 16 ++ stp (.x 23) (.x 24) 32 ++ stp (.x 25) (.x 26) 48 ++
    stp (.x 27) (.x 28) 64 ++ stp (.x 29) (.x 30) 80 ++
    stp (.d 8) (.d 9) 96 ++ stp (.d 10) (.d 11) 112 ++ stp (.d 12) (.d 13) 128 ++ stp (.d 14) (.d 15) 144 ++
    [mv (.x 2) .fpcr, st 8 (.x 2) .sp 160]
  exchange := [mv (.x 2) .sp, st 8 (.x 2) (.x 0) 0, ld 8 (.x 2) (.x 1) 0, mv .sp (.x 2)]
  loads := [ld 8 (.x 2) .sp 160, mv .fpcr (.x 2)] ++
    ldp (.d 14) (.d 15) 144 ++ ldp (.d 12) (.d 13) 128 ++ ldp (.d 10) (.d 11) 112 ++ ldp (.d 8) (.d 9) 96 ++
    ldp (.x 29) (.x 30) 80 ++ ldp (.x 27) (.x 28) 64 ++
    ldp (.x 25) (.x 26) 48 ++ ldp (.x 23) (.x 24) 32 ++ ldp (.x 21) (.x 22) 16 ++ ldp (.x 19) (.x 20) 0 ++
    [add .sp 176]
  kept := (List.range' 19 12).map .x ++ (List.range' 8 8).map .d ++ [.fpcr]

def abiArm64 : Abi where
  Reg := Arm64Reg
  dec := inferInstance
  width := Arm64Reg.width
  code := switchArm64
  link := .x 30
  primer := ⟨176, 176, [], 88⟩
  defaults := [(.fpcr, 0)]
  above := 0
  entryMod := 0

/-! ### RISC-V LP64D -/

inductive RiscvReg
  | sp | ra | a (n : Nat) | t (n : Nat) | s (n : Nat) | fs (n : Nat) | fcsr
  deriving DecidableEq, Repr

def RiscvReg.width : RiscvReg → Nat
  | .fcsr => 4
  | _ => 8

/-- `switch_riscv_lp64d.S`. -/
def switchRiscv : Routine RiscvReg.width where
  sp := .sp
  arg0 := .a 0
  arg1 := .a 1
  ptr := 8
  size := 208
  saves := [add .sp (-208), st 8 .ra .sp 0,
    st 8 (.s 0) .sp 8, st 8 (.s 1) .sp 16, st 8 (.s 2) .sp 24, st 8 (.s 3) .sp 32, st 8 (.s 4) .sp 40,
    st 8 (.s 5) .sp 48, st 8 (.s 6) .sp 56, st 8 (.s 7) .sp 64, st 8 (.s 8) .sp 72, st 8 (.s 9) .sp 80,
    st 8 (.s 10) .sp 88, st 8 (.s 11) .sp 96,
    st 8 (.fs 0) .sp 104, st 8 (.fs 1) .sp 112, st 8 (.fs 2) .sp 120, st 8 (.fs 3) .sp 128, st 8 (.fs 4) .sp 136,
    st 8 (.fs 5) .sp 144, st 8 (.fs 6) .sp 152, st 8 (.fs 7) .sp 160, st 8 (.fs 8) .sp 168, st 8 (.fs 9) .sp 176,
    st 8 (.fs 10) .sp 184, st 8 (.fs 11) .sp 192,
    mv (.t 0) .fcsr, st 8 (.t 0) .sp 200]
  exchange := [st 8 .sp (.a 0) 0, ld 8 .sp (.a 1) 0]
  loads := [ld 8 (.t 0) .sp 200, mv .fcsr (.t 0),
    ld 8 (.fs 11) .sp 192, ld 8 (.fs 10) .sp 184, ld 8 (.fs 9) .sp 176, ld 8 (.fs 8) .sp 168, ld 8 (.fs 7) .sp 160,
    ld 8 (.fs 6) .sp 152, ld 8 (.fs 5) .sp 144, ld 8 (.fs 4) .sp 136, ld 8 (.fs 3) .sp 128, ld 8 (.fs 2) .sp 120,
    ld 8 (.fs 1) .sp 112, ld 8 (.fs 0) .sp 104,
    ld 8 (.s 11) .sp 96, ld 8 (.s 10) .sp 88, ld 8 (.s 9) .sp 80, ld 8 (.s 8) .sp 72, ld 8 (.s 7) .sp 64,
    ld 8 (.s 6) .sp 56, ld 8 (.s 5) .sp 48, ld 8 (.s 4) .sp 40, ld 8 (.s 3) .sp 32, ld 8 (.s 2) .sp 24,
    ld 8 (.s 1) .sp 16, ld 8 (.s 0) .sp 8,
    ld 8 .ra .sp 0, add .sp 208]
  kept := [.ra] ++ (List.range 12).map .s ++ (List.range 12).map .fs ++ [.fcsr]

def abiRiscv : Abi where
  Reg := RiscvReg
  dec := inferInstance
  width := RiscvReg.width
  code := switchRiscv
  link := .ra
  primer := ⟨208, 208, [], 0⟩
  defaults := [(.fcsr, 0)]
  above := 0
  entryMod := 0

/-! ### LoongArch LP64D -/

inductive LoongReg
  | sp | ra | fp | a (n : Nat) | t (n : Nat) | s (n : Nat) | fs (n : Nat) | fcsr0
  deriving DecidableEq, Repr

def LoongReg.width : LoongReg → Nat
  | .fcsr0 => 4
  | _ => 8

/-- `switch_loongarch_lp64d.S`. -/
def switchLoong : Routine LoongReg.width where
  sp := .sp
  arg0 := .a 0
  arg1 := .a 1
  ptr := 8
  size := 160
  saves := [add .sp (-160), st 8 .ra .sp 0, st 8 .fp .sp 8,
    st 8 (.s 0) .sp 16, st 8 (.s 1) .sp 24, st 8 (.s 2) .sp 32, st 8 (.s 3) .sp 40, st 8 (.s 4) .sp 48,
    st 8 (.s 5) .sp 56, st 8 (.s 6) .sp 64, st 8 (.s 7) .sp 72, st 8 (.s 8) .sp 80,
    st 8 (.fs 0) .sp 88, st 8 (.fs 1) .sp 96, st 8 (.fs 2) .sp 104, st 8 (.fs 3) .sp 112, st 8 (.fs 4) .sp 120,
    st 8 (.fs 5) .sp 128, st 8 (.fs 6) .sp 136, st 8 (.fs 7) .sp 144,
    mv (.t 0) .fcsr0, st 8 (.t 0) .sp 152]
  exchange := [st 8 .sp (.a 0) 0, ld 8 .sp (.a 1) 0]
  loads := [ld 8 (.t 0) .sp 152, mv .fcsr0 (.t 0),
    ld 8 (.fs 7) .sp 144, ld 8 (.fs 6) .sp 136, ld 8 (.fs 5) .sp 128, ld 8 (.fs 4) .sp 120, ld 8 (.fs 3) .sp 112,
    ld 8 (.fs 2) .sp 104, ld 8 (.fs 1) .sp 96, ld 8 (.fs 0) .sp 88,
    ld 8 (.s 8) .sp 80, ld 8 (.s 7) .sp 72, ld 8 (.s 6) .sp 64, ld 8 (.s 5) .sp 56, ld 8 (.s 4) .sp 48,
    ld 8 (.s 3) .sp 40, ld 8 (.s 2) .sp 32, ld 8 (.s 1) .sp 24, ld 8 (.s 0) .sp 16,
    ld 8 .fp .sp 8, ld 8 .ra .sp 0, add .sp 160]
  kept := [.ra, .fp] ++ (List.range 9).map .s ++ (List.range 8).map .fs ++ [.fcsr0]

def abiLoong : Abi where
  Reg := LoongReg
  dec := inferInstance
  width := LoongReg.width
  code := switchLoong
  link := .ra
  primer := ⟨160, 160, [], 0⟩
  defaults := [(.fcsr0, 0)]
  above := 0
  entryMod := 0

/-! ### s390x -/

inductive S390Reg
  | r (n : Nat) | f (n : Nat) | fpc
  deriving DecidableEq, Repr

def S390Reg.width : S390Reg → Nat
  | .fpc => 4
  | _ => 8

/-- `stmg %r6, %r14, 0(%r15)`. -/
def stmg : List (Instr S390Reg) := (List.range 9).map fun i => st 8 (.r (6 + i)) (.r 15) (8 * i)

/-- `lmg %r6, %r14, 0(%r15)`. -/
def lmg : List (Instr S390Reg) := (List.range 9).map fun i => ld 8 (.r (6 + i)) (.r 15) (8 * i)

/-- `switch_s390x.S`. -/
def switchS390 : Routine S390Reg.width where
  sp := .r 15
  arg0 := .r 2
  arg1 := .r 3
  ptr := 8
  size := 144
  saves := [add (.r 15) (-144)] ++ stmg ++
    [st 8 (.f 8) (.r 15) 72, st 8 (.f 9) (.r 15) 80, st 8 (.f 10) (.r 15) 88, st 8 (.f 11) (.r 15) 96,
      st 8 (.f 12) (.r 15) 104, st 8 (.f 13) (.r 15) 112, st 8 (.f 14) (.r 15) 120, st 8 (.f 15) (.r 15) 128,
      st 4 .fpc (.r 15) 136]
  exchange := [st 8 (.r 15) (.r 2) 0, ld 8 (.r 15) (.r 3) 0]
  loads := [ld 4 .fpc (.r 15) 136,
      ld 8 (.f 15) (.r 15) 128, ld 8 (.f 14) (.r 15) 120, ld 8 (.f 13) (.r 15) 112, ld 8 (.f 12) (.r 15) 104,
      ld 8 (.f 11) (.r 15) 96, ld 8 (.f 10) (.r 15) 88, ld 8 (.f 9) (.r 15) 80, ld 8 (.f 8) (.r 15) 72] ++
    lmg ++ [add (.r 15) 144]
  kept := (List.range' 6 9).map .r ++ (List.range' 8 8).map .f ++ [.fpc]

def abiS390 : Abi where
  Reg := S390Reg
  dec := inferInstance
  width := S390Reg.width
  code := switchS390
  link := .r 14
  primer := ⟨160 + 144, 144 + 160, [], 64⟩
  defaults := [(.fpc, 0)]
  above := 160
  entryMod := 0

/-- The calling conventions with a flat register block. -/
inductive FlatAbi
  | sysvX86_64 | sysvX32 | aapcs64 | riscvLp64d | loongarchLp64d | s390x
  deriving DecidableEq, Repr

def FlatAbi.abi : FlatAbi → Abi
  | .sysvX86_64 => abiX86 8
  | .sysvX32 => abiX86 4
  | .aapcs64 => abiArm64
  | .riscvLp64d => abiRiscv
  | .loongarchLp64d => abiLoong
  | .s390x => abiS390

/-! ### The code and the primers agree -/

/-- The primer writes a register's value where the switch loads it from. -/
def Abi.Primes (a : Abi) (s : Slot a.Reg) : Prop :=
  s.reg ≠ a.code.sp ∧
  if s.reg = a.link then s.off = a.primer.entry ∧ s.len = 8
  else
    (s.off + s.len ≤ a.primer.entry ∨ a.primer.entry + 8 ≤ s.off) ∧
    ((∃ w ∈ a.primer.stores, w = (s.off, s.len, a.initial.val s.reg)) ∨
      a.initial.val s.reg = 0 ∧ s.off + s.len ≤ a.primer.zeroed ∧ ∀ w ∈ a.primer.stores, StoreApart w s.off s.len)

instance (a : Abi) (s : Slot a.Reg) : Decidable (a.Primes s) := instDecidableAnd

/-- What the switch and the primer of a calling convention need of each other. -/
structure Abi.Ok (a : Abi) : Prop where
  check : a.code.check = true
  exchanges : a.code.Exchanges
  size : 0 < a.code.size
  ptr : 0 < a.code.ptr ∧ a.code.ptr ≤ 8
  width_sp : a.width a.code.sp = 8
  width_args : a.width a.code.arg0 = 8 ∧ a.width a.code.arg1 = 8
  width_link : a.width a.link = 8
  args_ne : a.code.arg0 ≠ a.code.arg1
  link_ne : a.link ≠ a.code.sp
  link_mem : a.link ∈ a.code.kept
  below : a.primer.below = a.above + a.code.size
  mod : (a.above + a.entryMod) % 16 = 0 ∧ a.entryMod < 16
  fits : a.primer.zeroed ≤ a.primer.below ∧ a.primer.entry + 8 ≤ a.primer.below ∧
    ∀ w ∈ a.primer.stores, w.1 + w.2.1 ≤ a.primer.below ∧ w.2.2 < 256 ^ w.2.1
  apart : a.primer.stores.Pairwise fun w w' => StoreApart w w'.1 w'.2.1
  primes : ∀ s ∈ a.code.slots, a.Primes s
  defaults : ∀ d ∈ a.defaults, a.initial.val d.1 = d.2 ∧ d.1 ≠ a.link ∧ d.1 ≠ a.code.sp ∧ d.1 ∈ a.code.kept

/-- `_gt_stack_prime` writes to the top of its stack, and lays out there the registers that its task is
to start with. -/
structure Abi.PrimedAt (a : Abi) (mem : Bytes) (lo hi entry : Nat) (x : Nat × Bytes) : Prop where
  lo : lo ≤ x.1
  hi : x.1 + a.primer.below ≤ hi
  mod : (x.1 + a.primer.below) % 16 = 0
  frame : ∀ y, ¬(x.1 ≤ y ∧ y < x.1 + a.primer.below) → x.2 y = mem y
  holds : Holds a.code.slots x.2 x.1 (a.primed entry (x.1 + a.code.size))

theorem Abi.Ok.primed_link {a : Abi} (ok : a.Ok) {entry sp : Nat} (hentry : entry < 2 ^ 64) :
    (a.primed entry sp).val a.link = entry := by
  unfold Abi.primed
  rw [Regs.set_of_ne _ ok.link_ne]
  refine Regs.set_self _ ?_
  rw [ok.width_link]
  exact hentry

theorem Abi.primed_of_ne {a : Abi} {entry sp : Nat} {r : a.Reg} (hsp : r ≠ a.code.sp) (hlink : r ≠ a.link) :
    (a.primed entry sp).val r = a.initial.val r :=
  (Regs.set_of_ne _ hsp).trans (Regs.set_of_ne _ hlink)

theorem Abi.Ok.stackPrime {a : Abi} (ok : a.Ok) (mem : Bytes) {lo hi entry : Nat}
    (hroom : lo + (a.primer.below + 15) ≤ hi) (hhi : hi < 2 ^ 64) (hentry : entry < 2 ^ 64) :
    a.PrimedAt mem lo hi entry (a.primer.stackPrime mem lo (hi - lo) entry) := by
  have htop : (lo + (hi - lo)) % 2 ^ 64 &&& (2 ^ 64 - 1 - 15) = hi / 16 * 16 := by
    rw [Nat.add_sub_cancel' (by omega), Nat.mod_eq_of_lt hhi]
    exact and_mask (k := 4) hhi (by decide)
  obtain ⟨hzeroed, hfit, hstores⟩ := ok.fits
  unfold Primer.stackPrime
  dsimp only
  rw [htop]
  generalize hbase : hi / 16 * 16 - a.primer.below = base
  refine ⟨by dsimp only; omega, by dsimp only; omega, by dsimp only; omega, fun y hy => ?_, fun s hs => ?_⟩
  · have hclear : Agree mem (clear mem base a.primer.zeroed) y 1 := agree_clear (by omega)
    have hstore : Agree _ (storeAll base (clear mem base a.primer.zeroed) a.primer.stores) y 1 :=
      agree_storeAll fun w hw => by
        have := (hstores w hw).1
        omega
    have hagree := (hclear.trans hstore).trans (agree_storeBytes (a := base + a.primer.entry) (v := entry) (n := 8)
      (by omega))
    exact hagree y (Nat.le_refl y) (Nat.lt_succ_self y)
  · obtain ⟨hsp, hprimes⟩ := ok.primes s hs
    split at hprimes
    · rename_i hlink
      rw [hlink, ok.primed_link hentry, hprimes.1, hprimes.2]
      exact loadBytes_storeBytes hentry
    · rename_i hlink
      obtain ⟨hapart, hvalue⟩ := hprimes
      rw [Abi.primed_of_ne hsp hlink]
      refine (loadBytes_congr (agree_storeBytes (by omega))).trans ?_
      rcases hvalue with ⟨w, hw, rfl⟩ | ⟨hzero, hin, hstore⟩
      · exact loadBytes_storeAll _ _ ok.apart hw fun w hw => (hstores w hw).2
      · rw [hzero]
        refine (loadBytes_congr (agree_storeAll fun w hw => ?_)).trans (loadBytes_clear (by omega) (by omega))
        have := hstore w hw
        unfold StoreApart at this
        omega

theorem FlatAbi.check (f : FlatAbi) : f.abi.code.check = true := by
  cases f
  all_goals decide +kernel

theorem FlatAbi.exchanges (f : FlatAbi) : f.abi.code.Exchanges := by
  cases f
  case aapcs64 =>
    have hne (n : Nat) (hn : n ≠ 2) : Arm64Reg.x n ≠ .x 2 := fun h => hn (Arm64Reg.x.inj h)
    exact Routine.exchanges_by rfl (by decide) rfl (hne 0 (by decide)) (hne 1 (by decide))
  all_goals exact Routine.exchanges rfl (by decide)

theorem FlatAbi.ok (f : FlatAbi) : f.abi.Ok := by
  cases f
  all_goals
    refine ⟨FlatAbi.check _, FlatAbi.exchanges _, ?_, ?_, ?_, ?_, ?_, ?_, ?_, ?_, ?_, ?_, ?_, ?_, ?_, ?_⟩
    all_goals decide +kernel

end Sppc
