import Sppc.Bytes

/-!
# Registers saved below a stack pointer

Straight-line code that stores registers into a block of memory and moves the stack pointer to it, and code that loads
them from there.  `saveArea` reads off the first where each register's value goes, and `loadArea` off the second which
register's value each register gets; `saveArea_sound` and `loadArea_sound` say that the code does that.
-/

namespace SaveArea

open Bytes

/-- Registers, each of so many bytes. -/
structure Regs {R : Type} (width : R → Nat) where
  val : R → Nat
  lt : ∀ r, val r < 256 ^ width r

/-- Add to a register, move one to another, store one at a register's address and an offset, or load it from there. -/
inductive Instr (R : Type)
  | add (rd : R) (n : Int)
  | mv (rd rs : R)
  | st (len : Nat) (rs base : R) (off : Nat)
  | ld (len : Nat) (rd base : R) (off : Nat)
  deriving DecidableEq, Repr

/-- The registers and the memory. -/
structure Machine {R : Type} (width : R → Nat) where
  regs : Regs width
  mem : Bytes

/-- A register's value in `len` bytes at `off`. -/
structure Slot (R : Type) where
  reg : R
  len : Nat
  off : Nat
  deriving DecidableEq, Repr

variable {R : Type} [DecidableEq R] {width : R → Nat}

/-! ### Running -/

/-- Write to a register. -/
def Regs.set (ρ : Regs width) (rd : R) (v : Nat) : Regs width where
  val := Function.update ρ.val rd (v % 256 ^ width rd)
  lt r := by
    by_cases hr : r = rd
    · subst hr
      rw [Function.update_self]
      exact Nat.mod_lt _ (Nat.pow_pos (by decide))
    · rw [Function.update_of_ne hr]
      exact ρ.lt r

/-- The address that an instruction accesses. -/
def Regs.addr (ρ : Regs width) (base : R) (off : Nat) : Nat := (ρ.val base + off) % 256 ^ width base

/-- One instruction. -/
def exec (m : Machine width) : Instr R → Machine width
  | .add rd n => { m with regs := m.regs.set rd ((m.regs.val rd + n) % (256 ^ width rd : Nat)).toNat }
  | .mv rd rs => { m with regs := m.regs.set rd (m.regs.val rs) }
  | .st len rs base off => { m with mem := storeBytes m.mem (m.regs.addr base off) (m.regs.val rs) len }
  | .ld len rd base off => { m with regs := m.regs.set rd (loadBytes m.mem (m.regs.addr base off) len) }

/-- A sequence of instructions. -/
def run (m : Machine width) (is : List (Instr R)) : Machine width := is.foldl exec m

@[simp] theorem run_nil (m : Machine width) : run m [] = m := rfl

@[simp] theorem run_cons (m : Machine width) (i : Instr R) (is : List (Instr R)) :
    run m (i :: is) = run (exec m i) is := rfl

private theorem run_append (m : Machine width) (is js : List (Instr R)) : run m (is ++ js) = run (run m is) js :=
  List.foldl_append

theorem Regs.set_self (ρ : Regs width) {rd : R} {v : Nat} (h : v < 256 ^ width rd) : (ρ.set rd v).val rd = v :=
  (Function.update_self ..).trans (Nat.mod_eq_of_lt h)

theorem Regs.set_of_ne (ρ : Regs width) {r rd : R} {v : Nat} (h : r ≠ rd) : (ρ.set rd v).val r = ρ.val r :=
  Function.update_of_ne h ..

omit [DecidableEq R] in
private theorem Regs.addr_eq (ρ : Regs width) {base : R} {off a : Nat} (h : ρ.val base + off = a)
    (ha : a < 256 ^ width base) : ρ.addr base off = a := by
  rw [Regs.addr, h, Nat.mod_eq_of_lt ha]

/-! ### What is saved -/

/-- What code has saved: where, how far above the block the stack pointer is, and which register's
value each holds. -/
structure Saved (R : Type) where
  slots : List (Slot R)
  pos : Nat
  holds : R → R

/-- What is saved in the `size` bytes of a block, by code that stores at the stack pointer and moves it, from `pos`
bytes above the block on. -/
def saveArea (width : R → Nat) (sp : R) (size : Nat) (holds : R → R) (pos : Nat) : List (Instr R) → Option (Saved R)
  | [] => some ⟨[], pos, holds⟩
  | .add rd n :: is =>
    if rd = sp ∧ 0 ≤ pos + n ∧ pos + n ≤ size then saveArea width sp size holds (pos + n).toNat is else none
  | .mv rd rs :: is =>
    if rd ≠ sp ∧ rs ≠ sp ∧ width (holds rs) ≤ width rd then
      saveArea width sp size (Function.update holds rd (holds rs)) pos is
    else none
  | .st len rs base off :: is =>
    if base = sp ∧ rs ≠ sp ∧ width (holds rs) ≤ len ∧ pos + off + len ≤ size then
      (saveArea width sp size holds pos is).map fun saved =>
        { saved with slots := ⟨holds rs, len, pos + off⟩ :: saved.slots }
    else none
  | .ld .. :: _ => none

/-- Two slots do not overlap. -/
def Slot.Apart (s s' : Slot R) : Prop := s.off + s.len ≤ s'.off ∨ s'.off + s'.len ≤ s.off

instance (s s' : Slot R) : Decidable (s.Apart s') := instDecidableOr

/-- The block at `base` has the values of registers. -/
def Holds (slots : List (Slot R)) (mem : Bytes) (base : Nat) (v : Regs width) : Prop :=
  ∀ s ∈ slots, loadBytes mem (base + s.off) s.len = v.val s.reg

/-- A byte of the block at `base`. -/
def InSlots (slots : List (Slot R)) (base x : Nat) : Prop := ∃ s ∈ slots, base + s.off ≤ x ∧ x < base + s.off + s.len

variable {sp : R} {size base pos : Nat} {holds : R → R} {is : List (Instr R)} {m : Machine width} {v : Regs width}

/-- What `saveArea` has read off is what code has done that began with the memory `mem`. -/
structure SavedBy (mem : Bytes) (m : Machine width) (sp : R) (base : Nat) (v : Regs width)
    (saved : Saved R) : Prop where
  pos : m.regs.val sp = base + saved.pos
  value : ∀ r ≠ sp, m.regs.val r = v.val (saved.holds r)
  frame : ∀ x, ¬InSlots saved.slots base x → m.mem x = mem x
  slots : saved.slots.Pairwise Slot.Apart → Holds saved.slots m.mem base v

omit [DecidableEq R] in
/-- A register's value is stored, in front of the rest. -/
private theorem SavedBy.store {mem : Bytes} {r : R} {len off : Nat} {saved : Saved R} (hlt : v.val r < 256 ^ len)
    (h : SavedBy (storeBytes mem (base + off) (v.val r) len) m sp base v saved) :
    SavedBy mem m sp base v { saved with slots := ⟨r, len, off⟩ :: saved.slots } where
  pos := h.pos
  value := h.value
  frame x hx := by
    have hrest : ¬InSlots saved.slots base x := fun ⟨s, hs, hin⟩ => hx ⟨s, List.mem_cons_of_mem _ hs, hin⟩
    have hhead : ¬(base + off ≤ x ∧ x < base + off + len) := fun hin => hx ⟨_, List.mem_cons_self, hin⟩
    rw [h.frame x hrest]
    rcases Nat.lt_or_ge x (base + off) with hlt | hle
    · exact storeBytes_of_lt hlt
    · exact storeBytes_of_le (by omega)
  slots hapart := by
    obtain ⟨hhead, hrest⟩ := List.pairwise_cons.1 hapart
    intro s hs
    rcases List.mem_cons.1 hs with rfl | hs
    · have hagree : Agree (storeBytes mem (base + off) (v.val r) len) m.mem (base + off) len := by
        intro x hx hx'
        refine h.frame x fun ⟨s, hs, hin⟩ => ?_
        have := hhead s hs
        unfold Slot.Apart at this
        dsimp only at this
        omega
      rw [loadBytes_congr hagree, loadBytes_storeBytes hlt]
    · exact h.slots hrest s hs

private theorem saveArea_sound {saved : Saved R} (h : saveArea width sp size holds pos is = some saved)
    (hsp : m.regs.val sp = base + pos) (hholds : ∀ r ≠ sp, m.regs.val r = v.val (holds r))
    (htop : base + size < 256 ^ width sp) : SavedBy m.mem (run m is) sp base v saved := by
  induction is generalizing m holds pos saved with
  | nil =>
    cases h
    exact ⟨hsp, hholds, fun _ _ => rfl, fun _ => nofun⟩
  | cons i is ih =>
    cases i with
    | add rd n =>
      rw [saveArea] at h
      split at h
      · rename_i hcond
        obtain ⟨rfl, hlo, hhi⟩ := hcond
        have hval : ((m.regs.val rd + n) % (256 ^ width rd : Nat)).toNat = base + (pos + n).toNat := by
          rw [hsp, Int.emod_eq_of_lt (by omega) (by omega)]
          omega
        refine ih (m := exec m (.add rd n)) h ?_ fun r hr => ?_
        · rw [← hval]
          exact Regs.set_self _ (by omega)
        · exact (Regs.set_of_ne _ hr).trans (hholds r hr)
      · cases h
    | mv rd rs =>
      rw [saveArea] at h
      split at h
      · rename_i hcond
        obtain ⟨hrd, hrs, hwidth⟩ := hcond
        have hval : m.regs.val rs < 256 ^ width rd := by
          rw [hholds rs hrs]
          exact Nat.lt_of_lt_of_le (v.lt _) (Nat.pow_le_pow_right (by decide) hwidth)
        refine ih (m := exec m (.mv rd rs)) h ?_ fun r hr => ?_
        · exact (Regs.set_of_ne _ hrd.symm).trans hsp
        · by_cases hrr : r = rd
          · subst hrr
            rw [Function.update_self, ← hholds rs hrs]
            exact Regs.set_self _ hval
          · rw [Function.update_of_ne hrr]
            exact (Regs.set_of_ne _ hrr).trans (hholds r hr)
      · cases h
    | st len rs b off =>
      rw [saveArea] at h
      split at h
      · rename_i hcond
        obtain ⟨rfl, hrs, hwidth, hfit⟩ := hcond
        obtain ⟨rest, hrest, rfl⟩ := Option.map_eq_some_iff.1 h
        have haddr : m.regs.addr b off = base + (pos + off) :=
          Regs.addr_eq _ (by rw [hsp, Nat.add_assoc]) (by omega)
        refine SavedBy.store ?_ ?_
        · exact Nat.lt_of_lt_of_le (v.lt _) (Nat.pow_le_pow_right (by decide) hwidth)
        · rw [← hholds rs hrs, ← haddr]
          exact ih (m := exec m (.st len rs b off)) hrest hsp hholds
      · cases h
    | ld len rd b off => cases h

/-! ### What is loaded -/

/-- Which register's value each register has been loaded with from a block, by code that begins `pos` bytes above it,
and how far above it the stack pointer is in the end. -/
def loadArea (width : R → Nat) (sp : R) (size : Nat) (slots : List (Slot R)) (holds : R → Option R) (pos : Nat) :
    List (Instr R) → Option ((R → Option R) × Nat)
  | [] => some (holds, pos)
  | .add rd n :: is =>
    if rd = sp ∧ 0 ≤ pos + n ∧ pos + n ≤ size then loadArea width sp size slots holds (pos + n).toNat is else none
  | .mv rd rs :: is =>
    if rd ≠ sp ∧ ∀ r ∈ holds rs, width r ≤ width rd then
      loadArea width sp size slots (Function.update holds rd (holds rs)) pos is
    else none
  | .ld len rd base off :: is =>
    match slots.find? fun s => s.len = len ∧ s.off = pos + off with
    | some s =>
      if base = sp ∧ rd ≠ sp ∧ width s.reg ≤ width rd ∧ pos + off ≤ size then
        loadArea width sp size slots (Function.update holds rd (some s.reg)) pos is
      else none
    | none => none
  | .st .. :: _ => none

private theorem loadArea_mem {slots : List (Slot R)} {holds : R → Option R} {loaded : (R → Option R) × Nat}
    (h : loadArea width sp size slots holds pos is = some loaded) : (run m is).mem = m.mem := by
  induction is generalizing m holds pos with
  | nil => rfl
  | cons i is ih =>
    cases i with
    | add rd n =>
      rw [loadArea] at h
      split at h
      · exact ih (m := exec m (.add rd n)) h
      · cases h
    | mv rd rs =>
      rw [loadArea] at h
      split at h
      · exact ih (m := exec m (.mv rd rs)) h
      · cases h
    | st len rs b off => cases h
    | ld len rd b off =>
      rw [loadArea] at h
      split at h
      · split at h
        · exact ih (m := exec m (.ld len rd b off)) h
        · cases h
      · cases h

/-- What `loadArea` has read off is what code has done. -/
structure LoadedBy (m : Machine width) (sp : R) (base : Nat) (v : Regs width)
    (loaded : (R → Option R) × Nat) : Prop where
  pos : m.regs.val sp = base + loaded.2
  value : ∀ r, ∀ r' ∈ loaded.1 r, m.regs.val r = v.val r'

private theorem loadArea_sound {slots : List (Slot R)} {holds : R → Option R} {loaded : (R → Option R) × Nat}
    (h : loadArea width sp size slots holds pos is = some loaded) (hsp : m.regs.val sp = base + pos)
    (hnone : holds sp = none) (hholds : ∀ r, ∀ r' ∈ holds r, m.regs.val r = v.val r')
    (hslots : Holds slots m.mem base v) (htop : base + size < 256 ^ width sp) :
    LoadedBy (run m is) sp base v loaded := by
  induction is generalizing m holds pos loaded with
  | nil =>
    cases h
    exact ⟨hsp, hholds⟩
  | cons i is ih =>
    cases i with
    | add rd n =>
      rw [loadArea] at h
      split at h
      · rename_i hcond
        obtain ⟨rfl, hlo, hhi⟩ := hcond
        have hval : ((m.regs.val rd + n) % (256 ^ width rd : Nat)).toNat = base + (pos + n).toNat := by
          rw [hsp, Int.emod_eq_of_lt (by omega) (by omega)]
          omega
        refine ih (m := exec m (.add rd n)) h ?_ hnone (fun r r' hr' => ?_) hslots
        · rw [← hval]
          exact Regs.set_self _ (by omega)
        · have hr : r ≠ rd := by
            rintro rfl
            rw [hnone] at hr'
            cases hr'
          exact (Regs.set_of_ne _ hr).trans (hholds r r' hr')
      · cases h
    | mv rd rs =>
      rw [loadArea] at h
      split at h
      · rename_i hcond
        obtain ⟨hrd, hwidth⟩ := hcond
        refine ih (m := exec m (.mv rd rs)) h ?_ ?_ (fun r r' hr' => ?_) hslots
        · exact (Regs.set_of_ne _ hrd.symm).trans hsp
        · rw [Function.update_of_ne hrd.symm]
          exact hnone
        · by_cases hrr : r = rd
          · subst hrr
            rw [Function.update_self] at hr'
            have hval := hholds rs r' hr'
            rw [← hval]
            refine Regs.set_self _ ?_
            rw [hval]
            exact Nat.lt_of_lt_of_le (v.lt _) (Nat.pow_le_pow_right (by decide) (hwidth r' hr'))
          · rw [Function.update_of_ne hrr] at hr'
            exact (Regs.set_of_ne _ hrr).trans (hholds r r' hr')
      · cases h
    | st len rs b off => cases h
    | ld len rd b off =>
      rw [loadArea] at h
      split at h
      · rename_i s hs
        split at h
        · rename_i hcond
          obtain ⟨rfl, hrd, hwidth, hfit⟩ := hcond
          have hslot := List.find?_some hs
          simp only [decide_eq_true_eq] at hslot
          have haddr : m.regs.addr b off = base + s.off :=
            Regs.addr_eq _ (by rw [hsp, hslot.2, Nat.add_assoc]) (by omega)
          have hload : loadBytes m.mem (m.regs.addr b off) len = v.val s.reg := by
            rw [haddr, ← hslot.1]
            exact hslots s (List.mem_of_find?_eq_some hs)
          refine ih (m := exec m (.ld len rd b off)) h ?_ ?_ (fun r r' hr' => ?_) hslots
          · exact (Regs.set_of_ne _ hrd.symm).trans hsp
          · rw [Function.update_of_ne hrd.symm]
            exact hnone
          · by_cases hrr : r = rd
            · subst hrr
              rw [Function.update_self] at hr'
              cases hr'
              rw [← hload]
              refine Regs.set_self _ ?_
              rw [hload]
              exact Nat.lt_of_lt_of_le (v.lt _) (Nat.pow_le_pow_right (by decide) hwidth)
            · rw [Function.update_of_ne hrr] at hr'
              exact (Regs.set_of_ne _ hrr).trans (hholds r r' hr')
        · cases h
      · cases h

/-! ### Exchanging stack pointers -/

/-- Code that saves registers in the `size` bytes below its stack pointer, stores that at its first argument, loads
another from its second, and loads the `kept` registers from the block there; a pointer has `ptr` bytes. -/
structure Routine {R : Type} (width : R → Nat) where
  sp : R
  arg0 : R
  arg1 : R
  ptr : Nat
  size : Nat
  saves : List (Instr R)
  exchange : List (Instr R)
  loads : List (Instr R)
  kept : List R

namespace Routine

/-- All of the code. -/
def run (c : Routine width) (m : Machine width) : Machine width := SaveArea.run m (c.saves ++ c.exchange ++ c.loads)

/-- What is saved. -/
def saved (c : Routine width) : Option (Saved R) := saveArea width c.sp c.size id c.size c.saves

def slots (c : Routine width) : List (Slot R) := (c.saved.map Saved.slots).getD []

/-- The block is filled from its top to its start, and each register that is kept is loaded from where it is saved. -/
def check (c : Routine width) : Bool :=
  match c.saved with
  | some saved =>
    decide (saved.pos = 0 ∧ c.arg0 ≠ c.sp ∧ saved.holds c.arg0 = c.arg0 ∧ c.arg1 ≠ c.sp ∧
      saved.holds c.arg1 = c.arg1 ∧ saved.slots.Pairwise Slot.Apart ∧ ∀ s ∈ saved.slots, s.off + s.len ≤ c.size) &&
    match loadArea width c.sp c.size saved.slots (fun _ => none) 0 c.loads with
    | some (loaded, pos) => decide (pos = c.size ∧ ∀ r ∈ c.kept, loaded r = some r)
    | none => false
  | none => false

/-- The stack pointers are exchanged. -/
def Exchanges (c : Routine width) : Prop := ∀ m : Machine width,
  (SaveArea.run m c.exchange).mem = storeBytes m.mem (m.regs.val c.arg0) (m.regs.val c.sp) c.ptr ∧
  (SaveArea.run m c.exchange).regs.val c.sp = loadBytes (SaveArea.run m c.exchange).mem (m.regs.val c.arg1) c.ptr

variable {c : Routine width}

theorem fits (hcheck : c.check = true) : ∀ s ∈ c.slots, s.off + s.len ≤ c.size := by
  unfold check at hcheck
  unfold slots
  split at hcheck
  · rename_i saved hsaved
    rw [Bool.and_eq_true, decide_eq_true_eq] at hcheck
    rw [hsaved]
    exact hcheck.1.2.2.2.2.2.2
  · cases hcheck

theorem args_ne (hcheck : c.check = true) : c.arg0 ≠ c.sp ∧ c.arg1 ≠ c.sp := by
  unfold check at hcheck
  split at hcheck
  · rw [Bool.and_eq_true, decide_eq_true_eq] at hcheck
    exact ⟨hcheck.1.2.1, hcheck.1.2.2.2.1⟩
  · cases hcheck

omit [DecidableEq R] in
private theorem addr_zero (ρ : Regs width) (r : R) : ρ.addr r 0 = ρ.val r := Regs.addr_eq ρ rfl (ρ.lt r)

theorem exchanges (h : c.exchange = [.st c.ptr c.sp c.arg0 0, .ld c.ptr c.sp c.arg1 0]) (hptr : c.ptr ≤ width c.sp) :
    c.Exchanges := by
  intro m
  rw [h]
  simp only [run_cons, run_nil, exec, addr_zero]
  refine ⟨trivial, Regs.set_self _ ?_⟩
  exact Nat.lt_of_lt_of_le (loadBytes_lt _ _ _) (Nat.pow_le_pow_right (by decide) hptr)

/-- By way of another register. -/
theorem exchanges_by {tmp : R}
    (h : c.exchange = [.mv tmp c.sp, .st c.ptr tmp c.arg0 0, .ld c.ptr tmp c.arg1 0, .mv c.sp tmp])
    (hptr : c.ptr ≤ width c.sp) (htmp : width tmp = width c.sp) (h0 : c.arg0 ≠ tmp) (h1 : c.arg1 ≠ tmp) :
    c.Exchanges := by
  intro m
  have hsp : m.regs.val c.sp < 256 ^ width tmp := htmp ▸ m.regs.lt c.sp
  have hlt (mem : Bytes) (a : Nat) : loadBytes mem a c.ptr < 256 ^ width c.sp :=
    Nat.lt_of_lt_of_le (loadBytes_lt _ _ _) (Nat.pow_le_pow_right (by decide) hptr)
  have hload (ρ : Regs width) (mem : Bytes) (a : Nat) :
      (ρ.set tmp (loadBytes mem a c.ptr)).val tmp = loadBytes mem a c.ptr := Regs.set_self _ (htmp ▸ hlt mem a)
  rw [h]
  simp only [run_cons, run_nil, exec, addr_zero, Regs.set_of_ne _ h0, Regs.set_of_ne _ h1, Regs.set_self _ hsp, hload]
  exact ⟨trivial, Regs.set_self _ (hlt _ _)⟩

/-- What the code does to memory, and what it loads from a block that has the values `v`. -/
structure Switched (c : Routine width) (m m' : Machine width) (base : Nat) : Prop where
  frame : ∀ x, ¬(base ≤ x ∧ x < base + c.size) →
    ¬(m.regs.val c.arg0 ≤ x ∧ x < m.regs.val c.arg0 + c.ptr) → m'.mem x = m.mem x
  block : Holds c.slots m'.mem base m.regs
  stored : loadBytes m'.mem (m.regs.val c.arg0) c.ptr = base
  loaded : ∀ (base' : Nat) (v : Regs width), loadBytes m'.mem (m.regs.val c.arg1) c.ptr = base' →
    base' + c.size < 256 ^ width c.sp → Holds c.slots m'.mem base' v → m'.regs.val c.sp = base' + c.size ∧
    ∀ r ∈ c.kept, m'.regs.val r = v.val r

theorem switch (hcheck : c.check = true) (hex : c.Exchanges) {m : Machine width} {base : Nat}
    (hsp : m.regs.val c.sp = base + c.size) (htop : base + c.size < 256 ^ width c.sp) (hbase : base < 256 ^ c.ptr)
    (hslot : m.regs.val c.arg0 + c.ptr ≤ base ∨ base + c.size ≤ m.regs.val c.arg0) : c.Switched m (c.run m) base := by
  unfold check at hcheck
  split at hcheck
  · rename_i saved hsaved
    rw [Bool.and_eq_true, decide_eq_true_eq] at hcheck
    obtain ⟨⟨hpos, hne0, harg0, hne1, harg1, hapart, hfit⟩, hload⟩ := hcheck
    split at hload
    · rename_i loaded pos hloaded
      rw [decide_eq_true_eq] at hload
      obtain ⟨rfl, hkept⟩ := hload
      have hslots : c.slots = saved.slots := by
        unfold slots
        rw [hsaved]
        rfl
      have hrun : c.run m = SaveArea.run (SaveArea.run (SaveArea.run m c.saves) c.exchange) c.loads := by
        unfold run
        rw [run_append, run_append]
      have hsave := saveArea_sound (m := m) (v := m.regs) hsaved hsp (fun _ _ => rfl) htop
      obtain ⟨hmem, hnext⟩ := hex (SaveArea.run m c.saves)
      rw [hsave.pos, hpos, Nat.add_zero, hsave.value _ hne0, harg0] at hmem
      rw [hsave.value _ hne1, harg1] at hnext
      generalize SaveArea.run (SaveArea.run m c.saves) c.exchange = m₂ at hrun hmem hnext
      have hmem' : (c.run m).mem = m₂.mem := by
        rw [hrun]
        exact loadArea_mem hloaded
      refine ⟨fun x hx hx' => ?_, ?_, ?_, fun base' v hbase' htop' hholds => ?_⟩
      · have hin : ¬InSlots saved.slots base x := by
          rintro ⟨s, hs, hlo, hhi⟩
          have := hfit s hs
          omega
        rw [hmem', hmem, ← hsave.frame x hin]
        rcases Nat.lt_or_ge x (m.regs.val c.arg0) with hlt | hle
        · exact storeBytes_of_lt hlt
        · exact storeBytes_of_le (by omega)
      · rw [hslots]
        intro s hs
        have hfit := hfit s hs
        rw [hmem', hmem, loadBytes_congr (agree_storeBytes (by omega))]
        exact hsave.slots hapart s hs
      · rw [hmem', hmem]
        exact loadBytes_storeBytes hbase
      · rw [hmem'] at hbase' hholds
        rw [hslots] at hholds
        have hload := loadArea_sound (m := m₂) (v := v) hloaded (hnext.trans hbase') rfl (fun _ => nofun) hholds htop'
        rw [← hrun] at hload
        exact ⟨hload.pos, fun r hr => hload.value r r (hkept r hr)⟩
    · cases hload
  · cases hcheck

end Routine

end SaveArea
