import Sppc.Context
import Sppc.Stacks
import Sppc.Transition

/-!
# Tasks that switch to each other

The running task computes, which may change any register, and any memory but the other tasks' stacks and the slots;
lays out the stack of another; or switches to another.
-/

namespace Sppc

open Transition Bytes SaveArea

/-- The registers, the memory and the running task.  Nobody stores the registers with which each task called
`_gt_switch` last, or those that the stack laid out for it is to start it with, and the entry point of a stack that
nobody has switched to yet. -/
structure Tasks (a : Abi) (T : Type) where
  regs : Regs a.width
  mem : Bytes
  current : T
  last : T → Option (Regs a.width)
  entry : T → Option Nat

/-- The running task computes, lays out a stack, or switches. -/
inductive TasksEvent (a : Abi) (T : Type)
  | compute (regs : Regs a.width) (noise : Bytes)
  | prime (t : T) (entry : Nat)
  | switch (t : T)

namespace Tasks

variable {a : Abi} {T : Type} [DecidableEq T]

def step (layout : Layout T a.code.ptr) (s : Tasks a T) : TasksEvent a T → Option (Tasks a T)
  | .compute regs noise =>
    some { s with
      regs := regs
      mem := layout.write s.current s.mem noise }
  | .prime t entry =>
    if t ≠ s.current ∧ layout.lo t + (a.primer.below + 15) ≤ layout.hi t ∧ entry < 2 ^ 64 then
      let (sp, mem) := a.primer.stackPrime s.mem (layout.lo t) (layout.hi t - layout.lo t) entry
      some { s with
        mem := storeBytes mem (layout.slot t) sp a.code.ptr
        last := Function.update s.last t (some (a.primed entry (sp + a.code.size)))
        entry := Function.update s.entry t (some entry) }
    else none
  | .switch t =>
    if (t = s.current ∨ (s.last t).isSome) ∧ layout.lo s.current + a.code.size ≤ s.regs.val a.code.sp ∧
        s.regs.val a.code.sp ≤ layout.hi s.current then
      let regs := a.called s.regs (layout.slot s.current) (layout.slot t)
      let m := a.code.run ⟨regs, s.mem⟩
      some ⟨m.regs, m.mem, t, Function.update s.last s.current (some regs), Function.update s.entry t none⟩
    else none

/-- One task runs, and no other one has a stack laid out. -/
def init (regs : Regs a.width) (mem : Bytes) (t : T) : Tasks a T :=
  ⟨regs, mem, t, fun _ => none, fun _ => none⟩

end Tasks

/-- A task that does not run: the block below its stack pointer has the registers that it goes on with, and its slot
the block's address. -/
structure Suspended (a : Abi) {T : Type} (layout : Layout T a.code.ptr) (mem : Bytes) (t : T) (v : Regs a.width)
    (base : Nat) : Prop where
  lo : layout.lo t ≤ base
  hi : base + a.code.size ≤ layout.hi t
  sp : v.val a.code.sp = base + a.code.size
  slot : loadBytes mem (layout.slot t) a.code.ptr = base
  holds : Holds a.code.slots mem base v

section system

variable {a : Abi} {T : Type} {layout : Layout T a.code.ptr} {mem mem' : Bytes} {t u : T} {v : Regs a.width}
  {base : Nat}

private theorem Suspended.congr (ok : a.Ok) (h : Suspended a layout mem t v base)
    (hstack : ∀ x, layout.lo t ≤ x ∧ x < layout.hi t → mem' x = mem x)
    (hslot : ∀ x, layout.slot t ≤ x ∧ x < layout.slot t + a.code.ptr → mem' x = mem x) :
    Suspended a layout mem' t v base where
  lo := h.lo
  hi := h.hi
  sp := h.sp
  slot := (loadBytes_congr fun x hx hx' => hslot x ⟨hx, hx'⟩).trans h.slot
  holds s hs := by
    have hfit := Routine.fits ok.check s hs
    have hlo := h.lo
    have hhi := h.hi
    exact (loadBytes_congr fun x hx hx' => hstack x (by omega)).trans (h.holds s hs)

/-- Another task's stack and slot are written to. -/
private theorem Suspended.other (ok : a.Ok) (h : Suspended a layout mem u v base) (htu : t ≠ u)
    (hframe : ∀ x, ¬(layout.lo t ≤ x ∧ x < layout.hi t) →
      ¬(layout.slot t ≤ x ∧ x < layout.slot t + a.code.ptr) → mem' x = mem x) : Suspended a layout mem' u v base :=
  h.congr ok (fun x hx => hframe x (layout.stack_ne htu.symm hx) (layout.stack_slot hx))
    fun x hx => hframe x (fun hx' => layout.stack_slot hx' hx) (layout.slot_ne htu.symm hx)

private theorem Abi.Ok.lt_width (ok : a.Ok) {n : Nat} (h : n < 256 ^ a.code.ptr) : n < 256 ^ 8 :=
  Nat.lt_of_lt_of_le h (Nat.pow_le_pow_right (by decide) ok.ptr.2)

private theorem Abi.Ok.called (ok : a.Ok) (regs : Regs a.width) {save load : Nat} (hsave : save < 256 ^ a.code.ptr)
    (hload : load < 256 ^ a.code.ptr) :
    (a.called regs save load).val a.code.arg0 = save ∧ (a.called regs save load).val a.code.arg1 = load ∧
    (a.called regs save load).val a.code.sp = regs.val a.code.sp := by
  obtain ⟨hne0, hne1⟩ := Routine.args_ne ok.check
  obtain ⟨hwidth0, hwidth1⟩ := ok.width_args
  unfold Abi.called
  refine ⟨?_, ?_, ?_⟩
  · rw [Regs.set_of_ne _ ok.args_ne]
    refine Regs.set_self _ ?_
    rw [hwidth0]
    exact ok.lt_width hsave
  · refine Regs.set_self _ ?_
    rw [hwidth1]
    exact ok.lt_width hload
  · rw [Regs.set_of_ne _ hne1.symm, Regs.set_of_ne _ hne0.symm]

variable [DecidableEq T] {s s' : Tasks a T}

/-- What a new stack starts its task with: the entry point, a stack pointer in the stack that is aligned as for a
call, and the default control registers. -/
structure Tasks.Started (layout : Layout T a.code.ptr) (t : T) (entry : Nat) (v : Regs a.width) : Prop where
  link : v.val a.link = entry
  lo : layout.lo t ≤ v.val a.code.sp
  hi : v.val a.code.sp + a.above ≤ layout.hi t
  mod : v.val a.code.sp % 16 = a.entryMod
  defaults : ∀ d ∈ a.defaults, v.val d.1 = d.2

/-- Every task that does not run, and has called `_gt_switch` or has a stack laid out, is suspended with its
registers; for a new stack they are what it starts its task with. -/
structure Tasks.Ok (layout : Layout T a.code.ptr) (s : Tasks a T) : Prop where
  suspended : ∀ t ≠ s.current, ∀ v, s.last t = some v → ∃ base, Suspended a layout s.mem t v base
  fresh : ∀ t entry, s.entry t = some entry → t ≠ s.current ∧ ∃ v, s.last t = some v ∧ Tasks.Started layout t entry v

/-- What a switch to `t` does: `t` runs with the registers that it has been suspended with. -/
structure Tasks.Resumed (t : T) (s' : Tasks a T) : Prop where
  current : s'.current = t
  regs : ∃ v, s'.last t = some v ∧ s'.regs.val a.code.sp = v.val a.code.sp ∧
    ∀ r ∈ a.link :: a.code.kept, s'.regs.val r = v.val r

private theorem Tasks.Ok.switch (ok : a.Ok) (h : s.Ok layout) (hstep : s.step layout (.switch t) = some s') :
    s'.Ok layout ∧ Resumed t s' := by
  unfold Tasks.step at hstep
  dsimp only at hstep
  split at hstep <;> cases hstep
  rename_i hcond
  obtain ⟨hresume, hlo, hhi⟩ := hcond
  have hcur := layout.hi_lt s.current
  obtain ⟨harg0, harg1, hsp⟩ := ok.called s.regs (layout.slot_lt s.current) (layout.slot_lt t)
  generalize hregs : a.called s.regs (layout.slot s.current) (layout.slot t) = regs at *
  generalize hbase : s.regs.val a.code.sp - a.code.size = base at *
  have hval : regs.val a.code.sp = base + a.code.size := by omega
  have hsw : a.code.Switched ⟨regs, s.mem⟩ (a.code.run ⟨regs, s.mem⟩) base := by
    refine Routine.switch ok.check ok.exchanges hval ?_ (by omega) ?_
    · rw [ok.width_sp]
      exact ok.lt_width (by omega)
    · dsimp only
      rw [harg0]
      exact layout.slot_apart (t := s.current) ok.ptr.1 ok.size (by omega) (by omega)
  generalize a.code.run ⟨regs, s.mem⟩ = m' at *
  have hframe : ∀ x, ¬(layout.lo s.current ≤ x ∧ x < layout.hi s.current) →
      ¬(layout.slot s.current ≤ x ∧ x < layout.slot s.current + a.code.ptr) → m'.mem x = s.mem x := by
    intro x hx hx'
    refine hsw.frame x (by omega) ?_
    rw [show (Machine.mk regs s.mem).regs.val a.code.arg0 = _ from harg0]
    exact hx'
  have hstored : loadBytes m'.mem (layout.slot s.current) a.code.ptr = base := by
    have hstored := hsw.stored
    rwa [show (Machine.mk regs s.mem).regs.val a.code.arg0 = _ from harg0] at hstored
  have hmine : Suspended a layout m'.mem s.current regs base :=
    ⟨by omega, by omega, hval, hstored, hsw.block⟩
  have hothers : ∀ u ≠ s.current, ∀ v, s.last u = some v → ∃ base, Suspended a layout m'.mem u v base := by
    intro u hu v hv
    obtain ⟨base', hbase'⟩ := h.suspended u hu v hv
    exact ⟨base', hbase'.other ok hu.symm hframe⟩
  have hlast : ∀ u v, Function.update s.last s.current (some regs) u = some v →
      ∃ base, Suspended a layout m'.mem u v base := by
    intro u v hv
    by_cases hu : u = s.current
    · subst hu
      rw [Function.update_self] at hv
      cases hv
      exact ⟨base, hmine⟩
    · rw [Function.update_of_ne hu] at hv
      exact hothers u hu v hv
  refine ⟨⟨fun u _ v hv => hlast u v hv, fun u entry hentry => ?_⟩, rfl, ?_⟩
  · dsimp only at hentry ⊢
    by_cases hut : u = t
    · rw [hut, Function.update_self] at hentry
      cases hentry
    · rw [Function.update_of_ne hut] at hentry
      obtain ⟨hu, hstarted⟩ := h.fresh u entry hentry
      rw [Function.update_of_ne hu]
      exact ⟨hut, hstarted⟩
  have hsome : ∃ v, Function.update s.last s.current (some regs) t = some v := by
    by_cases ht : t = s.current
    · subst ht
      exact ⟨regs, Function.update_self ..⟩
    · rw [Function.update_of_ne ht]
      exact Option.isSome_iff_exists.1 (hresume.resolve_left ht)
  obtain ⟨v, hv⟩ := hsome
  obtain ⟨base', hbase'⟩ := hlast t v hv
  have hload := hsw.loaded base' v
  rw [show (Machine.mk regs s.mem).regs.val a.code.arg1 = _ from harg1, ok.width_sp] at hload
  have htop : base' + a.code.size < 256 ^ 8 := by
    have := hbase'.hi
    have := layout.hi_lt t
    exact ok.lt_width (by omega)
  obtain ⟨hsp', hkept⟩ := hload hbase'.slot htop hbase'.holds
  refine ⟨v, hv, hsp'.trans hbase'.sp.symm, fun r hr => ?_⟩
  rcases List.mem_cons.1 hr with rfl | hr
  · exact hkept _ ok.link_mem
  · exact hkept r hr

private theorem Tasks.Ok.compute {regs : Regs a.width} {noise : Bytes} (ok : a.Ok) (h : s.Ok layout)
    (hstep : s.step layout (.compute regs noise) = some s') : s'.Ok layout := by
  cases hstep
  refine ⟨fun t ht v hv => ?_, h.fresh⟩
  obtain ⟨base, hbase⟩ := h.suspended t ht v hv
  exact ⟨base, hbase.congr ok (fun x hx => Layout.write_stack ht hx) fun x hx => Layout.write_slot hx⟩

private theorem Tasks.Ok.prime {entry : Nat} (ok : a.Ok) (h : s.Ok layout)
    (hstep : s.step layout (.prime t entry) = some s') : s'.Ok layout := by
  unfold Tasks.step at hstep
  dsimp only at hstep
  split at hstep <;> cases hstep
  rename_i hcond
  obtain ⟨hcurrent, hroom, hentry⟩ := hcond
  have hhi := layout.hi_lt t
  have hprimed := ok.stackPrime s.mem hroom (ok.lt_width hhi) hentry
  generalize a.primer.stackPrime s.mem (layout.lo t) (layout.hi t - layout.lo t) entry = x at *
  obtain ⟨sp, mem⟩ := x
  obtain ⟨hlo, htop, hmod, hframe, hholds⟩ := hprimed
  dsimp only at *
  have hbelow := ok.below
  have hsp : (a.primed entry (sp + a.code.size)).val a.code.sp = sp + a.code.size := by
    refine Regs.set_self _ ?_
    rw [ok.width_sp]
    exact ok.lt_width (by omega)
  have hslot := layout.slot_apart (t := t) (u := t) ok.ptr.1 ok.size hlo (by omega : sp + a.code.size ≤ layout.hi t)
  have hstarted : Started layout t entry (a.primed entry (sp + a.code.size)) := by
    obtain ⟨hmod', hlt⟩ := ok.mod
    refine ⟨ok.primed_link hentry, ?_, ?_, ?_, fun d hd => ?_⟩
    · rw [hsp]
      omega
    · rw [hsp]
      omega
    · rw [hsp]
      omega
    · obtain ⟨hval, hlink, hne, -⟩ := ok.defaults d hd
      rw [Abi.primed_of_ne hne hlink, hval]
  refine ⟨fun u hu v hv => ?_, fun u entry' hentry' => ?_⟩
  · dsimp only at hu hv ⊢
    by_cases hut : u = t
    · subst hut
      rw [Function.update_self] at hv
      cases hv
      refine ⟨sp, hlo, by omega, hsp, loadBytes_storeBytes (by omega), fun s' hs' => ?_⟩
      have hfit := Routine.fits ok.check s' hs'
      exact (loadBytes_congr (agree_storeBytes (by omega))).trans (hholds s' hs')
    · rw [Function.update_of_ne hut] at hv
      obtain ⟨base, hbase⟩ := h.suspended u hu v hv
      refine ⟨base, hbase.other ok (Ne.symm hut) fun x hx hx' => ?_⟩
      refine Eq.trans ?_ (hframe x (by omega))
      rcases Nat.lt_or_ge x (layout.slot t) with hlt | hle
      · exact storeBytes_of_lt hlt
      · exact storeBytes_of_le (by omega)
  · dsimp only at hentry' ⊢
    by_cases hut : u = t
    · subst hut
      rw [Function.update_self] at hentry'
      cases hentry'
      exact ⟨hcurrent, _, Function.update_self .., hstarted⟩
    · rw [Function.update_of_ne hut] at hentry' ⊢
      exact h.fresh u entry' hentry'

private theorem Tasks.Ok.step {e : TasksEvent a T} (ok : a.Ok) (h : s.Ok layout) (hstep : s.step layout e = some s') :
    s'.Ok layout := by
  cases e with
  | compute regs noise => exact h.compute ok hstep
  | prime t entry => exact h.prime ok hstep
  | switch t => exact (h.switch ok hstep).1

/-- A new stack is switched to. -/
private theorem Tasks.Ok.start {entry : Nat} (ok : a.Ok) (h : s.Ok layout) (hentry : s.entry t = some entry)
    (hstep : s.step layout (.switch t) = some s') : Started layout t entry s'.regs := by
  obtain ⟨hcurrent, v, hv, hstarted⟩ := h.fresh t entry hentry
  obtain ⟨-, v', hv', hsp, hkept⟩ := (h.switch ok hstep).2
  have hvv : v' = v := by
    unfold Tasks.step at hstep
    dsimp only at hstep
    split at hstep <;> cases hstep
    dsimp only at hv'
    rw [Function.update_of_ne hcurrent, hv] at hv'
    exact (Option.some.inj hv').symm
  subst hvv
  refine ⟨(hkept _ List.mem_cons_self).trans hstarted.link, ?_, ?_, ?_, fun d hd => ?_⟩
  · rw [hsp]
    exact hstarted.lo
  · rw [hsp]
    exact hstarted.hi
  · rw [hsp]
    exact hstarted.mod
  · obtain ⟨-, -, -, hmem⟩ := ok.defaults d hd
    exact (hkept d.1 (List.mem_cons_of_mem _ hmem)).trans (hstarted.defaults d hd)

/-- What each switch does: to a task that has called `_gt_switch`, and, the first one, to a new stack. -/
structure SwitchOk (layout : Layout T a.code.ptr) (s : Tasks a T) : Prop where
  resumes : ∀ t s', s.step layout (.switch t) = some s' → Tasks.Resumed t s'
  starts : ∀ t entry s', s.entry t = some entry → s.step layout (.switch t) = some s' →
    Tasks.Started layout t entry s'.regs

end system

/-- In every run of the tasks, on every calling convention with a flat register block. -/
theorem context_switch_ok (f : FlatAbi) {T : Type} [DecidableEq T] (layout : Layout T f.abi.code.ptr)
    (regs : Regs f.abi.width) (mem : Bytes) (t : T) {s : Tasks f.abi T}
    (h : Reach (Tasks.step layout) (.init regs mem t) s) : SwitchOk layout s := by
  have hinit : (Tasks.init regs mem t).Ok layout := ⟨fun _ _ _ => nofun, fun _ _ => nofun⟩
  have hok : s.Ok layout := h.invariant (fun _ _ _ hs hstep => hs.step f.ok hstep) hinit
  exact ⟨fun _ _ hstep => (hok.switch f.ok hstep).2, fun _ _ _ hentry hstep => hok.start f.ok hentry hstep⟩

/-- A stack is laid out, and switched to. -/
theorem context_switch_ok_primed : ∃ s : Tasks (abiX86 8) Bool, SwitchOk twoStacks s ∧ s.current = true := by
  have hrun : ∃ s, Transition.run (Tasks.step (a := abiX86 8) twoStacks)
      (.init ((⟨fun _ => 0, fun _ => Nat.pow_pos (by decide)⟩ : Regs X86Reg.width).set .rsp 8192) (fun _ => 0) false)
      [.prime true 5000, .switch true] = some s ∧ s.current = true := ⟨_, rfl, rfl⟩
  obtain ⟨s, hs, hcurrent⟩ := hrun
  exact ⟨s, context_switch_ok .sysvX86_64 twoStacks _ _ _ ⟨_, hs⟩, hcurrent⟩

end Sppc
