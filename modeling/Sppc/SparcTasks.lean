import Sppc.SparcV9
import Sppc.Stacks
import Sppc.Transition

/-!
# Tasks that switch to each other on SPARC V9 (`asm/switch_sparc_v9.S`, `async/context.h`)

The stack pointer to switch to is loaded into a window that has the previous task's values.  A spill there puts these
into the save area that the window of the next task is loaded from.
-/

namespace Sppc

open Transition Bytes RegisterWindow

/-- `_gt_stack_prime`: the stack pointer to switch to, and the memory. -/
def sparcStackPrime (mem : Bytes) (usable size : Nat) (entry : Word) : Word × Bytes :=
  let top := (usable + size) % 2 ^ 64 &&& (2 ^ 64 - 1 - 15)
  let bias : Word := 2047
  let outer := top - 176
  let base := outer - 176
  let mem := clear mem base (176 + 176)
  let mem := storeWord mem (base + 112) (BitVec.ofNat 64 outer - bias)
  let mem := storeWord mem (base + 120) (entry - 8)
  (BitVec.ofNat 64 base - bias, mem)

/-- What a task has when it calls `_gt_switch`: its stack pointer, the address of the call, and the windows that are
in registers. -/
structure SparcCall where
  sp : Word
  link : Word
  fsr : Word
  window : Window
  older : List Window

/-- The call that a new stack looks like: the function at `entry` is where it returns to. -/
def SparcCall.primed (outer : Nat) (entry : Word) : SparcCall :=
  ⟨BitVec.ofNat 64 outer - 2047, entry - 8, 0, fun _ => 0, []⟩

/-- The machine and the running task.  Nobody stores the calls with which the others have left. -/
structure SparcTasks (T : Type) where
  m : Sparc
  current : T
  last : T → Option SparcCall

/-- The running task computes, lays out a stack, or calls `_gt_switch`, where `spills` says at which boundaries the
system saves the windows. -/
inductive SparcEvent (T : Type)
  | compute (w : Window) (o : Fin 8 → Word) (fsr : Word) (older : List Window) (noise : Bytes)
  | prime (t : T) (entry : Word)
  | switch (t : T) (link : Word) (junk : Window) (spills : Nat → Bool)

/-- The task has returned from its call. -/
structure SparcCall.Resumed (c : SparcCall) (m : Sparc) : Prop where
  pc : m.pc = c.link + 8
  sp : m.o 6 = c.sp
  fsr : m.fsr = c.fsr
  window : m.w = c.window
  older : Held m.mem (c.window (i 6)) c.older

/-- No spill comes between the load of the stack pointer and the last one of the window; or one right before that,
where both tasks have called from the same address. -/
def SpillsOk (spills : Nat → Bool) (link link' : Word) : Prop :=
  (∀ b < 37, 20 < b → spills b = false) ∧ (spills 37 = true → link = link')

example : switchSparc[20]? = some .ldxSp ∧ switchSparc[37]? = some (.ldx (2047 + 120) (i 7)) := by decide

instance (spills : Nat → Bool) (link link' : Word) : Decidable (SpillsOk spills link link') := instDecidableAnd

namespace SparcTasks

variable {T : Type} [DecidableEq T]

def step (layout : Layout T 8) (s : SparcTasks T) : SparcEvent T → Option (SparcTasks T)
  | .compute w o fsr older noise =>
    some { s with m :=
      { s.m with w := w, o := o, fsr := fsr, older := older, mem := layout.write s.current s.m.mem noise } }
  | .prime t entry =>
    if t ≠ s.current ∧ layout.lo t + (352 + 15) ≤ layout.hi t then
      let (sp, mem) := sparcStackPrime s.m.mem (layout.lo t) (layout.hi t - layout.lo t) entry
      some { s with
        m := { s.m with mem := storeWord mem (layout.slot t) sp }
        last := Function.update s.last t (some (SparcCall.primed (area sp + 176) entry)) }
    else none
  | .switch t link junk spills =>
    if t ≠ s.current ∧ (s.last t).isSome ∧ layout.lo s.current + 176 ≤ area (s.m.o 6) ∧
        Within (layout.lo s.current) (layout.hi s.current) (s.m.o 6) (s.m.w :: s.m.older) then
      let m := s.m.called (BitVec.ofNat 64 (layout.slot s.current)) (BitVec.ofNat 64 (layout.slot t)) link
      let c : SparcCall := ⟨m.o 6, m.o 7, m.fsr, m.w, m.older⟩
      some ⟨m.gtSwitch junk spills, t, Function.update s.last s.current (some c)⟩
    else none

/-- One task runs, and no other one has a stack laid out. -/
def init (m : Sparc) (t : T) : SparcTasks T := ⟨m, t, fun _ => none⟩

/-- The spills of a switch are where they do no harm. -/
def Kept (s : SparcTasks T) : SparcEvent T → Prop
  | .switch t link _ spills => ∀ c ∈ s.last t, SpillsOk spills link c.link
  | _ => True

instance (s : SparcTasks T) (e : SparcEvent T) : Decidable (s.Kept e) := by
  cases e <;> unfold Kept <;> infer_instance

/-- Runs whose spills do no harm. -/
def keptStep (layout : Layout T 8) (s : SparcTasks T) (e : SparcEvent T) : Option (SparcTasks T) :=
  if s.Kept e then s.step layout e else none

end SparcTasks

/-- A task that does not run: the switch's own frame, at `own`, has its return address and the stack pointer of its
call, and the windows of the call are saved. -/
structure SparcSuspended {T : Type} (layout : Layout T 8) (mem : Bytes) (t : T) (c : SparcCall)
    (own : Word) : Prop where
  lo : layout.lo t ≤ area own
  within : Within (area own + 176) (layout.hi t) c.sp (c.window :: c.older)
  slot : loadWord mem (layout.slot t) = own
  sp : fill mem own (i 6) = c.sp
  link : fill mem own (i 7) = c.link
  fsr : loadWord mem (area own + 128) = c.fsr
  held : Held mem c.sp (c.window :: c.older)

section system

variable {T : Type} {layout : Layout T 8} {mem mem' : Bytes} {t u : T} {c : SparcCall} {own : Word}

private theorem SparcSuspended.congr (h : SparcSuspended layout mem t c own)
    (hframe : ∀ x, layout.lo t ≤ x ∧ x < layout.hi t → mem' x = mem x)
    (hslot : ∀ x, layout.slot t ≤ x ∧ x < layout.slot t + 8 → mem' x = mem x) :
    SparcSuspended layout mem' t c own := by
  have hlo := h.lo
  obtain ⟨htop, hhi, -⟩ := h.within
  have hfill : fill mem' own = fill mem own := fill_congr fun x hx hx' => hframe x (by omega)
  refine ⟨hlo, h.within, ?_, ?_, ?_, ?_, ?_⟩
  · exact (loadWord_congr fun x hx hx' => hslot x ⟨hx, hx'⟩).trans h.slot
  · rw [hfill]
    exact h.sp
  · rw [hfill]
    exact h.link
  · exact (loadWord_congr fun x hx hx' => hframe x (by omega)).trans h.fsr
  · exact h.held.congr h.within fun x hx hx' => hframe x (by omega)

/-- Another task's stack and slot are written to. -/
private theorem SparcSuspended.other (h : SparcSuspended layout mem u c own) (htu : t ≠ u)
    (hframe : ∀ x, ¬(layout.lo t ≤ x ∧ x < layout.hi t) → ¬(layout.slot t ≤ x ∧ x < layout.slot t + 8) →
      mem' x = mem x) :
    SparcSuspended layout mem' u c own :=
  h.congr (fun x hx => hframe x (layout.stack_ne htu.symm hx) (layout.stack_slot hx))
    fun x hx => hframe x (fun hx' => layout.stack_slot hx' hx) (layout.slot_ne htu.symm hx)

/-! ### Stacks that are laid out -/

private theorem area_sub {a : Nat} (h : a < 2 ^ 64) : area (BitVec.ofNat 64 a - 2047) = a := by
  unfold area
  rw [BitVec.sub_add_cancel, BitVec.toNat_ofNat, Nat.mod_eq_of_lt h]

/-- What `_gt_stack_prime` lays out, once the stack pointer that it returns is in the task's slot. -/
structure SparcPrimed (layout : Layout T 8) (mem : Bytes) (t : T) (entry : Word) (x : Word × Bytes) : Prop where
  frame : ∀ a, ¬(layout.lo t ≤ a ∧ a < layout.hi t) → x.2 a = mem a
  suspended : SparcSuspended layout (storeWord x.2 (layout.slot t) x.1) t (.primed (area x.1 + 176) entry) x.1

private theorem sparcSuspended_primed (mem : Bytes) (entry : Word) (hroom : layout.lo t + (352 + 15) ≤ layout.hi t) :
    SparcPrimed layout mem t entry (sparcStackPrime mem (layout.lo t) (layout.hi t - layout.lo t) entry) := by
  have hhi : layout.hi t < 2 ^ 64 := layout.hi_lt t
  have hmask : (layout.lo t + (layout.hi t - layout.lo t)) % 2 ^ 64 &&& (2 ^ 64 - 1 - 15) = layout.hi t / 16 *
      16 := by
    rw [Nat.add_sub_cancel' (by omega), Nat.mod_eq_of_lt hhi]
    exact and_mask (k := 4) hhi (by decide)
  unfold sparcStackPrime
  dsimp only
  rw [hmask]
  generalize htop : layout.hi t / 16 * 16 - 176 - 176 = base
  have houter : layout.hi t / 16 * 16 - 176 = base + 176 := by omega
  have harea : area (BitVec.ofNat 64 base - 2047) = base := area_sub (by omega)
  have harea' : area (BitVec.ofNat 64 (base + 176) - 2047) = base + 176 := area_sub (by omega)
  have hslot : layout.slot t + 8 ≤ base ∨ base + 352 ≤ layout.slot t :=
    layout.slot_apart (t := t) (by decide) (by decide) (by omega) (by omega)
  rw [houter]
  refine ⟨fun x hx => ?_, ?_⟩
  · dsimp only
    rw [storeWord_of_not (by omega), storeWord_of_not (by omega)]
    exact if_neg (by omega)
  dsimp only
  generalize hmem :
    storeWord (storeWord (clear mem base (176 + 176)) (base + 112) (BitVec.ofNat 64 (base + 176) - 2047))
    (base + 120) (entry - 8) = mem'
  -- a word of the two frames, below the slot's store
  have hword : ∀ a, base ≤ a → a + 8 ≤ base + 352 → ∀ own, loadWord (storeWord mem' (layout.slot t) own) a =
      loadWord mem' a :=
    fun a ha ha' own => loadWord_congr (agree_storeWord (by omega))
  have hzero : ∀ a, base ≤ a → a + 8 ≤ base + 352 → a + 8 ≤ base + 112 ∨ base + 128 ≤ a → loadWord mem' a = 0 := by
    intro a ha ha' hne
    rw [← hmem, loadWord_congr (agree_storeWord (by omega)), loadWord_congr (agree_storeWord (by omega))]
    unfold loadWord
    rw [loadBytes_clear ha ha']
    rfl
  refine ⟨by rw [harea]; omega, ?_, loadWord_storeWord, ?_, ?_, ?_, ?_⟩
  · change _ ≤ area (BitVec.ofNat 64 _ - 2047) ∧ area (BitVec.ofNat 64 _ - 2047) + 128 ≤ _ ∧ True
    rw [harea, harea']
    exact ⟨by omega, by omega, trivial⟩
  · change loadWord _ (area _ + 8 * 14) = BitVec.ofNat 64 _ - 2047
    rw [harea, hword _ (by omega) (by omega), ← hmem, loadWord_congr (agree_storeWord (by omega))]
    exact loadWord_storeWord
  · change loadWord _ (area _ + 8 * 15) = entry - 8
    rw [harea, hword _ (by omega) (by omega), ← hmem]
    exact loadWord_storeWord
  · rw [harea, hword _ (by omega) (by omega), hzero _ (by omega) (by omega) (by omega)]
    rfl
  · refine ⟨funext fun k => ?_, trivial⟩
    change loadWord _ (area (BitVec.ofNat 64 _ - 2047) + 8 * k.val) = 0
    rw [harea, harea', hword _ (by omega) (by omega), hzero _ (by omega) (by omega) (by omega)]

/-! ### Every run -/

/-- Every task that does not run, and has called `_gt_switch` or has a stack laid out, is suspended in its call. -/
def SparcTasks.Ok (layout : Layout T 8) (s : SparcTasks T) : Prop :=
  ∀ t ≠ s.current, ∀ c, s.last t = some c → ∃ own, SparcSuspended layout s.m.mem t c own

variable [DecidableEq T] {s s' : SparcTasks T} {link : Word} {junk : Window} {spills : Nat → Bool}

private theorem SparcTasks.Ok.compute {w : Window} {o : Fin 8 → Word} {fsr : Word} {older : List Window}
    {noise : Bytes} (h : s.Ok layout) (hstep : s.step layout (.compute w o fsr older noise) = some s') :
    s'.Ok layout := by
  cases hstep
  intro t ht c hc
  obtain ⟨own, hown⟩ := h t ht c hc
  exact ⟨own, hown.congr (fun x hx => Layout.write_stack ht hx) fun x hx => Layout.write_slot hx⟩

private theorem SparcTasks.Ok.prime {entry : Word} (h : s.Ok layout)
    (hstep : s.step layout (.prime t entry) = some s') : s'.Ok layout := by
  unfold SparcTasks.step at hstep
  dsimp only at hstep
  split at hstep <;> cases hstep
  rename_i hcond
  obtain ⟨hframe, hprimed⟩ := sparcSuspended_primed s.m.mem entry hcond.2
  generalize sparcStackPrime s.m.mem (layout.lo t) (layout.hi t - layout.lo t) entry = x at *
  obtain ⟨own, mem⟩ := x
  intro u hu c hc
  dsimp only at hframe hprimed hu hc ⊢
  by_cases hut : u = t
  · subst hut
    rw [Function.update_self] at hc
    rw [← Option.some.inj hc]
    exact ⟨own, hprimed⟩
  · rw [Function.update_of_ne hut] at hc
    obtain ⟨own', hown'⟩ := h u hu c hc
    have hother : ∀ x, ¬(layout.lo t ≤ x ∧ x < layout.hi t) → ¬(layout.slot t ≤ x ∧ x < layout.slot t + 8) →
        storeWord mem (layout.slot t) own x = s.m.mem x := by
      intro x hx hx'
      rw [storeWord_of_not hx']
      exact hframe x hx
    exact ⟨own', hown'.other (Ne.symm hut) hother⟩

/-- A switch from a task that has called it with room for its frame. -/
private theorem Sparc.gtSwitch_restored (junk : Window) (spills : Nat → Bool) {m : Sparc} {lo hi : Nat}
    (hready : m.Ready lo hi) : ∃ m₁, m.Exchanged junk lo hi m₁ ∧
    (area (m₁.o 6) + 136 < 2 ^ 64 → ∃ w, m₁.Restored spills w (m.gtSwitch junk spills)) := by
  refine ⟨_, hready.exchanged junk spills, fun htop => ?_⟩
  unfold gtSwitch
  rw [switchSparc_eq, Interrupted.run_append]
  exact restored (hready.exchanged junk spills).older htop

private theorem Sparc.Mixed.eq_iff {k : Nat} {saved old w : Window} (h : Mixed spills k saved old w) (j : Fin 16) :
    w j = saved j ↔ (Hit spills k j → old j = saved j) := by
  obtain ⟨hhit, hnot⟩ := h j
  by_cases hj : Hit spills k j
  · rw [hhit hj]
    exact ⟨fun heq _ => heq, fun heq => heq hj⟩
  · exact ⟨fun _ hj' => absurd hj' hj, fun _ => hnot hj⟩

omit [DecidableEq T] in
private theorem spillsOk_iff {link' : Word} :
    SpillsOk spills link link' ↔ ¬Sparc.Hit spills 40 14 ∧ (Sparc.Hit spills 40 15 → link = link') := by
  constructor
  · refine fun ⟨hnone, hlast⟩ => ⟨fun ⟨b, hlo, _, hhi, hb⟩ => ?_, fun ⟨b, hlo, _, hhi, hb⟩ => ?_⟩
    · rw [hnone b (by omega) hlo] at hb
      cases hb
    · rcases Nat.lt_or_ge b 37 with hb' | hb'
      · rw [hnone b hb' hlo] at hb
        cases hb
      · have hb37 : b = 37 := by omega
        exact hlast (hb37 ▸ hb)
  · refine fun ⟨hnone, hlast⟩ => ⟨fun b hhi hlo => ?_, fun hb => hlast ⟨37, by decide, by decide, by decide, hb⟩⟩
    exact Bool.eq_false_of_not_eq_true fun hb => hnone ⟨b, hlo, by omega, by omega, hb⟩

/-- What the switch from the task that runs does. -/
structure SparcTasks.Switched (layout : Layout T 8) (s : SparcTasks T) (link : Word) (spills : Nat → Bool)
    (c : SparcCall) (s' : SparcTasks T) : Prop where
  resumed_iff : c.Resumed s'.m ↔ SpillsOk spills link c.link
  ok : SpillsOk spills link c.link → s'.Ok layout

private theorem SparcTasks.Ok.switch (h : s.Ok layout) {c : SparcCall} (hc : s.last t = some c)
    (hstep : s.step layout (.switch t link junk spills) = some s') : s.Switched layout link spills c s' := by
  unfold SparcTasks.step at hstep
  dsimp only at hstep
  split at hstep <;> cases hstep
  rename_i hcond
  obtain ⟨ht, -, hroom, hwithin⟩ := hcond
  have hslot_lt := layout.slot_lt
  have hslot (u : T) : (BitVec.ofNat 64 (layout.slot u)).toNat = layout.slot u := by
    rw [BitVec.toNat_ofNat]
    exact Nat.mod_eq_of_lt (hslot_lt u)
  generalize hm : s.m.called (BitVec.ofNat 64 (layout.slot s.current)) (BitVec.ofNat 64 (layout.slot t)) link = m at *
  have ho₀ : (m.o 0).toNat = layout.slot s.current := by
    rw [← hm]
    exact hslot _
  have ho₁ : (m.o 1).toNat = layout.slot t := by
    rw [← hm]
    exact hslot _
  have ho₇ : m.o 7 = link := by
    rw [← hm]
    rfl
  have hsp : m.o 6 = s.m.o 6 := by
    rw [← hm]
    rfl
  have hmem : m.mem = s.m.mem := by
    rw [← hm]
    rfl
  have hready : m.Ready (layout.lo s.current) (layout.hi s.current) := by
    refine ⟨by rwa [hsp], ?_, layout.hi_lt s.current, ?_⟩
    · rw [← hm]
      exact hwithin
    · rw [ho₀]
      have hhi := hwithin.2.1
      have := layout.slot_apart (t := s.current) (u := s.current) (n := layout.hi s.current - layout.lo s.current)
        (by decide) (by omega) (Nat.le_refl _) (by omega)
      omega
  obtain ⟨m₁, hexchanged, hrestored⟩ := Sparc.gtSwitch_restored junk spills hready
  generalize m.gtSwitch junk spills = m₂ at *
  obtain ⟨own, hown⟩ := h t ht c hc
  obtain ⟨hown₀, hownlo, hownin⟩ := hready.own
  have hframe₁ : ∀ x, ¬(layout.lo s.current ≤ x ∧ x < layout.hi s.current) →
      ¬(layout.slot s.current ≤ x ∧ x < layout.slot s.current + 8) → m₁.mem x = s.m.mem x := by
    intro x hx hx'
    rw [← hmem]
    refine hexchanged.saved.frame x hx ?_
    rwa [ho₀]
  have hown₁ : SparcSuspended layout m₁.mem t c own := hown.other (Ne.symm ht) hframe₁
  have hsp₁ : m₁.o 6 = own := by
    rw [hexchanged.sp, ho₁]
    exact hown₁.slot
  obtain ⟨htop, hhi, hcallers⟩ := hown₁.within
  have hhi_lt : layout.hi t < 2 ^ 64 := layout.hi_lt t
  rw [hsp₁] at hrestored
  obtain ⟨w, hw⟩ := hrestored (by omega)
  have hframe₂ : ∀ x, ¬(area own ≤ x ∧ x < area own + 128) → m₂.mem x = m₁.mem x := by
    intro x hx
    refine hw.frame x ?_
    rwa [hsp₁]
  have hmixed := hw.mixed
  rw [hsp₁, hexchanged.w] at hmixed
  -- the two tasks' stack pointers differ, as their stacks do
  have hne : m.o 6 ≠ c.sp := by
    intro heq
    have hlo := hwithin.1
    have hhi' := hwithin.2.1
    rw [← hsp, heq] at hlo hhi'
    exact layout.stack_ne (t := t) (u := s.current) ht (x := area c.sp) ⟨by have := hown.lo; omega, by
      omega⟩ ⟨hlo, by omega⟩
  have hin : w (i 6) = c.sp ↔ ¬Sparc.Hit spills 40 14 := by
    have heq := hmixed.eq_iff (i 6)
    rw [hown₁.sp, Sparc.entered_i] at heq
    exact heq.trans ⟨fun h hhit => hne (h hhit), fun h hhit => absurd hhit h⟩
  have hret : w (i 7) = c.link ↔ (Sparc.Hit spills 40 15 → link = c.link) := by
    have heq := hmixed.eq_iff (i 7)
    rwa [hown₁.link, Sparc.entered_i, ho₇] at heq
  have hheld : Held m₂.mem c.sp (c.window :: c.older) :=
    hown₁.held.congr hown₁.within fun x hx _ => hframe₂ x (by omega)
  have hothers : ∀ u ≠ t, ∀ c' own', SparcSuspended layout m₁.mem u c' own' →
      SparcSuspended layout m₂.mem u c' own' := by
    intro u hu c' own' hown'
    have hlo := hown.lo
    refine hown'.other (Ne.symm hu) fun x hx _ => hframe₂ x fun hx' => hx ?_
    omega
  have hmine : SparcSuspended layout m₁.mem s.current ⟨m.o 6, m.o 7, m.fsr, m.w, m.older⟩ m.ownSp := by
    have hsaved := hexchanged.saved
    refine ⟨hown₀, hownin, ?_, ?_, ?_, hsaved.fsr, hsaved.held⟩
    · rw [← ho₀]
      exact hsaved.slot
    · exact (congrFun hsaved.window (i 6)).trans (Sparc.entered_i 6)
    · exact (congrFun hsaved.window (i 7)).trans (Sparc.entered_i 7)
  refine ⟨⟨fun hr => ?_, fun hok => ?_⟩, fun hok u hu c' hc' => ?_⟩
  · refine spillsOk_iff.2 ⟨hin.1 (hw.sp.symm.trans hr.sp), hret.1 ?_⟩
    exact (BitVec.add_left_inj 8).1 (hw.pc.symm.trans hr.pc)
  · obtain ⟨hnone, hlast⟩ := spillsOk_iff.1 hok
    have hwsp := hin.2 hnone
    have hwindow := hw.window
    rw [hwsp] at hwindow
    refine ⟨?_, hw.sp.trans hwsp, ?_, hwindow.trans hheld.1, hheld.2⟩
    · rw [hw.pc, hret.2 hlast]
    · rw [hw.fsr, hsp₁]
      exact hown₁.fsr
  · dsimp only at hu hc' ⊢
    by_cases hus : u = s.current
    · subst hus
      rw [Function.update_self] at hc'
      rw [← Option.some.inj hc']
      exact ⟨m.ownSp, hothers s.current hu _ _ hmine⟩
    · rw [Function.update_of_ne hus] at hc'
      obtain ⟨own', hown'⟩ := h u hus c' hc'
      exact ⟨own', hothers u hu c' own' (hown'.other (Ne.symm hus) hframe₁)⟩

private theorem SparcTasks.Ok.keptStep {e : SparcEvent T} (h : s.Ok layout) (hstep : s.keptStep layout e = some s') :
    s'.Ok layout := by
  unfold SparcTasks.keptStep at hstep
  split at hstep
  · rename_i hkept
    cases e with
    | compute w o fsr older noise => exact h.compute hstep
    | prime t entry => exact h.prime hstep
    | switch t link junk spills =>
      have hsome : (s.last t).isSome := by
        unfold SparcTasks.step at hstep
        dsimp only at hstep
        split at hstep
        · rename_i hcond
          exact hcond.2.1
        · cases hstep
      obtain ⟨c, hc⟩ := Option.isSome_iff_exists.1 hsome
      exact (h.switch hc hstep).ok (hkept c hc)
  · cases hstep

/-- In every run whose spills do no harm, the next switch returns to its task's call if and only if its
own do none. -/
theorem sparc_switch_ok (layout : Layout T 8) (m : Sparc) (t : T) {s : SparcTasks T}
    (h : Reach (SparcTasks.keptStep layout) (.init m t) s) {u : T} {c : SparcCall} (hc : s.last u = some c)
    {link : Word} {junk : Window} {spills : Nat → Bool} {s' : SparcTasks T}
    (hstep : s.step layout (.switch u link junk spills) = some s') :
    c.Resumed s'.m ↔ SpillsOk spills link c.link := by
  have hok : s.Ok layout := h.invariant (fun _ _ _ hs hstep => hs.keptStep hstep) fun _ _ _ => nofun
  exact (hok.switch hc hstep).resumed_iff

end system

/-- A machine on the lower of two stacks. -/
def lowerStack : Sparc := ⟨fun _ => 0, fun k => if k = 6 then 3953 else 0, 0, [], fun _ => 0, 0⟩

/-- The other stack is laid out. -/
def upperPrimed : Option (SparcTasks Bool) :=
  Transition.run (SparcTasks.keptStep twoStacks) (.init lowerStack false) [.prime true 5000]

/-- The system saves the windows at each boundary but those where that would do harm. -/
theorem sparc_switch_ok_spilled : ∃ s s' : SparcTasks Bool, upperPrimed = some s ∧
    s.step twoStacks (.switch true 100 (fun _ => 0) fun b => decide (b ≤ 20 ∨ 38 ≤ b)) = some s' ∧
    (SparcCall.primed 12112 5000).Resumed s'.m := by
  have hrun : ∃ s s' : SparcTasks Bool, upperPrimed = some s ∧ s.last true = some (.primed 12112 5000) ∧
      s.step twoStacks (.switch true 100 (fun _ => 0) fun b => decide (b ≤ 20 ∨ 38 ≤ b)) = some s' :=
      ⟨_, _, rfl, rfl, rfl⟩
  obtain ⟨s, s', hs, hlast, hstep⟩ := hrun
  exact ⟨s, s', hs, hstep, (sparc_switch_ok twoStacks lowerStack false ⟨[.prime true 5000], hs⟩ hlast hstep).2
    (by decide)⟩

/-- The system saves the window while it is being loaded: the new task begins after the call of the previous one. -/
theorem sparc_window_overwritten : ∃ s s' : SparcTasks Bool, upperPrimed = some s ∧
    s.step twoStacks (.switch true 100 (fun _ => 0) fun b => decide (b = 30)) = some s' ∧
    s.last true = some (SparcCall.primed 12112 5000) ∧ s'.m.pc = 108 ∧
    ¬(SparcCall.primed 12112 5000).Resumed s'.m := by
  refine ⟨_, _, rfl, rfl, rfl, by decide +kernel, fun h => ?_⟩
  exact absurd h.pc (by decide +kernel)

end Sppc
