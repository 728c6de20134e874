import Sppc.Run

/-!
# Tasks that only spawn, yield, await and finish

In such a run nothing is ever outstanding at the backend, no task is detached, and a task that is switched away is at
a primed stack, in a yield, in an await, or at its end.
-/

namespace Sppc

variable {Io : Type} {R R' : GtRuntime Io} {f : Resume} {t : Nat}

/-- A call of spawn, yield or await, the end of a task, or what is no call of a task. -/
def Event.plain [IoBackend Io] : Event Io → Bool
  | .detach _ | .io _ | .lock .. | .unlock .. | .condWait .. | .drain | .setStackSize _ | .setGuardPages _
    | .exit => false
  | _ => true

/-- The events of a log in which nothing was detached and nothing submitted. -/
def Ev.plain : Ev → Bool
  | .detached _ | .refused _ | .parked .. => false
  | _ => true

/-- The places of a spawn, a yield, an await and a task's end. -/
def Resume.plain : Resume → Bool
  | .entry | .yielded | .joined _ | .finished => true
  | _ => false

def Ctl.plain : Ctl → Bool
  | .code | .panic _ | .lost => true
  | .pick f => f.plain
  | _ => false

/-- The runtime of tasks that only spawn, yield, await and finish. -/
structure Plain (R : GtRuntime Io) : Prop where
  inflight : R.inflight = 0
  log : ∀ e ∈ R.log, e.plain
  sp : ∀ i f, (R.slots i).sp = some f → f.plain

/-- The same of the machine. -/
structure PlainRun (s : Machine Io) : Prop where
  rt : Plain s.rt
  ctl : s.ctl.plain

/-- After a switch a task is in its code, unless the switch went wrong. -/
structure PlainLanding (s : Machine Io) : Prop where
  rt : Plain s.rt
  ctl : s.ctl = .code ∨ s.ctl = .lost ∨ s.ctl = .panic .resumedFinished

theorem PlainLanding.run {s : Machine Io} (h : PlainLanding s) : PlainRun s := by
  refine ⟨h.rt, ?_⟩
  rcases h.ctl with hctl | hctl | hctl
  · rw [hctl]
    rfl
  · rw [hctl]
    rfl
  · rw [hctl]
    rfl

/-! ### What keeps a runtime plain -/

private theorem Plain.of_eq (h : Plain R) (hi : R'.inflight = R.inflight) (hl : R'.log = R.log)
    (hs : R'.slots = R.slots) : Plain R' := by
  constructor
  · rw [hi]
    exact h.inflight
  · rw [hl]
    exact h.log
  · rw [hs]
    exact h.sp

theorem Plain.note {e : Ev} (h : Plain R) (he : e.plain) : Plain (R.note e) := by
  refine ⟨h.inflight, ?_, h.sp⟩
  intro e' he'
  rcases List.mem_cons.1 he' with rfl | he'
  · exact he
  · exact h.log e' he'

/-- Writing to one block, with a plain place if with any. -/
theorem Plain.modify {g : GtTask → GtTask} (h : Plain R)
    (hg : ∀ s f, (g s).sp = some f → s.sp = some f ∨ f.plain = true) : Plain (R.modify t g) := by
  refine ⟨h.inflight, h.log, ?_⟩
  intro i f hf
  simp only [GtRuntime.modify, Function.update_apply] at hf
  split at hf
  · rcases hg _ f hf with hf | hf
    · exact h.sp t f hf
    · exact hf
  · exact h.sp i f hf

/-- Writing to another field of a block than its stack pointer. -/
private theorem Plain.set {g : GtTask → GtTask} (h : Plain R) (hg : ∀ s, (g s).sp = s.sp) : Plain (R.modify t g) := by
  apply h.modify
  intro s f hf
  rw [hg] at hf
  exact Or.inl hf

theorem Plain.quiet (h : Plain R) (hq : Quiet R R') : Plain R' := by
  obtain ⟨l, hl, hm⟩ := hq.log
  constructor
  · rw [hq.inflight]
    exact h.inflight
  · intro e he
    rw [hl] at he
    rcases List.mem_append.1 he with he | he
    · have hmapping := hm e he
      cases e with
      | mapped => rfl
      | mprotected => rfl
      | unmapped => rfl
      | _ => exact absurd hmapping Bool.false_ne_true
    · exact h.log e he
  · intro i f hf
    rw [(hq.slots i).sp] at hf
    exact h.sp i f hf

/-! ### The parts of the scheduler -/

theorem Plain.rqPush (h : Plain R) (t : Nat) : Plain (gtRqPush R t) := by
  rw [gtRqPush_eq]
  exact ⟨h.inflight, h.log, h.sp⟩

theorem Plain.rqPop (h : Plain R) : Plain (gtRqPop R).2 := by
  unfold gtRqPop
  split
  · exact h
  · dsimp only
    apply Plain.set
    · split
      · exact h.of_eq rfl rfl rfl
      · exact h.of_eq rfl rfl rfl
    · exact fun _ => rfl

private theorem Plain.slotFree (h : Plain R) (t : Nat) : Plain (gtSlotFree R t) := by
  rw [gtSlotFree_eq]
  refine ⟨h.inflight, (h.note (e := .retire t) rfl).log, ?_⟩
  intro i f hf
  dsimp only at hf
  split at hf
  · exact h.sp i f hf
  · exact h.sp i f hf

theorem Plain.taken {idx gen n : Nat} {p : Option Nat} (h : Plain R) : Plain (slotTaken R t idx gen n p) := by
  refine ⟨h.inflight, (h.note (e := .alloc t) rfl).log, ?_⟩
  intro i f hf
  unfold slotTaken at hf
  dsimp only at hf
  split at hf
  · exact absurd hf nofun
  · exact h.sp i f hf

private theorem Plain.slotsGrow {realloc : Bool} (h : Plain R) (hg : gtSlotsGrow R realloc = some R') : Plain R' := by
  unfold gtSlotsGrow at hg
  generalize (if R.cslots ≠ 0 then (R.cslots * 2) % 2 ^ 32 else 64) = nc at hg
  dsimp only at hg
  split at hg
  · split at hg
    · exact absurd hg nofun
    · split at hg
      · rw [← Option.some.inj hg]
        exact h.of_eq rfl rfl rfl
      · exact absurd hg nofun
  · rw [← Option.some.inj hg]
    exact h

private theorem Plain.slotAlloc (h : Plain R) (o : SpawnAnswer) : Plain (gtSlotAlloc R o).2 := by
  unfold gtSlotAlloc
  split
  · rw [gtSlotReuse_eq]
    exact h.taken
  · split
    · exact h
    · rename_i R₁ hg
      have h₁ := h.slotsGrow hg
      split
      · rw [gtSlotFresh_eq]
        exact h₁.taken
      · exact h₁

private theorem Plain.reap (h : Plain R) : Plain (gtReap R) := by
  have hfrom (n : Nat) (z : Option Nat) (R : GtRuntime Io) (h : Plain R) : Plain (gtReapFrom n z R) := by
    induction n generalizing z R with
    | zero =>
      cases z with
      | none => exact h
      | some z => exact h
    | succ n ih =>
      cases z with
      | none => exact h
      | some z =>
        have hstacks : Plain (gtReapStacks R z) := by
          unfold gtReapStacks
          dsimp only
          refine Plain.set ?_ fun _ => rfl
          apply Plain.quiet _ (gtStackFree_quiet _ _ _)
          refine Plain.set ?_ fun _ => rfl
          apply Plain.quiet _ (gtStackFree_quiet _ _ _)
          exact h.set fun _ => rfl
        unfold gtReapFrom
        dsimp only
        split
        · exact ih _ _ (hstacks.slotFree z)
        · exact ih _ _ hstacks
  exact hfrom _ _ _ (h.of_eq rfl rfl rfl)

private theorem Plain.wakeFrom (h : Plain R) (n : Nat) (w : Option Nat) : Plain (gtWakeFrom t n w R) := by
  induction n generalizing w R with
  | zero =>
    cases w with
    | none => exact h
    | some w => exact h
  | succ n ih =>
    cases w with
    | none => exact h
    | some w =>
      unfold gtWakeFrom
      apply ih
      refine Plain.note ?_ rfl
      apply Plain.rqPush
      exact h.set fun _ => rfl

private theorem Plain.envFree (h : Plain R) (env : Option SppcClosureEnv) : Plain (sppcEnvFree R env) := by
  cases env with
  | none => exact h
  | some e => exact h.note rfl

/-! ### Spawning -/

private theorem Plain.spawnReady {body : SppcClosure} {size stack : Nat} {ustack : Option Nat} (h : Plain R) :
    Plain (gtSpawnReady R t body size stack ustack).1 := by
  unfold gtSpawnReady
  refine Plain.note ?_ rfl
  apply Plain.rqPush
  apply h.modify
  intro s f hf
  injection hf with hf
  exact Or.inr (by rw [← hf]; rfl)

private theorem Plain.spawn (h : Plain R) (body : SppcClosure) (o : SpawnAnswer) : Plain (gtSpawn R body o).1 := by
  have halloc := h.slotAlloc o
  unfold gtSpawn
  split
  · rename_i R₁ heq
    rw [heq] at halloc
    exact halloc
  · rename_i t R₁ heq
    rw [heq] at halloc
    have hstack := halloc.quiet (gtStackAlloc_quiet R₁ R₁.stackSize o.stack)
    dsimp only
    split
    · rename_i R₂ heq₂
      rw [heq₂] at hstack
      exact hstack.slotFree t
    · rename_i stack R₂ heq₂
      rw [heq₂] at hstack
      have hustack := hstack.quiet (gtStackAlloc_quiet R₂ R₁.stackSize o.ustack)
      split
      · split
        · rename_i R₃ heq₃
          rw [heq₃] at hustack
          exact (hustack.quiet (gtStackFree_quiet _ _ _)).slotFree t
        · rename_i ustack R₃ heq₃
          rw [heq₃] at hustack
          exact hustack.spawnReady
      · exact hstack.spawnReady

theorem Plain.async (h : Plain R) (body : SppcClosure) (o : SpawnAnswer) : Plain (sppcAsync R body o).1 := by
  have hgiven : Plain (giveClosure R body) := by
    unfold giveClosure
    split
    · exact h
    · exact h.note rfl
  have hspawn := hgiven.spawn body o
  unfold sppcAsync
  split
  · rename_i R₂ err heq
    rw [heq] at hspawn
    unfold sppcClosureDiscard
    split
    · exact hspawn
    · rename_i e _
      have hdrop : Plain (if e.dropCaptures then R₂.note (.dropped e.id) else R₂) := by
        split
        · exact hspawn.note rfl
        · exact hspawn
      dsimp only
      split
      · exact hdrop.envFree _
      · exact hdrop
  · rename_i R₂ handle heq
    rw [heq] at hspawn
    exact hspawn

/-! ### Switching -/

private theorem Plain.awaitEnd (h : Plain R) (w t : Nat) : PlainLanding (gtAwaitEnd R w t) := by
  unfold gtAwaitEnd toCode
  dsimp only
  split
  · exact ⟨(h.note rfl).slotFree t, Or.inl rfl⟩
  · exact ⟨h.note rfl, Or.inl rfl⟩

private theorem Plain.resume (h : Plain R) (hf : f.plain) : PlainLanding (gtResume R f) := by
  cases f with
  | entry =>
    have hstarted : Plain (R.note (.started R.current)) := h.note rfl
    refine ⟨?_, Or.inl rfl⟩
    unfold gtResume gtBodyStart toCode noteCalled
    dsimp only
    split
    · exact hstarted
    · exact hstarted.note rfl
  | yielded => exact ⟨h, Or.inl rfl⟩
  | joined t =>
    apply Plain.awaitEnd
    refine Plain.note ?_ rfl
    exact h.set fun _ => rfl
  | finished => exact ⟨h, Or.inr (Or.inr rfl)⟩
  | _ => exact absurd hf Bool.false_ne_true

private theorem Plain.contextSwitch (h : Plain R) (self next : Nat) (hf : f.plain) :
    PlainLanding (gtContextSwitch R self f next) := by
  have hsaved : Plain (R.modify self fun s => { s with sp := some f }) := by
    apply h.modify
    intro s g hg
    injection hg with hg
    exact Or.inr (by rw [← hg]; exact hf)
  unfold gtContextSwitch
  dsimp only
  split
  · exact ⟨hsaved, Or.inr (Or.inl rfl)⟩
  · exact ⟨hsaved, Or.inr (Or.inr rfl)⟩
  · rename_i g hne heq
    apply Plain.resume
    · split
      · exact hsaved.reap
      · exact hsaved
    · exact hsaved.sp next g heq

theorem Plain.switchTo (h : Plain R) (next : Nat) (hf : f.plain) : PlainLanding (gtSwitchTo R f next) := by
  unfold gtSwitchTo
  dsimp only
  split
  · apply Plain.resume _ hf
    exact h.set fun _ => rfl
  · have hcur : Plain { R with current := next } := h.of_eq rfl rfl rfl
    have hnext := hcur.set (t := next) (g := fun s => { s with state := .running }) fun _ => rfl
    have hself := hnext.set (t := R.current) (g := fun s => { s with usp := R.usp }) fun _ => rfl
    apply Plain.contextSwitch _ _ _ hf
    exact hself.of_eq rfl rfl rfl

theorem Plain.taskRunSwitch (h : Plain R) (next : Nat) : PlainLanding (gtTaskRunSwitch R next) := by
  have hcur : Plain { R with current := next } := h.of_eq rfl rfl rfl
  have hnext := hcur.set (t := next) (g := fun s => { s with state := .running }) fun _ => rfl
  unfold gtTaskRunSwitch
  apply Plain.contextSwitch _ _ _ rfl
  exact hnext.of_eq rfl rfl rfl

/-! ### The steps -/

variable [IoBackend Io]

/-- With nothing outstanding there is nothing to poll for. -/
theorem Plain.pollNow (h : Plain R) : gtIoPollNow R = R := if_neg (not_not.2 h.inflight)

theorem Plain.pick (h : Plain R) (hf : f.plain) : PlainRun (gtPick R f) := by
  have hpop := h.rqPop
  unfold gtPick
  rw [h.pollNow]
  dsimp only
  split
  · rename_i t R' heq
    rw [heq] at hpop
    split
    · exact (hpop.taskRunSwitch t).run
    · exact (hpop.switchTo t hf).run
  · rename_i R' heq
    rw [heq] at hpop
    rw [if_neg (not_not.2 hpop.inflight)]
    exact ⟨hpop, rfl⟩

theorem Plain.yield (h : Plain R) : PlainRun (gtYield R) := by
  have hpop := h.rqPop
  unfold gtYield
  rw [h.pollNow]
  dsimp only
  split
  · rename_i R' heq
    rw [heq] at hpop
    exact ⟨hpop, rfl⟩
  · rename_i next R' heq
    rw [heq] at hpop
    exact ((hpop.rqPush _).switchTo next rfl).run

omit [IoBackend Io] in
theorem Plain.await (h : Plain R) (handle : Int) : PlainRun (gtAwait R handle) := by
  unfold gtAwait
  split
  · exact ⟨h, rfl⟩
  · split
    · exact ⟨h, rfl⟩
    · split
      · exact ⟨h, rfl⟩
      · split
        · refine ⟨?_, rfl⟩
          unfold gtBlock
          dsimp only
          refine Plain.set ?_ fun _ => rfl
          refine Plain.note ?_ rfl
          refine Plain.set ?_ fun _ => rfl
          refine Plain.set ?_ fun _ => rfl
          exact h.set fun _ => rfl
        · apply PlainLanding.run
          apply Plain.awaitEnd
          exact h.note rfl

omit [IoBackend Io] in
theorem Plain.taskRunEnd (h : Plain R) : PlainRun (gtTaskRunEnd R) := by
  have hend : Plain (gtBodyEnd R) := by
    unfold gtBodyEnd
    dsimp only
    refine Plain.set ?_ fun _ => rfl
    refine Plain.set ?_ fun _ => rfl
    apply Plain.envFree
    exact h.note rfl
  have hzombie {R' : GtRuntime Io} (h' : Plain R') : Plain { R'.modify R.current (fun s =>
      { s with next := R'.zombies }) with zombies := some R.current } := by
    have hnext : Plain (R'.modify R.current fun s => { s with next := R'.zombies }) := h'.set fun _ => rfl
    exact hnext.of_eq rfl rfl rfl
  refine ⟨?_, rfl⟩
  unfold gtTaskRunEnd
  apply hzombie
  apply Plain.wakeFrom
  exact hend.set fun _ => rfl

variable {s s' : Machine Io} {e : Event Io}

/-- No poll, no lock and no condition is waited for. -/
theorem PlainRun.idle (h : PlainRun s) : step s .poll = none ∧ (∀ err now, step s (.tried err now) = none) ∧
    (∀ err, step s (.answered err) = none) ∧ ∀ now, step s (.condGo now) = none := by
  have hctl := h.ctl
  unfold step
  cases hat : s.ctl with
  | code => exact ⟨rfl, fun _ _ => rfl, fun _ => rfl, fun _ => rfl⟩
  | pick f => exact ⟨rfl, fun _ _ => rfl, fun _ => rfl, fun _ => rfl⟩
  | panic p => exact ⟨rfl, fun _ _ => rfl, fun _ => rfl, fun _ => rfl⟩
  | lost => exact ⟨rfl, fun _ _ => rfl, fun _ => rfl, fun _ => rfl⟩
  | _ =>
    rw [hat] at hctl
    exact absurd hctl Bool.false_ne_true

/-- A step of tasks that only spawn, yield, await and finish. -/
theorem PlainRun.step (h : PlainRun s) (he : e.plain) (hstep : step s e = some s') : PlainRun s' := by
  have hidle := h.idle
  obtain ⟨hrt, hctl⟩ := h
  cases e with
  | async body o =>
    have hasync := hrt.async body o
    rw [Sppc.step] at hstep
    split at hstep
    · split at hstep
      · rename_i heq
        rw [heq] at hasync
        rw [← Option.some.inj hstep]
        exact ⟨hasync, rfl⟩
      · rename_i heq
        rw [heq] at hasync
        rw [← Option.some.inj hstep]
        exact ⟨hasync, rfl⟩
    · cases hstep
  | yield =>
    rw [Sppc.step] at hstep
    split at hstep
    · rw [← Option.some.inj hstep]
      exact hrt.yield
    · cases hstep
  | await handle =>
    rw [Sppc.step] at hstep
    split at hstep
    · rw [← Option.some.inj hstep]
      exact hrt.await handle
    · cases hstep
  | finish =>
    rw [Sppc.step] at hstep
    split at hstep
    · rw [← Option.some.inj hstep]
      exact hrt.taskRunEnd
    · cases hstep
  | turn =>
    rw [Sppc.step] at hstep
    split at hstep
    · rename_i f hpick
      rw [hpick] at hctl
      rw [← Option.some.inj hstep]
      exact hrt.pick hctl
    · rename_i hdrain
      rw [hdrain] at hctl
      exact absurd hctl Bool.false_ne_true
    · cases hstep
  | kernel e =>
    rw [Sppc.step] at hstep
    split at hstep
    · cases hstep
    · split at hstep
      · rw [← Option.some.inj hstep]
        exact ⟨hrt.of_eq rfl rfl rfl, hctl⟩
      · cases hstep
  | poll =>
    rw [hidle.1] at hstep
    cases hstep
  | tried err now =>
    rw [hidle.2.1] at hstep
    cases hstep
  | answered err =>
    rw [hidle.2.2.1] at hstep
    cases hstep
  | condGo now =>
    rw [hidle.2.2.2] at hstep
    cases hstep
  | _ => exact absurd he Bool.false_ne_true

omit [IoBackend Io] in
theorem gtInit_plain (io : Io) (page : Nat) (unsafeStackWanted : Bool) :
    PlainRun (gtInit io page unsafeStackWanted) := by
  have hzero : Plain { gtRuntimeZero io page unsafeStackWanted with cslots := 64 } :=
    ⟨rfl, nofun, fun i f hf => absurd hf nofun⟩
  refine ⟨?_, rfl⟩
  unfold gtInit
  refine Plain.note ?_ rfl
  refine Plain.note ?_ rfl
  refine Plain.set ?_ fun _ => rfl
  rw [gtSlotFresh_eq]
  exact hzero.taken

omit [IoBackend Io] in
/-- Nothing was detached, and nothing refused. -/
theorem PlainRun.calm (h : PlainRun s) : NeverBoth s.rt.log ∧ AllAccepted s.rt.log := by
  constructor
  · apply NeverBoth.of_not_detached
    intro t ht
    exact absurd (h.rt.log _ ht) Bool.false_ne_true
  · intro t ht
    exact absurd (h.rt.log _ ht) Bool.false_ne_true

end Sppc
