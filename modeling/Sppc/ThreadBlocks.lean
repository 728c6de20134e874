import Sppc.Deadlock
import Sppc.Resuming

/-!
# When the thread blocks

The thread blocks in the platform's lock or condition only where none of its tasks can go on, whatever the rest of the
thread does, and in a poll only where none is ready but some wait for i/o.
-/

namespace Sppc

open LinkedList Function

variable {Io : Type} [IoBackend Io] {R R' : GtRuntime Io} {f : Resume} {s s' : Machine Io} {v : Roster} {t : Nat}

/-- Where the thread blocks, nobody is ready; in a call of the platform's no i/o is pending either, and in a poll some
is. -/
def IdleAt (R : GtRuntime Io) : Ctl → Prop
  | .lockCall _ | .condCall _ => R.rqHead = none ∧ R.inflight = 0
  | .lockWait _ | .condPoll _ | .pickWait _ | .drainWait => R.rqHead = none ∧ R.inflight ≠ 0
  | _ => True

def Idle (m : Machine Io) : Prop := IdleAt m.rt m.ctl

omit [IoBackend Io] in
private theorem idle_lockUntilEnd (R : GtRuntime Io) (c : LockCall) (err : Int) : Idle (gtLockUntilEnd R c err) := by
  unfold gtLockUntilEnd
  dsimp only
  split
  · trivial
  · split <;> trivial

omit [IoBackend Io] in
private theorem idle_resume (R : GtRuntime Io) (f : Resume) : Idle (gtResume R f) := by
  cases f with
  | released k => cases k <;> trivial
  | _ => trivial

omit [IoBackend Io] in
private theorem idle_contextSwitch (R : GtRuntime Io) (self : Nat) (f : Resume) (next : Nat) :
    Idle (gtContextSwitch R self f next) := by
  unfold gtContextSwitch
  dsimp only
  split
  · trivial
  · trivial
  · exact idle_resume _ _

omit [IoBackend Io] in
private theorem idle_switchTo (R : GtRuntime Io) (f : Resume) (next : Nat) : Idle (gtSwitchTo R f next) := by
  unfold gtSwitchTo
  dsimp only
  split
  · exact idle_resume _ _
  · exact idle_contextSwitch _ _ _ _

omit [IoBackend Io] in
private theorem rqHead_of_pop (h : gtRqPop R = (none, R')) : R.rqHead = none := by
  unfold gtRqPop at h
  split at h
  · assumption
  · cases h

omit [IoBackend Io] in
/-- A step polls only if nobody is ready. -/
private theorem idle_step {poll : Ctl} (hpoll : R.rqHead = none → IdleAt R poll) : Idle (gtStep R f poll) := by
  unfold gtStep
  split
  · exact idle_switchTo _ _ _
  · rename_i R' hpop
    rw [gtRqPop_none hpop]
    exact hpoll (rqHead_of_pop hpop)

omit [IoBackend Io] in
private theorem idle_lockReleased (R : GtRuntime Io) (lock : Nat) (f : Resume) : Idle (gtLockReleased R lock f) := by
  unfold gtLockReleased
  split
  · exact idle_resume _ _
  · exact idle_switchTo _ _ _

omit [IoBackend Io] in
private theorem not_hasOtherWork : gtHasOtherWork R = false ↔ R.rqHead = none ∧ R.inflight = 0 := by
  unfold gtHasOtherWork
  rw [decide_eq_false_iff_not, not_or, not_not, not_not]

omit [IoBackend Io] in
/-- Whoever has other work but nobody ready has i/o pending. -/
private theorem inflight_ne_zero (h : gtHasOtherWork R ≠ false) (hhead : R.rqHead = none) : R.inflight ≠ 0 :=
  fun hzero => h (not_hasOtherWork.2 ⟨hhead, hzero⟩)

omit [IoBackend Io] in
private theorem lockWaitAdd_keeps (R : GtRuntime Io) (w : Nat) :
    (gtLockWaitAdd R w).rqHead = R.rqHead ∧ (gtLockWaitAdd R w).inflight = R.inflight := by
  unfold gtLockWaitAdd
  split <;> exact ⟨rfl, rfl⟩

private theorem idle_lockTurn (R : GtRuntime Io) (c : LockCall) (err : Int) (now : Timespec) :
    Idle (gtLockTurn R c err now) := by
  unfold gtLockTurn
  split
  · exact idle_lockUntilEnd R c err
  dsimp only
  split
  · rename_i hwork
    exact not_hasOtherWork.1 hwork
  rename_i hwork
  split
  · exact idle_lockUntilEnd _ c etimedout
  · refine idle_step fun hhead => ?_
    by_cases hc : c.queued
    · rw [if_pos hc] at hhead ⊢
      exact ⟨hhead, inflight_ne_zero hwork hhead⟩
    · rw [if_neg hc] at hhead ⊢
      -- the entry made says nothing of who is ready
      have hsame := lockWaitAdd_keeps { gtIoPollNow R with
        lockWaiter := Function.update (gtIoPollNow R).lockWaiter (gtIoPollNow R).current
          { (gtIoPollNow R).lockWaiter (gtIoPollNow R).current with task := some (gtIoPollNow R).current } }
        (gtIoPollNow R).current
      have hhead' : (gtIoPollNow R).rqHead = none := hsame.1.symm.trans hhead
      exact ⟨hhead, fun hzero => inflight_ne_zero hwork hhead' (hsame.2.symm.trans hzero)⟩

/-- Every step comes to a place where the thread blocks only where it is idle. -/
private theorem step_idle {e : Event Io} (h : Idle s) (hstep : step s e = some s') : Idle s' := by
  cases e with
  | async body o =>
    simp only [step] at hstep
    split at hstep
    · split at hstep <;> cases hstep <;> trivial
    · cases hstep
  | yield =>
    simp only [step] at hstep
    split at hstep <;> cases hstep
    unfold gtYield
    dsimp only
    split
    · trivial
    · exact idle_switchTo _ _ _
  | await handle =>
    simp only [step] at hstep
    split at hstep <;> cases hstep
    unfold gtAwait
    repeat' split
    all_goals trivial
  | detach handle =>
    simp only [step] at hstep
    split at hstep <;> cases hstep
    unfold gtDetach
    repeat' split
    all_goals trivial
  | io req =>
    simp only [step] at hstep
    split at hstep <;> cases hstep
    unfold gtIoCall
    repeat' split
    all_goals trivial
  | finish =>
    simp only [step] at hstep
    split at hstep <;> cases hstep
    trivial
  | turn =>
    simp only [step] at hstep
    split at hstep <;> cases hstep
    · unfold gtPick
      dsimp only
      split
      · split
        · exact idle_contextSwitch _ _ _ _
        · exact idle_switchTo _ _ _
      · rename_i hpop
        rw [gtRqPop_none hpop]
        split
        · rename_i hinflight
          exact ⟨rqHead_of_pop hpop, hinflight⟩
        · trivial
    · unfold gtDrain
      split
      · rename_i hhead
        split
        · trivial
        · rename_i hinflight
          exact ⟨hhead, hinflight⟩
      · split
        · trivial
        · exact idle_switchTo _ _ _
  | poll =>
    simp only [step] at hstep
    split at hstep <;> cases hstep <;> trivial
  | lock lock clock deadline =>
    simp only [step] at hstep
    split at hstep <;> cases hstep
    trivial
  | tried err now =>
    simp only [step] at hstep
    split at hstep <;> cases hstep
    exact idle_lockTurn _ _ _ _
  | answered err =>
    simp only [step] at hstep
    split at hstep <;> cases hstep
    · exact idle_lockUntilEnd _ _ _
    · trivial
  | unlock lock err =>
    simp only [step] at hstep
    split at hstep <;> cases hstep
    unfold gtUnlock
    split
    · exact idle_lockReleased _ _ _
    · trivial
  | condWait k err =>
    simp only [step] at hstep
    split at hstep <;> cases hstep
    unfold gtCondWaitUntil
    dsimp only
    split
    · rename_i hwork
      exact not_hasOtherWork.1 hwork
    · split
      · exact idle_lockReleased _ _ _
      · trivial
  | condGo now =>
    simp only [step] at hstep
    split at hstep <;> cases hstep
    · unfold gtCondReleased
      dsimp only
      split
      · rename_i hwork
        refine idle_step fun hhead => ⟨hhead, inflight_ne_zero ?_ hhead⟩
        rw [hwork]
        decide
      · trivial
    · trivial
  | drain =>
    simp only [step] at hstep
    split at hstep <;> cases hstep
    trivial
  | setStackSize bytes =>
    simp only [step] at hstep
    split at hstep <;> cases hstep
    trivial
  | setGuardPages enabled =>
    simp only [step] at hstep
    split at hstep <;> cases hstep
    trivial
  | exit =>
    simp only [step] at hstep
    split at hstep <;> cases hstep
    trivial
  | kernel k =>
    -- the kernel changes neither the run queue nor the count
    simp only [step] at hstep
    split at hstep
    · cases hstep
    split at hstep <;> cases hstep
    exact h

private theorem Reachable.idle (h : Reachable s) : Idle s := by
  obtain ⟨io, page, wanted, -, hreach⟩ := h
  exact hreach.invariant (P := Idle) (fun _ _ _ ht hstep => step_idle ht hstep) trivial

/-! ### Who is left -/

/-- Nobody is ready and no i/o is pending: every other task that has not finished awaits another, and following whom
each awaits leads to the running task, or to tasks that await each other. -/
structure OnlyCaller (R : GtRuntime Io) (target : Nat → Nat) : Prop where
  ready : R.rqHead = none
  waiting : R.inflight = 0
  awaits : ∀ i < R.nslots, i ≠ R.current → Unfinished (R.slots i) →
    (R.slots i).state = .joining ∧ AwaitsOn R i (target i)
  leads : ∀ i < R.nslots, i ≠ R.current → Unfinished (R.slots i) → (∃ n, target^[n] i = R.current) ∨
    ∃ n, target^[n] i ∈ periodicPts target ∧ AwaitsOn R (target^[n] i) (target (target^[n] i))

/-- What holds where the thread blocks. -/
structure ThreadBlocked (s : Machine Io) : Prop where
  called : (∃ c, s.ctl = .lockCall c) ∨ (∃ k, s.ctl = .condCall k) → ∃ target, OnlyCaller s.rt target
  polls : (∃ f, s.ctl = .pickWait f) ∨ (∃ c, s.ctl = .lockWait c) ∨ (∃ k, s.ctl = .condPoll k) ∨ s.ctl = .drainWait →
    (∀ i < s.rt.nslots, (s.rt.slots i).state ≠ .ready) ∧ ∃ i < s.rt.nslots, (s.rt.slots i).state = .waiting

variable [LawfulIoBackend Io]

private theorem Live.ready_nil (h : Live s v) (hhead : s.rt.rqHead = none) : v.ready = [] := by
  have hlist := h.models.lists.ready
  rw [hhead] at hlist
  exact hlist.eq_nil

/-- A task that is not running, where nobody is ready and no i/o is pending, awaits another. -/
private theorem Live.joining_of_idle (h : Live s v) (hhead : s.rt.rqHead = none) (hinflight : s.rt.inflight = 0)
    {i : Nat} (hi : i < s.rt.nslots) (hu : Unfinished (s.rt.slots i)) (hrun : v.role i ≠ .running) :
    ∃ t, v.role i = .joining t := by
  have hready := h.ready_nil hhead
  obtain ⟨hm, hs, -⟩ := h
  have hst := hs.statesOk hm.lists
  have hwait : v.waiting = [] := List.eq_nil_of_length_eq_zero (hm.counts.inflight ▸ hinflight)
  cases hstate : (s.rt.slots i).state with
  | free => exact absurd hstate hu.1
  | done => exact absurd hstate hu.2
  | joining => exact (hst.joining i).2 ⟨hi, hstate⟩
  | ready =>
    have hmem := (hm.ok.ready_iff i).2 ((hst.ready i).2 ⟨hi, hstate⟩)
    rw [hready] at hmem
    cases hmem
  | waiting =>
    obtain ⟨op, hop⟩ := (hst.waiting i).2 ⟨hi, hstate⟩
    have hmem := (hm.ok.waiting_iff i op).2 hop
    rw [hwait] at hmem
    cases hmem
  | running => exact absurd ((hst.running i).2 ⟨hi, hstate⟩) hrun

private theorem Live.awaitsOn (h : Live s v) {i t : Nat} (hr : v.role i = .joining t) : AwaitsOn s.rt i t := by
  obtain ⟨hm, hs, -⟩ := h
  have hu := hm.ok.joinee i t hr
  have hrole := hs.role t (by simp)
  have hstate := hs.state hm.lists t
  have hunused := hm.lists.unused_iff t
  refine ⟨?_, ?_, v.joiners t, hm.lists.joiners t, (hm.ok.joiners_iff i t).2 hr⟩
  all_goals
    revert hu hrole hstate hunused
    cases v.role t <;> grind [Role.unfinished, Role.steady, Role.state, Unfinished]

private theorem Live.onlyCaller (h : Live s v) (hr : v.role s.rt.current = .running) (hhead : s.rt.rqHead = none)
    (hinflight : s.rt.inflight = 0) : OnlyCaller s.rt v.target := by
  have hawaits (i : Nat) (hi : i < s.rt.nslots) (hne : i ≠ s.rt.current) (hu : Unfinished (s.rt.slots i)) :
      (s.rt.slots i).state = .joining ∧ AwaitsOn s.rt i (v.target i) := by
    have hrun : v.role i ≠ .running := fun hrun => hne (h.models.lists.running i (.inl hrun))
    obtain ⟨t, ht⟩ := h.joining_of_idle hhead hinflight hi hu hrun
    refine ⟨(((h.steady.statesOk h.models.lists).joining i).1 ⟨t, ht⟩).2, ?_⟩
    rw [Roster.target, ht]
    exact h.awaitsOn ht
  refine ⟨hhead, hinflight, hawaits, fun i hi hne hu => ?_⟩
  -- the tasks that have not finished are finitely many, and whom they await are some of them
  have hself : v.target s.rt.current = s.rt.current := by
    rw [Roster.target, hr]
  have hfin : {i | i < s.rt.nslots ∧ Unfinished (s.rt.slots i)}.Finite :=
    (Set.finite_lt_nat s.rt.nslots).subset fun i hi => hi.1
  have hmaps : Set.MapsTo v.target {i | i < s.rt.nslots ∧ Unfinished (s.rt.slots i)}
      {i | i < s.rt.nslots ∧ Unfinished (s.rt.slots i)} := by
    rintro j ⟨hj, hju⟩
    by_cases hjc : j = s.rt.current
    · rw [hjc, hself, ← hjc]
      exact ⟨hj, hju⟩
    · have hon := (hawaits j hj hjc hju).2
      exact ⟨hon.lt, hon.unfinished⟩
  have hmem : i ∈ {i | i < s.rt.nslots ∧ Unfinished (s.rt.slots i)} := ⟨hi, hu⟩
  obtain ⟨n, hn⟩ := exists_iterate_mem_periodicPts hfin hmaps hmem
  obtain ⟨hlt, hunf⟩ := hmaps.iterate n hmem
  by_cases hc : v.target^[n] i = s.rt.current
  · exact Or.inl ⟨n, hc⟩
  · exact Or.inr ⟨n, hn, (hawaits _ hlt hc hunf).2⟩

private theorem Live.polls (h : Live s v) (hhead : s.rt.rqHead = none) (hinflight : s.rt.inflight ≠ 0) :
    (∀ i < s.rt.nslots, (s.rt.slots i).state ≠ .ready) ∧ ∃ i < s.rt.nslots, (s.rt.slots i).state = .waiting := by
  have hst := h.steady.statesOk h.models.lists
  constructor
  · intro i hi hstate
    have hmem := (h.models.ok.ready_iff i).2 ((hst.ready i).2 ⟨hi, hstate⟩)
    rw [h.ready_nil hhead] at hmem
    cases hmem
  · have hpos : v.waiting ≠ [] := by
      intro hnil
      apply hinflight
      rw [h.models.counts.inflight, hnil]
      rfl
    obtain ⟨⟨i, op⟩, hmem⟩ := List.exists_mem_of_ne_nil _ hpos
    exact ⟨i, (hst.waiting i).1 ⟨op, (h.models.ok.waiting_iff i op).1 hmem⟩⟩

/-- The thread blocks in a lock or in a condition only if each of its other tasks waits for the one that calls, or for
each other; and in a poll only if none of its tasks is ready and one waits for i/o. -/
theorem thread_blocked (h : Reachable s) (hboth : NeverBoth s.rt.log) (hacc : AllAccepted s.rt.log) :
    ThreadBlocked s := by
  have hidle := h.idle
  unfold Idle at hidle
  rcases h.inv hboth hacc with ⟨v, hv⟩ | ⟨hexit, -⟩
  · have hctl := hv.ctl
    constructor
    · rintro (⟨c, hc⟩ | ⟨k, hc⟩)
      · rw [hc] at hidle hctl
        exact ⟨v.target, hv.onlyCaller hctl.1.role hidle.1 hidle.2⟩
      · rw [hc] at hidle hctl
        exact ⟨v.target, hv.onlyCaller hctl.1.role hidle.1 hidle.2⟩
    · rintro (⟨f, hc⟩ | ⟨c, hc⟩ | ⟨k, hc⟩ | hc)
      all_goals
        rw [hc] at hidle
        exact hv.polls hidle.1 hidle.2
  · constructor
    · rintro (⟨c, hc⟩ | ⟨k, hc⟩)
      all_goals
        rw [hexit] at hc
        cases hc
    · rintro (⟨f, hc⟩ | ⟨c, hc⟩ | ⟨k, hc⟩ | hc)
      all_goals
        rw [hexit] at hc
        cases hc

/-- Task 0 awaits task 1, which finds the lock taken: nobody else can go on, and the thread blocks in the lock. -/
theorem thread_blocked_lock : ∃ s : Machine BlockingIo,
    Transition.run step (gtInit .unused 4096 false)
      [.async ⟨1, none⟩ spawnServed, .await 1048577, .turn, .lock 64 1 none, .tried ebusy ⟨0, 0⟩] = some s ∧
    (∃ c, s.ctl = .lockCall c) ∧ ThreadBlocked s := by
  have hrun : (Transition.run step (gtInit BlockingIo.unused 4096 false)
      [.async ⟨1, none⟩ spawnServed, .await 1048577, .turn, .lock 64 1 none, .tried ebusy ⟨0, 0⟩]).map
        (fun s => (s.ctl, s.rt.log)) =
      some (.lockCall ⟨64, 1, none, false, .call⟩,
        [.started 1, .joined 0 1, .spawned 1, .mprotected 8192 131072 .readWrite, .mapped 4096 135168 .none, .alloc 1,
        .started 0, .spawned 0, .alloc 0]) := by decide +kernel
  obtain ⟨s, hs, hlog⟩ := Option.map_eq_some_iff.1 hrun
  simp only [Prod.mk.injEq] at hlog
  exact ⟨s, hs, ⟨_, hlog.1⟩, thread_blocked ⟨.unused, 4096, false, trivial, _, hs⟩
    (.of_not_detached fun t => by simp [hlog]) fun t => by simp [hlog]⟩

end Sppc
