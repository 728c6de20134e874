import Sppc.Queues

/-!
# Waiting for thread locks

The queue `lock_waiters` in a run: which tasks are on it and in what order, and whom a release lets run.
-/

namespace Sppc

open LinkedList

variable {Io : Type} [IoBackend Io] [LawfulIoBackend Io] {R : GtRuntime Io} {v : Roster} {s : Machine Io}
  {q r : List Nat}

/-! ### Who waits -/

/-- The `_gt_lock_until` that the task `i` is in: the running task is where `ctl` says, another one where its saved
stack pointer leads. -/
def insideLockUntil (s : Machine Io) (i : Nat) : Option LockCall :=
  if i = s.rt.current then
    match s.ctl with
    | .lockTry c | .lockWait c | .lockCall c => some c
    | _ => none
  else if s.rt.nslots ≤ i ∨ (s.rt.slots i).state = .free then none
  else
    match (s.rt.slots i).sp with
    | some (.stepped c) => some c
    | _ => none

omit [IoBackend Io] [LawfulIoBackend Io] in
private theorem inside_other {i : Nat} (hm : ListsOk s.rt v) (hs : Steady s.rt v none) (hi : i ≠ s.rt.current)
    (c : LockCall) : insideLockUntil s i = some c ↔ v.role i = .ready (.stepped c) := by
  have hframe := hm.frame i
  have hrole := hs.role i (by simp)
  have hstate := hs.state hm i
  have hunused := hm.unused_iff i
  have hrunning := hm.running i
  unfold insideLockUntil
  rw [if_neg hi]
  cases hr : v.role i with
  | unused =>
    rw [if_pos (.inl (hunused.1 hr))]
    simp
  | free =>
    rw [hr] at hstate
    rw [if_pos (.inr (by simpa [Role.state, eq_comm] using hstate))]
    simp
  | running => exact absurd (hrunning (.inl hr)) hi
  | ready f | joining t | waiting op | zombie | done =>
    rw [hr] at hstate hframe hunused
    rw [if_neg (by simp only [Role.state, Option.some.injEq] at hstate; simp [← hstate, ← hunused]),
      hframe _ hi rfl]
    first
    | cases f <;> simp
    | simp
  | fresh | popped f | ending | spent => simp [hr, Role.steady] at hrole

/-- The queue holds the tasks inside a `_gt_lock_until` that has queued, in the order of arrival. -/
structure LockWaitersOk (s : Machine Io) (q : List Nat) : Prop where
  list : Linked (fun i => (s.rt.lockWaiter i).next) s.rt.lockWaiters q
  nodup : q.Nodup
  order : q.Pairwise fun a b => arrival a s.rt.log < arrival b s.rt.log
  mem_iff : ∀ i, i ∈ q ↔ ∃ c, insideLockUntil s i = some c ∧ c.queued = true
  entry : ∀ i ∈ q, (s.rt.lockWaiter i).task = some i ∧
    ∀ c, insideLockUntil s i = some c → (s.rt.lockWaiter i).lock = c.lock
  ready : ∀ i ∈ q, i = s.rt.current ∨ (s.rt.slots i).state = .ready

/-- The running task is on the queue exactly while it is inside a call that has queued. -/
private theorem inside_current (h : Live s v) (c : LockCall) (hc : insideLockUntil s s.rt.current = some c) :
    v.role s.rt.current = .running ∧ v.locker = (if c.queued then some s.rt.current else none) ∧
      (s.rt.lockWaiter s.rt.current).lock = c.lock := by
  have hctl := h.ctl
  unfold insideLockUntil at hc
  rw [if_pos rfl] at hc
  cases hs : s.ctl
  all_goals
    rw [hs] at hctl hc
    simp only [Option.some.injEq, reduceCtorEq] at hc
  all_goals
    subst hc
    exact ⟨hctl.1.role, hctl.2.1, hctl.2.2⟩

private theorem outside_current (h : Live s v) (hc : insideLockUntil s s.rt.current = none) :
    v.locker = none ∧ ∀ c, v.role s.rt.current ≠ .ready (.stepped c) := by
  have hctl := h.ctl
  have hrun (hr : Runs s.rt v) (c : LockCall) : v.role s.rt.current ≠ .ready (.stepped c) := by
    rw [hr.role]
    simp
  have hparked {f : Resume} (hf : (v.role s.rt.current).frame = some f) (hg : ¬Roster.GivesWay f) (c : LockCall) :
      v.role s.rt.current ≠ .ready (.stepped c) := by
    intro hr
    rw [hr] at hf
    cases hf
    exact hg trivial
  unfold insideLockUntil at hc
  rw [if_pos rfl] at hc
  cases hs : s.ctl
  all_goals
    rw [hs] at hctl hc
    simp only [reduceCtorEq] at hc
  case pick f => exact ⟨hctl.2.1, hparked hctl.1 hctl.2.2.1⟩
  case pickWait f => exact ⟨hctl.2.1, hparked hctl.1 hctl.2.2.1⟩
  case panic p =>
    obtain ⟨-, hl, -, -, f, hf, hg⟩ := hctl
    exact ⟨hl, hparked hf hg⟩
  case lost => exact absurd hctl id
  case exited => exact absurd hctl id
  all_goals exact ⟨hctl.2, hrun hctl.1⟩

private theorem Live.lockWaitersOk (h : Live s v) : LockWaitersOk s v.queue := by
  have hcur := inside_current h
  have hout := outside_current h
  obtain ⟨hm, hs, -⟩ := h
  have hnopop : ∀ i c, v.role i ≠ .popped c := fun i c hi => by
    have := hs.role i (by simp)
    rw [hi] at this
    cases this
  -- off the current task, being queued is a matter of the saved stack pointer
  have hother : ∀ i, i ≠ s.rt.current → (i ∈ v.queue ↔ ∃ c, v.role i = .ready (.stepped c)) := fun i hi => by
    have hl : v.locker ≠ some i := fun hl => hi (hm.lists.running i (.inl (hm.ok.locker i hl)))
    rw [hm.ok.queue_iff]
    simp [hl, hnopop]
  have hmem : ∀ i, i ∈ v.queue ↔ ∃ c, insideLockUntil s i = some c ∧ c.queued = true := fun i => by
    by_cases hi : i = s.rt.current
    · subst hi
      rw [hm.ok.queue_iff]
      cases hins : insideLockUntil s s.rt.current with
      | none =>
        obtain ⟨hl, hr⟩ := hout hins
        simp [hl, hr, hnopop]
      | some c =>
        obtain ⟨hr, hl, -⟩ := hcur c hins
        simp [hl, hr]
    · rw [hother i hi]
      constructor
      · rintro ⟨c, hc⟩
        exact ⟨c, (inside_other hm.lists hs hi c).2 hc, (hm.locks.entry_lock i c (.inl hc)).2⟩
      · rintro ⟨c, hc, -⟩
        exact ⟨c, (inside_other hm.lists hs hi c).1 hc⟩
  refine ⟨hm.locks.queue, hm.locks.queue.nodup, hm.locks.order, hmem,
    fun i hi => ⟨hm.locks.entry i hi, fun c hc => ?_⟩, fun i hi => ?_⟩
  · by_cases hic : i = s.rt.current
    · subst hic
      exact (hcur c hc).2.2
    · exact (hm.locks.entry_lock i c (.inl ((inside_other hm.lists hs hic c).1 hc))).1
  · by_cases hic : i = s.rt.current
    · exact .inl hic
    · obtain ⟨c, hc⟩ := (hother i hic).1 hi
      exact .inr (((hs.statesOk hm.lists).ready i).1 ⟨_, hc⟩).2

/-! ### Whom a release lets run -/

/-- The task `t`, queued and ready, runs next: it is taken out of the run queue `r`, the releasing task goes to its
tail, and the waiters stay as they are. -/
structure HandsOver (R : GtRuntime Io) (r q : List Nat) (t : Nat) (R' : GtRuntime Io) : Prop where
  mem : t ∈ r
  current : R'.current = t
  rqHead : Linked (fun i => (R'.slots i).next) R'.rqHead (r.erase t ++ [R.current])
  rqTail : R'.rqTail = some R.current
  lockWaiters : Linked (fun i => (R'.lockWaiter i).next) R'.lockWaiters q

/-- The earliest waiter for `lock`. -/
def earliest (R : GtRuntime Io) (lock : Nat) (q : List Nat) : Option Nat :=
  q.find? fun i => (R.lockWaiter i).lock = lock

/-- What the successful releases in a task's code do, with the run queue `r` and the waiters `q`: an unlock, and the
release of a condition wait, which has polled and may so have added tasks to the run queue. -/
structure ReleasesOk (s : Machine Io) (r q : List Nat) : Prop where
  unlock : ∀ lock t, earliest s.rt lock q = some t →
    ∃ s', step s (.unlock lock 0) = some s' ∧ HandsOver s.rt r q t s'.rt
  unlock_none : ∀ lock, earliest s.rt lock q = none → step s (.unlock lock 0) = some (toCode s.rt 0)
  condWait : ∀ k t, earliest s.rt k.mutex q = some t →
    ∃ s' l, step s (.condWait k 0) = some s' ∧ HandsOver s.rt (r ++ l) q t s'.rt

private theorem handsOver {f : Resume} {lock t : Nat} (h : Models R v) (hs : Steady R v none) (hr : Runs R v)
    (hl : v.locker = none) (hf : Roster.GivesWay f) (hns : ∀ c, f ≠ .stepped c)
    (ht : earliest R lock v.queue = some t) : HandsOver R v.ready v.queue t (gtLockReleased R lock f).rt := by
  have ht' : nextWaiter R v lock = some t := ht
  rcases h.lockReleased lock hs hr hl hf hns with ⟨hnone, -⟩ | ⟨t', ht'', hmem, v', hv', hcur, hready, hqueue⟩
  · rw [ht'] at hnone
    cases hnone
  · rw [ht'] at ht''
    cases ht''
    have hlist := hv'.models.lists.ready
    have htail := hv'.models.lists.tail
    rw [hready] at hlist htail
    refine ⟨hmem, hcur, hlist, by simpa using htail, ?_⟩
    rw [← hqueue]
    exact hv'.models.locks.queue

private theorem Live.releasesOk (h : Live s v) (hc : s.ctl = .code) : ReleasesOk s v.ready v.queue := by
  obtain ⟨hr, hl⟩ := h.at_code hc
  obtain ⟨hm, hs, -⟩ := h
  refine ⟨fun lock t ht => ?_, fun lock hnone => ?_, fun k t ht => ?_⟩
  · refine ⟨gtUnlock s.rt lock 0, by simp [step, hc], ?_⟩
    rw [gtUnlock, if_pos rfl]
    exact handsOver hm hs hr hl trivial (by simp) ht
  · have hstep : step s (.unlock lock 0) = some (gtUnlock s.rt lock 0) := by simp [step, hc]
    rw [hstep, gtUnlock, if_pos rfl]
    rcases hm.lockReleased (f := .released none) lock hs hr hl trivial (by simp) with ⟨-, heq⟩ | ⟨t, ht, -⟩
    · rw [heq]
      rfl
    · rw [show earliest s.rt lock v.queue = some t from ht] at hnone
      cases hnone
  · obtain ⟨v₁, h₁, hs₁, hp⟩ := Live.pollNow hm hs
    have hR := gtIoPollNow_frame s.rt
    obtain ⟨l, hready⟩ := hp.ready
    have ht₁ : earliest (gtIoPollNow s.rt) k.mutex v₁.queue = some t := by
      rw [earliest, hp.queue, hR.lockWaiter]
      exact ht
    have hover := handsOver (f := .released (some k)) h₁ hs₁ (hr.poll hp hR)
      (hp.locker.trans hl) trivial (by simp) ht₁
    have hwork : gtHasOtherWork (gtIoPollNow s.rt) = true := by
      have hne : (gtIoPollNow s.rt).rqHead ≠ none := fun hnone => by
        have hlist := h₁.lists.ready
        rw [hnone] at hlist
        have := hover.mem
        rw [hlist.eq_nil] at this
        cases this
      simp [gtHasOtherWork, hne]
    refine ⟨gtCondWaitUntil s.rt k 0, l, by simp [step, hc], ?_⟩
    rw [gtCondWaitUntil]
    rw [if_neg (by simp [hwork]), if_pos rfl]
    obtain ⟨g1, g2, g3, g4, g5⟩ := hover
    rw [hready, hR.current] at *
    exact ⟨g1, g2, g3, g4, by rw [← hp.queue]; exact g5⟩

/-- The queue of lock waiters in every state of a run, and whom the releases let run. -/
theorem lock_waiters_ok (h : Reachable s) (hboth : NeverBoth s.rt.log) (hacc : AllAccepted s.rt.log)
    (hc : s.ctl ≠ .exited) : ∃ r q, LockWaitersOk s q ∧ Linked (fun i => (s.rt.slots i).next) s.rt.rqHead r ∧
      (∀ i ∈ q, i = s.rt.current ∨ i ∈ r) ∧ (s.ctl = .code → ReleasesOk s r q) := by
  rcases h.inv hboth hacc with ⟨v, hv⟩ | ⟨hexit, -⟩
  · have hq := hv.lockWaitersOk
    refine ⟨v.ready, v.queue, hq, hv.models.lists.ready, fun i hi => ?_, hv.releasesOk⟩
    by_cases hic : i = s.rt.current
    · exact .inl hic
    · obtain ⟨c, hins, -⟩ := (hq.mem_iff i).1 hi
      exact .inr ((hv.models.ok.ready_iff i).2 ⟨_, (inside_other hv.models.lists hv.steady hic c).1 hins⟩)
  · exact absurd hexit hc

/-- Task 0 holds the lock 100, for which the tasks 1 and 2 have queued. -/
theorem lock_waiters_ok_two : ∃ s : Machine BlockingIo,
    Transition.run step (gtInit .unused 4096 false)
      [.async ⟨1, none⟩ spawnServed, .async ⟨2, none⟩ spawnServed, .lock 100 1 none, .tried 0 ⟨0, 0⟩, .yield,
        .lock 100 1 none, .tried ebusy ⟨0, 0⟩, .lock 100 1 none, .tried ebusy ⟨0, 0⟩] = some s ∧
    ∃ r q, LockWaitersOk s q ∧ Linked (fun i => (s.rt.slots i).next) s.rt.rqHead r ∧
      (∀ i ∈ q, i = s.rt.current ∨ i ∈ r) ∧ (s.ctl = .code → ReleasesOk s r q) := by
  obtain ⟨s, hs, hc, hlog⟩ : ∃ s : Machine BlockingIo,
      Transition.run step (gtInit .unused 4096 false)
        [.async ⟨1, none⟩ spawnServed, .async ⟨2, none⟩ spawnServed, .lock 100 1 none, .tried 0 ⟨0, 0⟩, .yield,
          .lock 100 1 none, .tried ebusy ⟨0, 0⟩, .lock 100 1 none, .tried ebusy ⟨0, 0⟩] = some s ∧ s.ctl = .code ∧
      s.rt.log = [.queued 2, .started 2, .queued 1, .started 1, .spawned 2, .mprotected 8192 131072 .readWrite,
        .mapped 4096 135168 .none, .alloc 2, .spawned 1, .mprotected 8192 131072 .readWrite,
        .mapped 4096 135168 .none, .alloc 1, .started 0, .spawned 0, .alloc 0] := ⟨_, rfl, rfl, rfl⟩
  exact ⟨s, hs, lock_waiters_ok ⟨.unused, 4096, false, trivial, _, hs⟩ (.of_not_detached fun t => by simp [hlog])
    (fun t => by simp [hlog]) (by simp [hc])⟩

end Sppc
