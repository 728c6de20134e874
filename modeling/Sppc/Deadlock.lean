import Mathlib.Dynamics.PeriodicPts.Defs
import Mathlib.Data.Fintype.Pigeonhole
import Mathlib.Data.Set.Finite.Basic
import Sppc.Queues

/-!
# The panics of the scheduler

The scheduler gives up when it has nothing left to run: where a task blocks, and where a task has finished.  It comes
to that only when every task that has not finished awaits another one, and so some of them each other.
-/

namespace Sppc

open LinkedList Function

/-- From a point of a finite set that a function keeps, following the function leads to a cycle. -/
theorem exists_iterate_mem_periodicPts {α : Type} {f : α → α} {s : Set α} (hs : s.Finite) (hf : Set.MapsTo f s s)
    {x : α} (hx : x ∈ s) : ∃ n, f^[n] x ∈ periodicPts f := by
  have := hs.to_subtype
  obtain ⟨m, n, hne, heq⟩ := Finite.exists_ne_map_eq_of_infinite fun n : ℕ => (⟨f^[n] x, hf.iterate n hx⟩ : s)
  have heq : f^[m] x = f^[n] x := congrArg Subtype.val heq
  have hcycle {m n : ℕ} (hlt : m < n) (heq : f^[m] x = f^[n] x) : f^[m] x ∈ periodicPts f := by
    refine mk_mem_periodicPts (n := n - m) (by omega) ?_
    show f^[n - m] (f^[m] x) = f^[m] x
    rw [← iterate_add_apply, Nat.sub_add_cancel hlt.le, heq]
  rcases Nat.lt_or_gt_of_ne hne with hlt | hlt
  · exact ⟨m, hcycle hlt heq⟩
  · exact ⟨n, hcycle hlt heq.symm⟩

variable {Io : Type} {R : GtRuntime Io} {v : Roster} {s : Machine Io}

/-- The task `i` is on the waiters of the task `t`, which has not finished. -/
structure AwaitsOn (R : GtRuntime Io) (i t : Nat) : Prop where
  lt : t < R.nslots
  unfinished : Unfinished (R.slots t)
  mem : ∃ l, Linked (fun i => (R.slots i).wnext) (R.slots t).waiters l ∧ i ∈ l

/-- Every task that has not finished, of which there is one, awaits the one that `target` says, and following the
targets leads to a cycle.  Nothing else is left: no task is ready, waits for i/o or is queued for a lock. -/
structure AwaitCycle (R : GtRuntime Io) (target : Nat → Nat) : Prop where
  some : ∃ i < R.nslots, Unfinished (R.slots i)
  awaits : ∀ i < R.nslots, Unfinished (R.slots i) → (R.slots i).state = .joining ∧ AwaitsOn R i (target i)
  cycle : ∀ i < R.nslots, Unfinished (R.slots i) → ∃ n, target^[n] i ∈ periodicPts target
  ready : R.rqHead = none
  waiting : R.inflight = 0
  queued : R.lockWaiters = none

/-- Whom the task in this role awaits. -/
def Roster.target (v : Roster) (i : Nat) : Nat :=
  match v.role i with
  | .joining t => t
  | _ => i

variable [IoBackend Io] [LawfulIoBackend Io]

private theorem Live.awaitCycle {p : Panic} (h : Live s v) (hc : s.ctl = .panic p) : AwaitCycle s.rt v.target := by
  have hctl := h.ctl
  rw [hc] at hctl
  obtain ⟨-, hlock, hready, hwait, f, hf, -⟩ := hctl
  obtain ⟨hm, hs, -⟩ := h
  have hst := hs.statesOk hm.lists
  -- the current task has parked or finished, nobody else can run and no i/o is pending: what is left is to await
  have hjoining (i : Nat) (hi : i < s.rt.nslots) (hu : Unfinished (s.rt.slots i)) : ∃ t, v.role i = .joining t := by
    cases hstate : (s.rt.slots i).state with
    | free => exact absurd hstate hu.1
    | done => exact absurd hstate hu.2
    | joining => exact (hst.joining i).2 ⟨hi, hstate⟩
    | ready =>
      have := (hm.ok.ready_iff i).2 ((hst.ready i).2 ⟨hi, hstate⟩)
      rw [hready] at this
      cases this
    | waiting =>
      obtain ⟨op, hop⟩ := (hst.waiting i).2 ⟨hi, hstate⟩
      have := (hm.ok.waiting_iff i op).2 hop
      rw [hwait] at this
      cases this
    | running =>
      have hrun := (hst.running i).2 ⟨hi, hstate⟩
      rw [hm.lists.running i (.inl hrun)] at hrun
      rw [hrun] at hf
      cases hf
  have htarget (i t : Nat) (hr : v.role i = .joining t) : AwaitsOn s.rt i t := by
    have hu := hm.ok.joinee i t hr
    have hrole := hs.role t (by simp)
    have hstate := hs.state hm.lists t
    have hunused := hm.lists.unused_iff t
    refine ⟨?_, ?_, v.joiners t, hm.lists.joiners t, (hm.ok.joiners_iff i t).2 hr⟩
    all_goals
      revert hu hrole hstate hunused
      cases v.role t <;> grind [Role.unfinished, Role.steady, Role.state, Unfinished]
  have hawaits (i : Nat) (hi : i < s.rt.nslots) (hu : Unfinished (s.rt.slots i)) :
      (s.rt.slots i).state = .joining ∧ AwaitsOn s.rt i (v.target i) := by
    obtain ⟨t, ht⟩ := hjoining i hi hu
    refine ⟨((hst.joining i).1 ⟨t, ht⟩).2, ?_⟩
    rw [Roster.target, ht]
    exact htarget i t ht
  refine ⟨⟨0, ?_, ?_⟩, hawaits, fun i hi hu => ?_, ?_, ?_, ?_⟩
  · have hmain := hs.main
    have hunused := hm.lists.unused_iff 0
    revert hmain hunused
    cases v.role 0 <;> grind [Role.holds]
  · have hmain := hs.main
    have hrole := hs.role 0 (by simp)
    have hstate := hs.state hm.lists 0
    revert hmain hrole hstate
    cases v.role 0 <;> grind [Role.holds, Role.steady, Role.state, Unfinished]
  · have hfin : {i | i < s.rt.nslots ∧ Unfinished (s.rt.slots i)}.Finite :=
      (Set.finite_lt_nat s.rt.nslots).subset fun i hi => hi.1
    refine exists_iterate_mem_periodicPts hfin (fun j hj => ?_) (show i ∈ {i | _ ∧ _} from ⟨hi, hu⟩)
    have := (hawaits j hj.1 hj.2).2
    exact ⟨this.lt, this.unfinished⟩
  · have hlist := hm.lists.ready
    rw [hready] at hlist
    exact hlist
  · rw [hm.counts.inflight, hwait]
    rfl
  · have hqueue : v.queue = [] := by
      refine List.eq_nil_iff_forall_not_mem.2 fun i hi => ?_
      rcases (hm.ok.queue_iff i).1 hi with ⟨c, hq | hq⟩ | hq
      · have := (hm.ok.ready_iff i).2 ⟨_, hq⟩
        rw [hready] at this
        cases this
      · have := hs.role i (by simp)
        rw [hq] at this
        cases this
      · rw [hlock] at hq
        cases hq
    have hlist := hm.locks.queue
    rw [hqueue] at hlist
    exact hlist

/-- In every run, the scheduler panics only where its unfinished tasks await each other. -/
theorem panic_cycle {p : Panic} (h : Reachable s) (hboth : NeverBoth s.rt.log) (hacc : AllAccepted s.rt.log)
    (hc : s.ctl = .panic p) : ∃ target, AwaitCycle s.rt target := by
  rcases h.inv hboth hacc with ⟨v, hv⟩ | ⟨hexit, -⟩
  · exact ⟨v.target, hv.awaitCycle hc⟩
  · rw [hc] at hexit
    cases hexit

/-- The tasks 0 and 1 await each other, and task 2 finishes. -/
theorem panic_cycle_two : ∃ s : Machine BlockingIo,
    Transition.run step (gtInit .unused 4096 false)
      [.async ⟨1, none⟩ spawnServed, .async ⟨2, none⟩ spawnServed, .await 1048577, .turn, .await 1048576, .turn,
        .finish, .turn] = some s ∧
    s.ctl = .panic .nothingLeft ∧ ∃ target, AwaitCycle s.rt target := by
  have hrun : (Transition.run step (gtInit BlockingIo.unused 4096 false)
      [.async ⟨1, none⟩ spawnServed, .async ⟨2, none⟩ spawnServed, .await 1048577, .turn, .await 1048576, .turn,
        .finish, .turn]).map (fun s => (s.ctl, s.rt.log)) =
      some (.panic .nothingLeft, [.returned 2, .started 2, .joined 1 0, .started 1, .joined 0 1, .spawned 2,
        .mprotected 8192 131072 .readWrite, .mapped 4096 135168 .none, .alloc 2, .spawned 1,
        .mprotected 8192 131072 .readWrite, .mapped 4096 135168 .none, .alloc 1, .started 0, .spawned 0,
        .alloc 0]) := by decide +kernel
  obtain ⟨s, hs, hlog⟩ := Option.map_eq_some_iff.1 hrun
  simp only [Prod.mk.injEq] at hlog
  exact ⟨s, hs, hlog.1, panic_cycle ⟨.unused, 4096, false, trivial, _, hs⟩ (.of_not_detached fun t => by simp [hlog])
    (fun t => by simp [hlog]) hlog.1⟩

end Sppc
