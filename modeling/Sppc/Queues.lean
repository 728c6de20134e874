import Sppc.Run
import Sppc.Backends
import Sppc.Handles
import Mathlib.Data.List.Dedup

/-!
# The scheduler's lists and counters

What the invariant of a run says of the blocks and pointers themselves, at the points where a task's code runs: the
lists are acyclic, they hold the tasks their states say, and the counters count them.
-/

namespace Sppc

open LinkedList

variable {Io : Type} [IoBackend Io] [LawfulIoBackend Io] {R : GtRuntime Io} {v : Roster} {s : Machine Io}

/-! ### The state bytes -/

omit [IoBackend Io] [LawfulIoBackend Io] in
/-- Where nothing is half done, the state byte is the one of the role. -/
theorem Steady.state (h : Steady R v none) (hl : ListsOk R v) (i : Nat) :
    (v.role i).state = some (R.slots i).state := by
  have hrole := h.role i (by simp)
  have hstate := hl.state i
  revert hrole hstate
  cases v.role i <;> simp +contextual [Role.steady, Role.state]

/-- The roles behind the state bytes. -/
structure StatesOk (R : GtRuntime Io) (v : Roster) : Prop where
  ready : ∀ i, (∃ f, v.role i = .ready f) ↔ i < R.nslots ∧ (R.slots i).state = .ready
  free : ∀ i, v.role i = .free ↔ i < R.nslots ∧ (R.slots i).state = .free
  running : ∀ i, v.role i = .running ↔ i < R.nslots ∧ (R.slots i).state = .running
  joining : ∀ i, (∃ t, v.role i = .joining t) ↔ i < R.nslots ∧ (R.slots i).state = .joining
  waiting : ∀ i, (∃ op, v.role i = .waiting op) ↔ i < R.nslots ∧ (R.slots i).state = .waiting
  done : ∀ i, v.role i = .zombie ∨ v.role i = .done ↔ i < R.nslots ∧ (R.slots i).state = .done

omit [IoBackend Io] [LawfulIoBackend Io] in
theorem Steady.statesOk (h : Steady R v none) (hl : ListsOk R v) : StatesOk R v := by
  have hstate := h.state hl
  have hused (i : Nat) : i < R.nslots ↔ v.role i ≠ .unused := by
    rw [ne_eq, hl.unused_iff]
    omega
  have hsteady (i : Nat) := h.role i (by simp)
  constructor
  all_goals
    intro i
    have hi := hstate i
    have hs := hsteady i
    rw [hused]
    cases hr : v.role i
    all_goals
      rw [hr] at hi hs
      simp only [Role.state, Role.steady, Option.some.injEq, reduceCtorEq, Bool.false_eq_true] at hi hs
    all_goals simp [← hi]

/-- A list of different indices counts the indices with a property. -/
private theorem countP_range {n : Nat} {l : List Nat} {p : Nat → Bool} (hnd : l.Nodup)
    (h : ∀ i, i ∈ l ↔ i < n ∧ p i) : (List.range n).countP p = l.length := by
  rw [List.countP_eq_length_filter]
  refine List.Perm.length_eq ((List.perm_ext_iff_of_nodup (List.nodup_range.filter _) hnd).2 fun i => ?_)
  rw [List.mem_filter, List.mem_range, h]

/-! ### The lists and counters -/

/-- A task that has not finished. -/
def Unfinished (t : GtTask) : Prop := t.state ≠ .free ∧ t.state ≠ .done

/-- The run queue, the free slots, the waiters of every task and the counters, where a task's code runs. -/
structure QueuesOk (R : GtRuntime Io) (ready free : List Nat) (waiters : Nat → List Nat) : Prop where
  rqHead : Linked (fun i => (R.slots i).next) R.rqHead ready
  rqTail : R.rqTail = ready.getLast?
  ready_nodup : ready.Nodup
  ready_iff : ∀ i, i ∈ ready ↔ i < R.nslots ∧ (R.slots i).state = .ready
  freeSlots : Linked (fun i => (R.slots i).next) R.freeSlots free
  free_nodup : free.Nodup
  free_iff : ∀ i, i ∈ free ↔ i < R.nslots ∧ (R.slots i).state = .free
  disjoint : ∀ i ∈ ready, i ∉ free
  zombies : R.zombies = none
  current_lt : R.current < R.nslots
  running : ∀ i < R.nslots, (R.slots i).state = .running ↔ i = R.current
  waitersOf : ∀ t < R.nslots, Linked (fun i => (R.slots i).wnext) (R.slots t).waiters (waiters t)
  waiters_nodup : ∀ t < R.nslots, (waiters t).Nodup
  joining : ∀ w < R.nslots, (R.slots w).state = .joining → ∃! t, t < R.nslots ∧ w ∈ waiters t
  joined : ∀ t < R.nslots, ∀ w ∈ waiters t, w < R.nslots ∧ (R.slots w).state = .joining ∧ Unfinished (R.slots t)
  njoiners : ∀ t < R.nslots, Unfinished (R.slots t) → (R.slots t).njoiners = (waiters t).length
  inflight : R.inflight = (List.range R.nslots).countP fun i => (R.slots i).state = .waiting
  live : R.live = (List.range R.nslots).countP fun i => (R.slots i).state ≠ .free

theorem Live.queuesOk (h : Live s v) (hc : s.ctl = .code) : QueuesOk s.rt v.ready v.free v.joiners := by
  obtain ⟨hr, hl⟩ := h.at_code hc
  obtain ⟨hm, hs, -⟩ := h
  have hst := hs.statesOk hm.lists
  have hcur := (hst.running s.rt.current).1 hr.role
  have hfree_iff : ∀ i, i ∈ v.free ↔ i < s.rt.nslots ∧ (s.rt.slots i).state = .free := fun i => by
    rw [hm.ok.free_iff, hst.free]
  have hready_iff : ∀ i, i ∈ v.ready ↔ i < s.rt.nslots ∧ (s.rt.slots i).state = .ready := fun i => by
    rw [hm.ok.ready_iff, hst.ready]
  have hjoinee : ∀ t w, w ∈ v.joiners t → t < s.rt.nslots ∧ Unfinished (s.rt.slots t) := fun t w hw => by
    have hu := hm.ok.joinee w t ((hm.ok.joiners_iff w t).1 hw)
    have hrole := hs.role t (by simp)
    have hused := (hm.lists.unused_iff t)
    have hstate := hs.state hm.lists t
    revert hu hrole hused hstate
    cases v.role t <;> grind [Role.unfinished, Role.steady, Role.state, Unfinished]
  refine ⟨hm.lists.ready, hm.lists.tail, hm.lists.ready.nodup, hready_iff, hm.lists.free, hm.lists.free.nodup,
    hfree_iff, fun i hi hi' => ?_, hr.zombies, hcur.1, fun i hi => ⟨fun hri => ?_, fun hri => ?_⟩,
    fun t _ => hm.lists.joiners t, fun t _ => (hm.lists.joiners t).nodup, fun w hw hj => ?_, fun t _ w hw => ?_,
    fun t ht hu => ?_, ?_, ?_⟩
  · rw [hready_iff] at hi
    rw [hfree_iff, hi.2] at hi'
    cases hi'.2
  · exact hm.lists.running i (.inl ((hst.running i).2 ⟨hi, hri⟩))
  · rw [hri]
    exact hcur.2
  · obtain ⟨t, ht⟩ := (hst.joining w).2 ⟨hw, hj⟩
    have hmem : w ∈ v.joiners t := (hm.ok.joiners_iff w t).2 ht
    refine ⟨t, ⟨(hjoinee t w hmem).1, hmem⟩, fun u hu => ?_⟩
    have := (hm.ok.joiners_iff w u).1 hu.2
    rw [ht] at this
    cases this
    rfl
  · have hj := (hst.joining w).1 ⟨t, (hm.ok.joiners_iff w t).1 hw⟩
    exact ⟨hj.1, hj.2, (hjoinee t w hw).2⟩
  · have hocc : (v.role t).occupied := by
      have hused := hm.lists.unused_iff t
      have hfree := hst.free t
      cases hrole : v.role t <;> simp_all [Role.occupied, Unfinished]
      omega
    have hwoken : v.woken t = [] := by
      refine List.eq_nil_iff_forall_not_mem.2 fun w hw => ?_
      rcases hm.ok.woken_done w t hw with hd | hd | hd
      · have := hs.role t (by simp)
        rw [hd] at this
        cases this
      · exact hu.2 ((hst.done t).1 (.inl hd)).2
      · exact hu.2 ((hst.done t).1 (.inr hd)).2
    rw [hm.counts.njoiners t hocc, hwoken]
    rfl
  · have hnd : (v.waiting.map Prod.fst).Nodup := by
      refine hm.ok.waiting_nodup.map_on fun a ha b hb hab => ?_
      have ha' := (hm.ok.waiting_iff a.1 a.2).1 ha
      have hb' := (hm.ok.waiting_iff b.1 b.2).1 hb
      rw [hab, hb', Role.waiting.injEq] at ha'
      exact Prod.ext hab ha'.symm
    rw [hm.counts.inflight, countP_range hnd, List.length_map]
    intro i
    rw [decide_eq_true_iff, ← hst.waiting]
    simp only [List.mem_map, Prod.exists, exists_and_right, exists_eq_right, hm.ok.waiting_iff]
  · have hlen := List.length_eq_countP_add_countP (fun i => decide ((s.rt.slots i).state = .free))
      (l := List.range s.rt.nslots)
    have hcount := countP_range (p := fun i => decide ((s.rt.slots i).state = .free)) hm.lists.free.nodup
      (fun i => by rw [hfree_iff, decide_eq_true_iff])
    have hlive := hm.counts.live
    rw [List.length_range, hcount] at hlen
    have hneg : (fun i => decide ((s.rt.slots i).state ≠ .free)) =
        fun i => decide (¬decide ((s.rt.slots i).state = .free) = true) := by
      funext i
      simp
    rw [hneg]
    omega

/-- In every state of a run where a task's code runs, the lists hold what the states say and the counters count it. -/
theorem queues_ok (h : Reachable s) (hboth : NeverBoth s.rt.log) (hacc : AllAccepted s.rt.log) (hc : s.ctl = .code) :
    ∃ ready free waiters, QueuesOk s.rt ready free waiters := by
  rcases h.inv hboth hacc with ⟨v, hv⟩ | ⟨hexit, -⟩
  · exact ⟨_, _, _, hv.queuesOk hc⟩
  · rw [hc] at hexit
    cases hexit

/-- Task 0 awaits task 1, which has parked on a read; task 2 runs. -/
theorem queues_ok_parked : ∃ s : Machine UringIo,
    Transition.run step (gtInit (UringIo.setup 3 4 7 9) 4096 false)
      [.async ⟨1, none⟩ spawnServed, .async ⟨2, none⟩ spawnServed, .await 1048577, .turn,
        .io ⟨.read 0 512 8, false, none⟩, .turn] = some s ∧
    ∃ ready free waiters, QueuesOk s.rt ready free waiters := by
  obtain ⟨s, hs, hc, hlog⟩ : ∃ s : Machine UringIo,
      Transition.run step (gtInit (UringIo.setup 3 4 7 9) 4096 false)
        [.async ⟨1, none⟩ spawnServed, .async ⟨2, none⟩ spawnServed, .await 1048577, .turn,
          .io ⟨.read 0 512 8, false, none⟩, .turn] = some s ∧ s.ctl = .code ∧
      s.rt.log = [.started 2, .parked 1 0, .started 1, .joined 0 1, .spawned 2, .mprotected 8192 131072 .readWrite,
        .mapped 4096 135168 .none, .alloc 2, .spawned 1, .mprotected 8192 131072 .readWrite,
        .mapped 4096 135168 .none, .alloc 1, .started 0, .spawned 0, .alloc 0] := ⟨_, rfl, rfl, rfl⟩
  have hstarted : IoBackend.Started (UringIo.setup 3 4 7 9) :=
    .inr ⟨3, 4, 7, 9, by decide, by decide, by decide, by decide, rfl⟩
  exact ⟨s, hs, queues_ok ⟨_, 4096, false, hstarted, _, hs⟩ (.of_not_detached fun t => by simp [hlog])
    (fun t => by simp [hlog]) hc⟩

end Sppc
