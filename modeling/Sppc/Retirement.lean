import Sppc.Queues
import Sppc.Accounts

/-!
# Retiring a slot

Three places retire a slot: the reaping of a detached task's stack, the last awaiter of a task, and the detaching of a
task that has finished.  Where no task is both awaited and detached they agree on who goes last.  The detaching of a
task that others await goes wrong: the task is retired when its stack is reaped, and again by its last awaiter.
-/

namespace Sppc

open LinkedList

variable {Io : Type} [IoBackend Io] [LawfulIoBackend Io] {v : Roster} {s : Machine Io}

/-- Every occupancy of a slot is retired at most once, the free slots are those that are not occupied, and a finished
task waits to be retired by somebody. -/
structure RetirementOk (s : Machine Io) : Prop where
  once : ∀ t, occupied t s.rt.log ≠ none
  free : s.ctl ≠ .exited → ∃ l, Linked (fun i => (s.rt.slots i).next) s.rt.freeSlots l ∧ l.Nodup ∧
    (∀ i, i ∈ l ↔ i < s.rt.nslots ∧ occupied i s.rt.log = some false) ∧ s.rt.live + l.length = s.rt.nslots
  due : s.ctl = .code → ∀ t < s.rt.nslots, (s.rt.slots t).state = .done →
    (s.rt.slots t).detached = false ∧
    ∀ w, Ev.collected w t ∈ occupancy t s.rt.log → (s.rt.slots t).njoiners ≠ 0
  /-- Each retirement moves the slot's generation on, and nothing else does. -/
  moves : ∀ e s', step s e = some s' → Moved s.rt s'.rt

omit [IoBackend Io] [LawfulIoBackend Io] in
/-- A slot is occupied where its role says so. -/
theorem LogOk.occupied {R : GtRuntime Io} (h : LogOk R v) (t : Nat) :
    Sppc.occupied t R.log = some (v.role t).occupied := by
  cases ht : (v.role t).occupied with
  | true =>
    have hstage : (v.role t).stage ≠ .vacant := by
      cases hr : v.role t with
      | ready f => cases f <;> simp [Role.stage]
      | popped f => cases f <;> simp [Role.stage]
      | _ => simp_all [Role.stage, Role.occupied]
    rw [occupied_of_life (h.lives t ht)]
    simp [hstage]
  | false =>
    obtain ⟨L, hL, hv⟩ := h.vacant t ht
    rw [occupied_of_life hL]
    simp [hv]

theorem Live.retirementOk (h : Live s v) (htab : Table s.rt) : RetirementOk s := by
  have hruns := h.at_code
  obtain ⟨hm, hs, -⟩ := h
  refine ⟨fun t => ?_, fun _ => ⟨v.free, hm.lists.free, hm.lists.free.nodup, fun i => ?_, hm.counts.live⟩,
    fun hc t ht hst => ?_, fun e s' hstep => (step_keeps hstep htab).2⟩
  · rw [hm.logged.occupied]
    simp
  · have hunused := hm.lists.unused_iff i
    rw [hm.ok.free_iff, hm.logged.occupied]
    cases hr : v.role i <;> simp_all [Role.occupied]
  · obtain ⟨hr, -⟩ := hruns hc
    have hdone : v.role t = .done := by
      rcases ((hs.statesOk hm.lists).done t).2 ⟨ht, hst⟩ with hz | hd
      · have := hs.zombie t hz
        rw [hr.zombies] at this
        cases this
      · exact hd
    refine ⟨hm.counts.collectable t hdone, fun w hw => ?_⟩
    have hlife := hm.logged.lives t (by rw [hdone]; rfl)
    have hjoin : v.joiners t = [] := hm.ok.joiners_nil (by rw [hdone]; rfl)
    rw [hdone] at hlife
    -- who collected left somebody behind, or the slot would have been handed back
    have hleft := (accounts hlife (by simp [Role.stage])).left rfl w hw
    rw [hm.counts.njoiners t (by rw [hdone]; rfl), hjoin]
    simpa [hjoin, Roster.collects, hs.collecting] using hleft

/-- Where no task is both awaited and detached, every occupancy is retired once. -/
theorem retirement_ok (h : Reachable s) (hboth : NeverBoth s.rt.log) (hacc : AllAccepted s.rt.log) :
    RetirementOk s := by
  rcases h.inv hboth hacc with ⟨v, hv⟩ | ⟨hexit, hend⟩
  · exact hv.retirementOk h.table
  · refine ⟨fun t => ?_, fun hne => absurd hexit hne, fun hc => ?_,
      fun e s' hstep => (step_keeps hstep h.table).2⟩
    · cases hlife : life t s.rt.log with
      | none => exact absurd hlife (hend.lives t)
      | some L =>
        rw [occupied_of_life hlife]
        simp
    · rw [hc] at hexit
      cases hexit

/-- Task 1 is awaited by the tasks 0 and 2 and collected by both; task 3 is detached and finishes. -/
theorem retirement_ok_three : ∃ s : Machine BlockingIo,
    Transition.run step (gtInit .unused 4096 false)
      [.async ⟨1, none⟩ spawnServed, .async ⟨2, none⟩ spawnServed, .async ⟨3, none⟩ spawnServed, .detach 1048579,
        .await 1048577, .turn, .yield, .await 1048577, .turn, .finish, .turn, .finish, .turn, .yield] = some s ∧
    RetirementOk s := by
  have hrun : (Transition.run step (gtInit BlockingIo.unused 4096 false)
      [.async ⟨1, none⟩ spawnServed, .async ⟨2, none⟩ spawnServed, .async ⟨3, none⟩ spawnServed, .detach 1048579,
        .await 1048577, .turn, .yield, .await 1048577, .turn, .finish, .turn, .finish, .turn,
        .yield]).map (·.rt.log) =
      some [.retire 1, .collected 0 1, .resumed 0 1, .collected 2 1, .resumed 2 1, .woken 0 1, .woken 2 1,
        .returned 1, .retire 3, .returned 3, .started 3, .joined 2 1, .started 2, .started 1, .joined 0 1,
        .detached 3, .spawned 3, .mprotected 8192 131072 .readWrite, .mapped 4096 135168 .none, .alloc 3,
        .spawned 2, .mprotected 8192 131072 .readWrite, .mapped 4096 135168 .none, .alloc 2,
        .spawned 1, .mprotected 8192 131072 .readWrite, .mapped 4096 135168 .none, .alloc 1, .started 0, .spawned 0,
        .alloc 0] := by decide +kernel
  obtain ⟨s, hs, hlog⟩ := Option.map_eq_some_iff.1 hrun
  refine ⟨s, hs, retirement_ok ⟨.unused, 4096, false, trivial, _, hs⟩ (.of_slots fun t w ht => ?_) fun t => by
    simp [hlog]⟩
  have ht3 : t = 3 := by simpa [hlog] using ht
  simp [hlog, ht3]

/-- Task 2 awaits task 1, which task 0 detaches: when task 1 has finished, its slot is retired with its stack, and
once more by task 2. -/
theorem retired_twice : ¬∀ s : Machine BlockingIo, Reachable s → RetirementOk s := by
  intro hall
  have hrun : (Transition.run step (gtInit BlockingIo.unused 4096 false)
      [.async ⟨1, none⟩ spawnServed, .async ⟨2, none⟩ spawnServed, .yield, .yield, .await 1048577, .turn,
        .detach 1048577, .yield, .finish, .turn, .yield]).map (fun s => occupied 1 s.rt.log) = some none := by
    decide +kernel
  obtain ⟨s, hs, hocc⟩ := Option.map_eq_some_iff.1 hrun
  exact (hall s ⟨.unused, 4096, false, trivial, _, hs⟩).once 1 hocc

end Sppc
