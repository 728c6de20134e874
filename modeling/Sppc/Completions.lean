import Sppc.Queues

/-!
# Completions of the io_uring backend

While every submission is accepted, each completion a poll takes is the one its task waits for, and the operations the
tasks wait for are those the kernel has or has completed.  A submission that is refused leaves its entry published,
and the kernel takes it with the next submission, in whose place it is.
-/

namespace Sppc

variable {s : Machine UringIo}

/-- The completions taken are those waited for, what is waited for was submitted, and `inflight` counts it. -/
structure CompletionsOk (s : Machine UringIo) : Prop where
  taken : EachTaken s.rt.log
  submitted : s.ctl ≠ .exited → ∀ t < s.rt.nslots, (s.rt.slots t).state = .waiting →
    ∃ op, operation t s.rt.log = some op ∧ (t, op) ∈ uringPending s.rt.io
  inflight : s.ctl ≠ .exited → s.rt.inflight = (uringPending s.rt.io).length

private theorem Live.completionsOk {v : Roster} (h : Live s v) : CompletionsOk s := by
  obtain ⟨hm, hs, -⟩ := h
  have hpending : (uringPending s.rt.io).Perm v.waiting := by
    have hp := hm.counts.pending
    rw [hs.taken, List.nil_append] at hp
    exact hp
  refine ⟨hm.logged.taken, fun _ t ht hst => ?_, fun _ => ?_⟩
  · obtain ⟨op, hop⟩ := ((hs.statesOk hm.lists).waiting t).2 ⟨ht, hst⟩
    exact ⟨op, hm.logged.waits t op hop, hpending.mem_iff.2 ((hm.ok.waiting_iff t op).2 hop)⟩
  · rw [hm.counts.inflight, hpending.length_eq]

/-- While every submission is accepted, completions reach the tasks that wait for them. -/
theorem completions_ok (h : Reachable s) (hboth : NeverBoth s.rt.log) (hacc : AllAccepted s.rt.log) :
    CompletionsOk s := by
  rcases h.inv hboth hacc with ⟨v, hv⟩ | ⟨hexit, hend⟩
  · exact hv.completionsOk
  · exact ⟨hend.taken, fun hne => absurd hexit hne, fun hne => absurd hexit hne⟩

/-- Task 1 parks on a read, task 0 on a write; the kernel completes both, the write first. -/
theorem completions_ok_two : ∃ s : Machine UringIo,
    Transition.run step (gtInit (UringIo.setup 3 4 7 9) 4096 false)
      [.async ⟨1, none⟩ spawnServed, .yield, .io ⟨.read 0 512 8, false, none⟩, .turn,
        .io ⟨.write 1 512 8, false, none⟩, .turn, .kernel (.complete 1 8), .poll, .turn, .kernel (.complete 0 8),
        .yield] = some s ∧ CompletionsOk s := by
  obtain ⟨s, hs, hlog⟩ : ∃ s : Machine UringIo,
      Transition.run step (gtInit (UringIo.setup 3 4 7 9) 4096 false)
        [.async ⟨1, none⟩ spawnServed, .yield, .io ⟨.read 0 512 8, false, none⟩, .turn,
          .io ⟨.write 1 512 8, false, none⟩, .turn, .kernel (.complete 1 8), .poll, .turn, .kernel (.complete 0 8),
          .yield] = some s ∧
      s.rt.log = [.taken 1 0 .waiting, .taken 0 1 .waiting, .parked 0 1, .parked 1 0, .started 1, .spawned 1,
        .mprotected 8192 131072 .readWrite, .mapped 4096 135168 .none, .alloc 1, .started 0, .spawned 0,
        .alloc 0] := ⟨_, rfl, rfl⟩
  have hstarted : IoBackend.Started (UringIo.setup 3 4 7 9) :=
    .inr ⟨3, 4, 7, 9, by decide, by decide, by decide, by decide, rfl⟩
  exact ⟨s, hs, completions_ok ⟨_, 4096, false, hstarted, _, hs⟩ (.of_not_detached fun t => by simp [hlog])
    (fun t => by simp [hlog])⟩

/-- A read of task 0 is refused and its entry stays in the ring: the write task 1 submits next stays there, the kernel
takes the read, and its completion is task 0's, which runs. -/
theorem completions_refused : ¬∀ s : Machine UringIo, Reachable s → CompletionsOk s := by
  intro hall
  obtain ⟨s, hs, hlog⟩ : ∃ s : Machine UringIo,
      Transition.run step (gtInit (UringIo.setup 3 4 7 9) 4096 false)
        [.async ⟨1, none⟩ spawnServed, .io ⟨.read 0 512 8, false, some 11⟩, .yield,
          .io ⟨.write 1 512 8, false, none⟩, .turn, .kernel (.complete 0 8), .yield] = some s ∧
      s.rt.log = [.taken 0 0 .running, .parked 1 1, .started 1, .refused 0, .spawned 1,
        .mprotected 8192 131072 .readWrite, .mapped 4096 135168 .none, .alloc 1, .started 0, .spawned 0,
        .alloc 0] := ⟨_, rfl, rfl⟩
  have hstarted : IoBackend.Started (UringIo.setup 3 4 7 9) :=
    .inr ⟨3, 4, 7, 9, by decide, by decide, by decide, by decide, rfl⟩
  have htaken := (hall s ⟨_, 4096, false, hstarted, _, hs⟩).taken
  rw [hlog] at htaken
  exact absurd (htaken 0 0 .running _ (List.suffix_refl _)).1 (by decide)

end Sppc
