import Sppc.Windows.Barrier
import Sppc.Darwin.Barrier

/-!
# The two barriers

Both barriers keep the rounds apart: `Rounds.Ok` says who has left which round, and as what.  A destroy on Windows
waits for those who arrived before it looked, not for a thread that arrives while it returns.
-/

namespace Sppc

variable {Tid : Type} [DecidableEq Tid]

theorem barriers_ok {count : Nat} {s₀ s : Windows.BarrierSystem Tid} {d₀ d : Darwin.BarrierSystem Tid}
    (hs₀ : Windows.BarrierSystem.init count = some s₀) (hs : Transition.Reach Windows.barrierStep s₀ s)
    (hd₀ : Darwin.BarrierSystem.init count = some d₀) (hd : Transition.Reach Darwin.barrierStep d₀ d) :
    Windows.BarrierOk count s ∧ Darwin.BarrierOk count d :=
  ⟨Windows.barrier_run hs₀ hs, Darwin.barrier_run hd₀ hd⟩

/-- Two threads meet at either barrier; on Windows the first to arrive is asleep when the second opens the round. -/
theorem barriers_ok_two : ∃ (s : Windows.BarrierSystem Nat) (d : Darwin.BarrierSystem Nat),
    (s.shared.rounds.round = 1 ∧ s.loc 1 = .out .minusOne ∧ s.loc 0 = .asleep 0 0) ∧
    (d.shared.rounds.round = 1 ∧ d.loc 1 = .out .minusOne ∧ d.loc 0 = .out .zero) ∧
    Windows.BarrierOk 2 s ∧ Darwin.BarrierOk 2 d := by
  have hrun : ((Windows.BarrierSystem.init 2).bind fun s => Transition.run Windows.barrierStep s
      ([.thread 0 .wait] ++ List.replicate 7 (.thread 0 .run) ++ [.thread 1 .wait] ++
        List.replicate 7 (.thread 1 .run))).map (fun s : Windows.BarrierSystem Nat => (s.shared.rounds.round,
        s.loc 1, s.loc 0)) = some (1, .out .minusOne, .asleep 0 0) := by
    decide +kernel
  obtain ⟨s, hs, heq⟩ := Option.map_eq_some_iff.1 hrun
  obtain ⟨s₀, hs₀, hs⟩ := Option.bind_eq_some_iff.1 hs
  simp only [Prod.mk.injEq] at heq
  have hrun : ((Darwin.BarrierSystem.init 2).bind fun d => Transition.run Darwin.barrierStep d
      [.thread 0 .wait, .thread 0 .run, .thread 1 .wait, .thread 0 .run]).map
        (fun d : Darwin.BarrierSystem Nat => (d.shared.rounds.round, d.loc 1, d.loc 0)) =
        some (1, .out .minusOne, .out .zero) := by
    decide +kernel
  obtain ⟨d, hd, heq'⟩ := Option.map_eq_some_iff.1 hrun
  obtain ⟨d₀, hd₀, hd⟩ := Option.bind_eq_some_iff.1 hd
  simp only [Prod.mk.injEq] at heq'
  exact ⟨s, d, heq, heq', barriers_ok hs₀ ⟨_, hs⟩ hd₀ ⟨_, hd⟩⟩

/-- A destroy returns 0 while a thread that arrived after it looked is inside its wait, and is to read the barrier. -/
theorem barrier_destroyed_early : ∃ s₀ s : Windows.BarrierSystem Nat, Windows.BarrierSystem.init 2 = some s₀ ∧
    (∃ s₁, Transition.Reach Windows.barrierStep s₀ s₁ ∧ s₁.loc 0 = .destroyLoad 0 ∧
      Windows.barrierStep s₁ (.thread 0 .run) = some s) ∧
    s.loc 0 = .out .zero ∧ (s.loc 1).wait = some 0 ∧ ¬(s.loc 1).Waking := by
  have hrun : ((Windows.BarrierSystem.init 2).bind fun s₀ => (Transition.run Windows.barrierStep s₀
      ([.thread 0 .destroy, .thread 0 .run, .thread 0 .run, .thread 0 .run, .thread 1 .wait, .thread 1 .run,
        .thread 1 .run, .thread 1 .run])).bind fun s₁ => (Windows.barrierStep s₁ (.thread 0 .run)).map fun s =>
        (s₀, s₁, s)).map (fun s => (s.2.1.loc 0, s.2.2.loc 0, s.2.2.loc 1)) =
        some (.destroyLoad 0, .out .zero, (.enter 0 0 : Windows.BarrierLoc)) := by
    decide +kernel
  obtain ⟨⟨s₀, s₁, s⟩, hs, heq⟩ := Option.map_eq_some_iff.1 hrun
  obtain ⟨s₀', hs₀, hs⟩ := Option.bind_eq_some_iff.1 hs
  obtain ⟨s₁', hs₁, hs⟩ := Option.bind_eq_some_iff.1 hs
  obtain ⟨s', hs', heqs⟩ := Option.map_eq_some_iff.1 hs
  simp only [Prod.mk.injEq] at heq heqs
  obtain ⟨rfl, rfl, rfl⟩ := heqs
  refine ⟨s₀', s', hs₀, ⟨s₁', ⟨_, hs₁⟩, heq.1, hs'⟩, heq.2.1, ?_, ?_⟩
  · rw [heq.2.2]
    rfl
  · rw [heq.2.2]
    exact id

end Sppc
