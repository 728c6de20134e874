import Sppc.Threads
import Sppc.Rounds
import Sppc.Windows.Wait

/-!
# The Darwin barrier (`platform/darwin.h`)

Any number of threads wait on one barrier made of a mutex and a condition variable, round after round.  Everything
shared is read and written under the mutex, so a step is what a thread does between taking the mutex and letting it
go, by unlocking it or by waiting on the condition.  The condition wakes any thread at any time.
-/

namespace Sppc.Darwin

open Threads Sppc.Windows

/-- `_sppc_barrier`, less its mutex and its condition. -/
structure Barrier where
  count : Nat
  arrived : Nat
  cycle : Nat

/-- The barrier, the threads that wait on its condition, and the record of the rounds, which the code
does not keep. -/
structure BarrierState (Tid : Type) where
  barrier : Barrier
  sleepers : List Tid
  rounds : Rounds Tid

/-- Where a thread is: outside, its last wait having returned `r`, or waiting on the condition, with the cycle it read
and the round in which it arrived. -/
inductive BarrierLoc
  | out (r : Ret)
  | waiting (cycle k : Nat)
  deriving DecidableEq, Repr

/-- A thread outside calls wait, and one inside takes the mutex again. -/
inductive BarrierInput
  | wait
  | run
  deriving DecidableEq, Repr

variable {Tid : Type} [DecidableEq Tid]

/-- The loop of `sppc_pthread_barrier_wait`, with the mutex, up to letting it go. -/
def barrierLoop (t : Tid) (cycle k : Nat) (h : BarrierState Tid) : BarrierState Tid × BarrierLoc :=
  if cycle = h.barrier.cycle then ({ h with sleepers := h.sleepers ++ [t] }, .waiting cycle k)
  else ({ h with rounds := h.rounds.leave t k false }, .out .zero)

/-- What the thread `t` does with the mutex. -/
def barrierAct (t : Tid) (i : BarrierInput) (h : BarrierState Tid) :
    BarrierLoc → Option (BarrierState Tid × BarrierLoc)
  | .out _ => match i with
    | .wait =>
      let cycle := h.barrier.cycle
      let b : Barrier := { h.barrier with arrived := h.barrier.arrived + 1 }
      if b.arrived = b.count then
        some (⟨{ b with arrived := 0, cycle := (b.cycle + 1) % 2 ^ 32 }, [],
          (h.rounds.fill t).opens.leave t h.rounds.round true⟩, .out .minusOne)
      else some (barrierLoop t cycle h.rounds.round { h with barrier := b, rounds := h.rounds.arrive t })
    | .run => none
  -- woken where `t` is no sleeper any more, and otherwise spuriously
  | .waiting cycle k => some (barrierLoop t cycle k { h with sleepers := h.sleepers.filter (· ≠ t) })

abbrev BarrierSystem (Tid : Type) := Threads.State Tid (BarrierState Tid) BarrierLoc

abbrev BarrierEvent (Tid : Type) := Threads.Event Tid BarrierInput Empty

/-- `sppc_pthread_barrier_init`, which refuses a count that an `unsigned` does not hold. -/
def BarrierSystem.init (count : Nat) : Option (BarrierSystem Tid) :=
  if count = 0 ∨ uintMax < count then none
  else some ⟨⟨⟨count, 0, 0⟩, [], .start⟩, fun _ => .out .zero⟩

def barrierStep : BarrierSystem Tid → BarrierEvent Tid → Option (BarrierSystem Tid) :=
  Threads.step barrierAct fun e _ => nomatch e

/-- What holds of a thread that waits. -/
def BarrierLoc.Ok (h : BarrierState Tid) (t : Tid) : BarrierLoc → Prop
  | .waiting cycle k => k ≤ h.rounds.round ∧ cycle = k % 2 ^ 32 ∧ h.rounds.opener k ≠ some t ∧
    t ∈ h.rounds.arrived k ∧ t ∉ (h.rounds.left k).map Prod.fst
  | .out _ => True

/-- The round of the wait that a thread is inside. -/
def BarrierLoc.wait : BarrierLoc → Option Nat
  | .waiting _ k => some k
  | .out _ => none

structure BarrierInv (s : BarrierSystem Tid) : Prop where
  rounds : s.shared.rounds.Ok s.shared.barrier.count
  cycle : s.shared.barrier.cycle = s.shared.rounds.round % 2 ^ 32
  arrived : s.shared.barrier.arrived = (s.shared.rounds.arrived s.shared.rounds.round).length
  loc : ∀ t, (s.loc t).Ok s.shared t
  present : ∀ t, t ∈ s.shared.rounds.arrived s.shared.rounds.round → (s.loc t).wait = some s.shared.rounds.round
  asleep : ∀ t ∈ s.shared.sleepers, ∃ cycle k, s.loc t = .waiting cycle k ∧
    (k < s.shared.rounds.round → k + 2 ^ 32 ≤ s.shared.rounds.round)

variable {s : BarrierSystem Tid} {t : Tid} {h' : BarrierState Tid} {l' : BarrierLoc}

/-- A thread arrives in a round and waits for it to open. -/
private theorem BarrierInv.arrive (hi : BarrierInv s) (hloc : (s.loc t).wait = none) :
    BarrierInv (s.put t { s.shared with
        barrier := { s.shared.barrier with arrived := s.shared.barrier.arrived + 1 }
        rounds := s.shared.rounds.arrive t
        sleepers := s.shared.sleepers ++ [t] }
      (.waiting s.shared.barrier.cycle s.shared.rounds.round)) := by
  have hnew : t ∉ s.shared.rounds.arrived s.shared.rounds.round := by
    intro hmem
    rw [hi.present t hmem] at hloc
    cases hloc
  constructor
  case rounds => exact hi.rounds.arrive hnew
  case cycle => exact hi.cycle
  case arrived =>
    show s.shared.barrier.arrived + 1 = ((s.shared.rounds.arrive t).arrived s.shared.rounds.round).length
    rw [Rounds.arrive_arrived, List.length_cons, hi.arrived]
  case loc =>
    refine State.put_forall ⟨Nat.le_refl _, hi.cycle, fun ho => hnew (hi.rounds.openers _ _ ho), ?_, fun hmem => ?_⟩
      fun u hu => ?_
    · show t ∈ (s.shared.rounds.arrive t).arrived s.shared.rounds.round
      rw [Rounds.arrive_arrived]
      exact List.mem_cons_self
    · obtain ⟨x, hx, -⟩ := List.mem_map.1 hmem
      exact Nat.lt_irrefl _ (hi.rounds.left _ x hx).1
    · have hok := hi.loc u
      cases hl : s.loc u with
      | out r => trivial
      | waiting cycle k =>
        rw [hl] at hok
        obtain ⟨hk, hcycle, hopener, hmem, hleft⟩ := hok
        exact ⟨hk, hcycle, hopener, Rounds.subset_arrive hmem, hleft⟩
  case present =>
    intro u
    refine State.put_forall (P := fun u l => u ∈ (s.shared.rounds.arrive t).arrived s.shared.rounds.round →
      BarrierLoc.wait l = some s.shared.rounds.round) (fun _ => rfl) (fun u hu hmem => ?_) u
    rw [Rounds.arrive_arrived] at hmem
    exact hi.present u ((List.mem_cons.1 hmem).resolve_left hu)
  case asleep =>
    intro u hu
    rcases List.mem_append.1 hu with hu | hu
    · obtain ⟨cycle, k, hu', hk⟩ := hi.asleep u hu
      refine ⟨cycle, k, ?_, hk⟩
      rw [State.put_of_ne]
      · exact hu'
      · rintro rfl
        rw [hu'] at hloc
        cases hloc
    · rw [List.mem_singleton.1 hu]
      exact ⟨_, _, State.put_self, fun hk => absurd hk (Nat.lt_irrefl _)⟩

/-- The last thread of a round arrives, opens the round and leaves it as the serial one. -/
private theorem BarrierInv.fill (hi : BarrierInv s) (hloc : (s.loc t).wait = none)
    (hlast : s.shared.barrier.arrived + 1 = s.shared.barrier.count) :
    BarrierInv (s.put t ⟨{ s.shared.barrier with arrived := 0, cycle := (s.shared.barrier.cycle + 1) % 2 ^ 32 }, [],
      (s.shared.rounds.fill t).opens.leave t s.shared.rounds.round true⟩ (.out .minusOne)) := by
  have hnew : t ∉ s.shared.rounds.arrived s.shared.rounds.round := by
    intro hmem
    rw [hi.present t hmem] at hloc
    cases hloc
  have hnil : (s.shared.rounds.arrive t).arrived (s.shared.rounds.round + 1) = [] := by
    rw [Rounds.arrive_arrived_of_ne (by omega)]
    exact hi.rounds.later _ (Nat.lt_succ_self _)
  have hmem : t ∈ (s.shared.rounds.fill t).arrived s.shared.rounds.round := by
    show t ∈ (s.shared.rounds.arrive t).arrived s.shared.rounds.round
    rw [Rounds.arrive_arrived]
    exact List.mem_cons_self
  have hopener : (s.shared.rounds.fill t).opener s.shared.rounds.round = some t := by simp [Rounds.fill]
  constructor
  case rounds =>
    have hlen : ((s.shared.rounds.fill t).arrived s.shared.rounds.round).length = s.shared.barrier.count := by
      show ((s.shared.rounds.arrive t).arrived s.shared.rounds.round).length = s.shared.barrier.count
      rw [Rounds.arrive_arrived, List.length_cons, ← hi.arrived]
      exact hlast
    refine ((hi.rounds.fill hnew).opens hlen hmem hopener).leave (Nat.lt_succ_self _) hmem ?_ fun hleft => ?_
    · exact ⟨fun _ => hopener, fun _ => rfl⟩
    · obtain ⟨x, hx, -⟩ := List.mem_map.1 hleft
      exact Nat.lt_irrefl _ (hi.rounds.left _ x hx).1
  case cycle =>
    show (s.shared.barrier.cycle + 1) % 2 ^ 32 = (s.shared.rounds.round + 1) % 2 ^ 32
    have := hi.cycle
    omega
  case arrived =>
    show 0 = ((s.shared.rounds.arrive t).arrived (s.shared.rounds.round + 1)).length
    rw [hnil]
    rfl
  case loc =>
    refine State.put_forall trivial fun u hu => ?_
    have hok := hi.loc u
    cases hl : s.loc u with
    | out r => trivial
    | waiting cycle k =>
      rw [hl] at hok
      obtain ⟨hk, hcycle, hopener', hmem', hleft⟩ := hok
      refine ⟨Nat.le_succ_of_le hk, hcycle, ?_, Rounds.subset_arrive hmem', ?_⟩
      · show (s.shared.rounds.fill t).opener k ≠ some u
        by_cases hkr : k = s.shared.rounds.round
        · rw [hkr, hopener, Ne, Option.some.injEq]
          exact Ne.symm hu
        · simpa [Rounds.fill, Rounds.arrive, hkr] using hopener'
      · show u ∉ (((s.shared.rounds.fill t).opens.leave t s.shared.rounds.round true).left k).map Prod.fst
        by_cases hkr : k = s.shared.rounds.round
        · rw [hkr, Rounds.leave_left, List.map_cons, List.mem_cons, not_or]
          exact ⟨hu, hkr ▸ hleft⟩
        · rw [Rounds.leave_left_of_ne hkr]
          exact hleft
  case present =>
    intro u hu
    have hu : u ∈ (s.shared.rounds.arrive t).arrived (s.shared.rounds.round + 1) := hu
    rw [hnil] at hu
    cases hu
  case asleep =>
    intro u hu
    cases hu

/-- A thread awake again goes round its loop: it waits on, or leaves an opened round. -/
private theorem BarrierInv.loop (hi : BarrierInv s) {cycle k : Nat} (hloc : s.loc t = .waiting cycle k) :
    BarrierInv (s.put t (barrierLoop t cycle k { s.shared with sleepers := s.shared.sleepers.filter (· ≠ t) }).1
      (barrierLoop t cycle k { s.shared with sleepers := s.shared.sleepers.filter (· ≠ t) }).2) := by
  have hok := hi.loc t
  rw [hloc] at hok
  obtain ⟨hk, hcycle, hopener, hmem, hleft⟩ := hok
  have hasleep (l : BarrierLoc) (h : BarrierState Tid) : ∀ u ∈ s.shared.sleepers.filter (· ≠ t),
      ∃ cycle k, (s.put t h l).loc u = .waiting cycle k ∧
      (k < s.shared.rounds.round → k + 2 ^ 32 ≤ s.shared.rounds.round) := by
    intro u hu
    obtain ⟨hu, hut⟩ := List.mem_filter.1 hu
    obtain ⟨cycle, k, hu, hk⟩ := hi.asleep u hu
    exact ⟨cycle, k, by rw [State.put_of_ne (by simpa using hut)]; exact hu, hk⟩
  simp only [barrierLoop]
  by_cases hsame : cycle = s.shared.barrier.cycle
  · rw [if_pos hsame]
    constructor
    case loc =>
      refine State.put_forall ⟨hk, hcycle, hopener, hmem, hleft⟩ fun u _ => ?_
      have hok := hi.loc u
      cases hl : s.loc u <;> rw [hl] at hok <;> exact hok
    case present =>
      intro u
      exact State.put_forall (P := fun u l => u ∈ s.shared.rounds.arrived s.shared.rounds.round →
        BarrierLoc.wait l = some s.shared.rounds.round) (fun h => by rw [← hi.present t h, hloc])
        (fun u _ => hi.present u) u
    case asleep =>
      intro u hu
      rcases List.mem_append.1 hu with hu | hu
      · exact hasleep _ _ u hu
      · rw [List.mem_singleton.1 hu]
        refine ⟨cycle, k, State.put_self, fun hlt => ?_⟩
        have hlt : k < s.shared.rounds.round := hlt
        show k + 2 ^ 32 ≤ s.shared.rounds.round
        have := hi.cycle
        omega
    exacts [hi.rounds, hi.cycle, hi.arrived]
  · rw [if_neg hsame]
    have hlt : k < s.shared.rounds.round := by
      rcases Nat.lt_or_eq_of_le hk with hlt | rfl
      · exact hlt
      · exact absurd (hcycle.trans hi.cycle.symm) hsame
    constructor
    case rounds => exact hi.rounds.leave hlt hmem (by simpa using hopener) hleft
    case loc =>
      refine State.put_forall trivial fun u hu => ?_
      have hok := hi.loc u
      cases hl : s.loc u with
      | out r => trivial
      | waiting cycle' j =>
        rw [hl] at hok
        obtain ⟨hj, hcycle', hopener', hmem', hleft'⟩ := hok
        refine ⟨hj, hcycle', hopener', hmem', ?_⟩
        show u ∉ ((s.shared.rounds.leave t k false).left j).map Prod.fst
        by_cases hjk : j = k
        · rw [hjk, Rounds.leave_left, List.map_cons, List.mem_cons, not_or]
          exact ⟨hu, hjk ▸ hleft'⟩
        · rw [Rounds.leave_left_of_ne hjk]
          exact hleft'
    case present =>
      intro u
      refine State.put_forall (P := fun u l => u ∈ s.shared.rounds.arrived s.shared.rounds.round →
        BarrierLoc.wait l = some s.shared.rounds.round) (fun h => ?_) (fun u _ => hi.present u) u
      have := hi.present t h
      rw [hloc] at this
      exact absurd (Option.some.inj this) (Nat.ne_of_lt hlt)
    case asleep => exact hasleep _ _
    exacts [hi.cycle, hi.arrived]

private theorem BarrierInv.act {i : BarrierInput} (hi : BarrierInv s)
    (hact : barrierAct t i s.shared (s.loc t) = some (h', l')) :
    BarrierInv (s.put t h' l') ∧ h'.barrier.count = s.shared.barrier.count := by
  cases hloc : s.loc t with
  | out r =>
    rw [hloc] at hact
    cases i with
    | wait =>
      simp only [barrierAct] at hact
      split at hact
      · rename_i hlast
        cases hact
        exact ⟨hi.fill (by rw [hloc]; rfl) hlast, rfl⟩
      · rw [barrierLoop, if_pos rfl] at hact
        cases hact
        exact ⟨hi.arrive (by rw [hloc]; rfl), rfl⟩
    | run => cases hact
  | waiting cycle k =>
    rw [hloc] at hact
    have heq : barrierLoop t cycle k { s.shared with sleepers := s.shared.sleepers.filter (· ≠ t) } = (h', l') :=
      Option.some.inj hact
    have hloop := hi.loop hloc
    rw [heq] at hloop
    refine ⟨hloop, ?_⟩
    rw [show h' = _ from (congrArg Prod.fst heq).symm, barrierLoop]
    split
    · rfl
    · rfl

/-- What the barrier guarantees in every state of a run. -/
structure BarrierOk (count : Nat) (s : BarrierSystem Tid) : Prop where
  rounds : s.shared.rounds.Ok count
  waits : ∀ t k, (s.loc t).wait = some k → k ≤ s.shared.rounds.round ∧ t ∈ s.shared.rounds.arrived k
  escapes : ∀ t k, (s.loc t).wait = some k → k < s.shared.rounds.round → s.shared.rounds.round < k + 2 ^ 32 →
    t ∉ s.shared.sleepers ∧ ∃ h', barrierAct t .run s.shared (s.loc t) = some (h', .out .zero)
  returns : ∀ t i h' r, barrierAct t i s.shared (s.loc t) = some (h', .out r) →
    ∃ k serial, h'.rounds.left k = (t, serial) :: s.shared.rounds.left k ∧ (serial = true ↔ r = .minusOne)

omit [DecidableEq Tid] in
private theorem left_fill {R : Rounds Tid} {t : Tid} {k : Nat} :
    ((R.fill t).opens.leave t k true).left k = (t, true) :: R.left k := by
      simp [Rounds.leave, Rounds.opens, Rounds.fill, Rounds.arrive]

private theorem BarrierInv.barrierOk (hi : BarrierInv s) : BarrierOk s.shared.barrier.count s where
  rounds := hi.rounds
  waits := by
    intro t k hwait
    have hok := hi.loc t
    cases hloc : s.loc t <;> rw [hloc] at hwait hok <;> cases hwait
    exact ⟨hok.1, hok.2.2.2.1⟩
  escapes := by
    intro t k hwait hk hk'
    have hok := hi.loc t
    cases hloc : s.loc t <;> rw [hloc] at hwait hok <;> cases hwait
    rename_i cycle
    refine ⟨fun hmem => ?_, ?_⟩
    · obtain ⟨cycle', j, hasleep, hj⟩ := hi.asleep t hmem
      rw [hloc] at hasleep
      cases hasleep
      have := hj hk
      omega
    · have hne : cycle ≠ s.shared.barrier.cycle := by
        rw [hi.cycle, hok.2.1]
        omega
      exact ⟨_, by simp only [barrierAct, barrierLoop, if_neg hne]; rfl⟩
  returns := by
    intro t i h' r hact
    cases hloc : s.loc t with
    | out r₀ =>
      rw [hloc] at hact
      cases i with
      | wait =>
        simp only [barrierAct] at hact
        split at hact
        · cases hact
          exact ⟨_, true, left_fill, by simp⟩
        · rw [barrierLoop, if_pos rfl] at hact
          cases hact
      | run => cases hact
    | waiting cycle k =>
      rw [hloc] at hact
      simp only [barrierAct, barrierLoop] at hact
      split at hact <;> cases hact
      exact ⟨k, false, Rounds.leave_left, by simp⟩

omit [DecidableEq Tid] in
theorem BarrierInv.init {count : Nat} (h : BarrierSystem.init count = some s) :
    BarrierInv s ∧ s.shared.barrier.count = count := by
  unfold BarrierSystem.init at h
  split at h
  · cases h
  · cases h
    refine ⟨⟨Rounds.start_ok, rfl, rfl, fun _ => trivial, fun _ h => ?_, fun _ h => ?_⟩, rfl⟩
    · cases h
    · cases h

theorem barrier_run {count : Nat} {s₀ : BarrierSystem Tid} (h₀ : BarrierSystem.init count = some s₀)
    (h : Transition.Reach barrierStep s₀ s) : BarrierOk count s := by
  have hrun : BarrierInv s ∧ s.shared.barrier.count = count := by
    refine h.invariant (P := fun s => BarrierInv s ∧ s.shared.barrier.count = count) ?_ (BarrierInv.init h₀)
    rintro s₁ e s₂ ⟨hi, hcount⟩ hstep
    cases e with
    | thread t i =>
      obtain ⟨h', l', hact, rfl⟩ := step_thread.1 hstep
      obtain ⟨hi, hsame⟩ := hi.act hact
      exact ⟨hi, hsame.trans hcount⟩
    | env e => cases e
  rw [← hrun.2]
  exact hrun.1.barrierOk

end Sppc.Darwin
