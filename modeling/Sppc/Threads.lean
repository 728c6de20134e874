import Sppc.Transition
import Mathlib.Algebra.BigOperators.Group.Finset.Basic
import Mathlib.Data.Fintype.Basic

/-!
# Threads that share a state

Each thread is somewhere in its program (`loc`), and all of them share one state.  A step is one access of one thread
to what is shared, or something the environment does to it.  `act t i h l` is what the thread `t` at `l` does under
the input `i`, which settles whatever the program leaves open.
-/

namespace Threads

variable {Tid Shared Loc Input Env : Type*}

structure State (Tid Shared Loc : Type*) where
  shared : Shared
  loc : Tid → Loc

inductive Event (Tid Input Env : Type*)
  | thread (t : Tid) (i : Input)
  | env (e : Env)

variable [DecidableEq Tid]

/-- The thread `t` has moved on to `l`, leaving the shared state `h`. -/
def State.put (s : State Tid Shared Loc) (t : Tid) (h : Shared) (l : Loc) : State Tid Shared Loc :=
  ⟨h, Function.update s.loc t l⟩

section put

variable {s : State Tid Shared Loc} {t u : Tid} {h : Shared} {l : Loc}

@[simp] theorem State.put_shared : (s.put t h l).shared = h := rfl

@[simp] theorem State.put_self : (s.put t h l).loc t = l := by simp [State.put]

@[simp] theorem State.put_put {h' : Shared} {l' : Loc} : (s.put t h l).put t h' l' = s.put t h' l' := by
  simp [State.put]

@[simp] theorem State.put_of_ne (hu : u ≠ t) : (s.put t h l).loc u = s.loc u := by simp [State.put, hu]

/-- What holds of every thread after a step: it holds of the one that moved, and still of the others. -/
theorem State.put_forall {P : Tid → Loc → Prop} (ht : P t l) (hu : ∀ u ≠ t, P u (s.loc u)) (u : Tid) :
    P u ((s.put t h l).loc u) := by
  by_cases hut : u = t
  · subst hut
    rw [put_self]
    exact ht
  · rw [put_of_ne hut]
    exact hu u hut

/-- What held of some thread before a step, and the step keeps if that is the one that moved. -/
theorem State.put_exists {P : Tid → Loc → Prop} (hs : ∃ u, P u (s.loc u)) (ht : P t (s.loc t) → P t l) :
    ∃ u, P u ((s.put t h l).loc u) := by
  obtain ⟨u, hu⟩ := hs
  refine ⟨u, ?_⟩
  by_cases hut : u = t
  · subst hut
    rw [put_self]
    exact ht hu
  · rw [put_of_ne hut]
    exact hu

/-- What the threads make together: the one that moves, and the others. -/
theorem State.sum_put [Fintype Tid] (f : Loc → Nat) (s : State Tid Shared Loc) (t : Tid) (h : Shared) (l : Loc) :
    ∑ u, f ((s.put t h l).loc u) = ∑ u ∈ Finset.univ.erase t, f (s.loc u) + f l := by
  rw [← Finset.sum_erase_add _ _ (Finset.mem_univ t), put_self]
  congr 1
  refine Finset.sum_congr rfl fun u hu => ?_
  rw [put_of_ne (Finset.ne_of_mem_erase hu)]

end put

/-- One step of one thread, or of the environment. -/
def step (act : Tid → Input → Shared → Loc → Option (Shared × Loc)) (env : Env → Shared → Option Shared)
    (s : State Tid Shared Loc) : Event Tid Input Env → Option (State Tid Shared Loc)
  | .thread t i => (act t i s.shared (s.loc t)).map fun r => s.put t r.1 r.2
  | .env e => (env e s.shared).map fun h => { s with shared := h }

variable {act : Tid → Input → Shared → Loc → Option (Shared × Loc)} {env : Env → Shared → Option Shared}
  {s s' : State Tid Shared Loc}

theorem step_thread {t : Tid} {i : Input} : step act env s (.thread t i) = some s' ↔
    ∃ h l, act t i s.shared (s.loc t) = some (h, l) ∧ s' = s.put t h l := by
  simp only [step, Option.map_eq_some_iff, Prod.exists]
  constructor
  · rintro ⟨h, l, hact, rfl⟩
    exact ⟨h, l, hact, rfl⟩
  · rintro ⟨h, l, hact, rfl⟩
    exact ⟨h, l, hact, rfl⟩

end Threads
